import Mathlib.Data.List.DropRight
import DenebModel.Execution.GcodeControl
import DenebModel.Objects.Theorems.GcodeOutput
import DenebModel.Objects.Theorems.WaitTarget

-- Which spellings of a heater wait are kept from the firmware.
namespace Deneb

open CString

-- The word of a blocking wait.
def Heater.waitCommand : Heater → CString
  | .nozzle => "M109"
  | .bed    => "M190"

-- The heater of a line whose command word is M109 or M190, in either case of the letter. The word
-- ends where its number does.
def waitWord (line : CString) : Option Heater :=
  match skipSpaces line with
  | []     => none
  | c :: s =>
    if toUpper c ≠ 77 ∨ (s.drop 3).head?.any (fun d => isDigit d || d == 46) then none
    else if startsWith s "109" then some .nozzle
    else if startsWith s "190" then some .bed
    else none

-- A wait is replaced: nothing but the command that sets the heater is handed over for it, and the
-- service waits for that heater and no other.
structure Replaced (commands : List CString) (waitBed waitNozzle : Bool) (heater : Heater) :
    Prop where
  set    : ∃ number, commands = [heater.setCommand ++ number]
  bed    : waitBed = decide (heater = .bed)
  nozzle : waitNozzle = decide (heater = .nozzle)

-- The commands of the next line of a file are those of a replaced wait.
def GcodeStream.Replaces (stream : GcodeStream) (buffer : LineBuffer) (heater : Heater) : Prop :=
  ∃ command stream', stream.next buffer = (1, command, stream') ∧
    Replaced (command :: stream'.pending) stream'.lastWaitForBed stream'.lastWaitForNozzle heater

-- The queue entries of a line are those of a replaced wait.
def EntriesReplace (entries : List GcodeQueueEntry) (heater : Heater) : Prop :=
  Replaced (entries.map (·.command)) (entries.any (·.waitBed)) (entries.any (·.waitNozzle)) heater

-- A capital letter, and behind the number the end of the line or a byte that may stand there.
def Spelled (line : CString) (ends : UInt8 → Prop) : Prop :=
  (skipSpaces line).head? = some 77 ∧ ∀ c ∈ ((skipSpaces line).drop 4).head?, ends c

section

variable {line : CString} {heater : Heater}

theorem waitCommand_word : ∀ c ∈ heater.waitCommand, isSpace c = false ∧ c ≠ 59 := by
  cases heater <;> decide

theorem waitWord_eq (h : waitWord line = some heater) :
    ∃ c rest, skipSpaces line = c :: (heater.waitCommand.drop 1 ++ rest) := by
  rw [waitWord] at h
  rcases hp : skipSpaces line with _ | ⟨c, s⟩
  · rw [hp] at h
    contradiction
  · rw [hp] at h
    dsimp only at h
    split_ifs at h with _ hn hb
    · obtain ⟨rest, rfl⟩ := List.isPrefixOf_iff_prefix.mp hn
      injection h with h
      exact ⟨c, rest, by rw [← h]; rfl⟩
    · obtain ⟨rest, rfl⟩ := List.isPrefixOf_iff_prefix.mp hb
      injection h with h
      exact ⟨c, rest, by rw [← h]; rfl⟩

end

namespace GcodeRewrite

variable {command : CString} {heater : Heater}

theorem waitHeater_iff :
    waitHeater command = some heater ↔ commandStartsWith command heater.waitCommand := by
  have hother : ∀ {p r : CString}, commandStartsWith command p → r.length = p.length → r ≠ p →
      commandStartsWith command r = false := commandStartsWith_ne
  rw [waitHeater]
  constructor
  · intro h
    split_ifs at h with hb hn
    · injection h with h
      exact h ▸ hb
    · injection h with h
      exact h ▸ hn
  · intro h
    cases heater
    case nozzle =>
      have hn : commandStartsWith command "M109" := h
      have hb := @hother _ "M190" h (by decide) (by decide)
      rw [if_neg (by rw [hb]; decide), if_pos hn]
    case bed =>
      have hb : commandStartsWith command "M190" := h
      rw [if_pos hb]

theorem line_of_not_wait (h : waitHeater command = none) :
    (GcodeRewrite.line command).waitForBed = false ∧
      (GcodeRewrite.line command).waitForNozzle = false := by
  rw [waitHeater] at h
  split_ifs at h with hb hn
  rw [GcodeRewrite.line]
  split_ifs
  · exact ⟨rfl, rfl⟩
  · simp only [waitCommand, hb, hn, Bool.false_eq_true, if_false, primeCommand]
    split_ifs <;> exact ⟨rfl, rfl⟩

-- The rewriter replaces what it recognises and nothing else.
theorem replaced_iff :
    Replaced ((GcodeRewrite.line command).commands.map (fit maxGcodeLine))
        (GcodeRewrite.line command).waitForBed (GcodeRewrite.line command).waitForNozzle heater ↔
      waitHeater command = some heater := by
  constructor
  · rintro ⟨-, hb, hn⟩
    rcases hw : waitHeater command with _ | heater'
    · obtain ⟨hb', hn'⟩ := line_of_not_wait hw
      rw [hb'] at hb
      rw [hn'] at hn
      cases heater <;> contradiction
    · rw [line_of_waitHeater hw] at hb hn
      cases heater <;> cases heater' <;> first | rfl | contradiction
  · intro h
    rw [line_of_waitHeater h]
    refine ⟨?_, rfl, rfl⟩
    rw [List.map_singleton]
    generalize BinaryFloat.formatG 3 _ = number
    cases heater
    · exact ⟨number.take 249, rfl⟩
    · exact ⟨number.take 249, rfl⟩

end GcodeRewrite

section

variable {line : CString} {heater : Heater} {ends : UInt8 → Prop}

theorem spelled_iff (h : waitWord line = some heater) :
    Spelled line ends ↔
      ∃ rest, skipSpaces line = heater.waitCommand ++ rest ∧ ∀ c ∈ rest.head?, ends c := by
  obtain ⟨c, rest, hp⟩ := waitWord_eq h
  have hdrop : ∀ c rest, (c :: (heater.waitCommand.drop 1 ++ rest)).drop 4 = rest := by
    intro c rest
    cases heater <;> rfl
  constructor
  · rintro ⟨hhead, hends⟩
    rw [hp, hdrop] at hends
    rw [hp] at hhead
    refine ⟨rest, ?_, hends⟩
    rw [hp, Option.some.inj hhead]
    cases heater <;> rfl
  · rintro ⟨rest, hrest, hends⟩
    have hword : heater.waitCommand ++ rest = 77 :: (heater.waitCommand.drop 1 ++ rest) := by
      cases heater <;> rfl
    refine ⟨by rw [hrest, hword]; rfl, ?_⟩
    rw [hrest, hword, hdrop]
    exact hends

theorem skipSpaces_skipSpaces : skipSpaces (skipSpaces line) = skipSpaces line :=
  List.dropWhile_idempotent _ _

theorem commandStartsWith_iff :
    GcodeRewrite.commandStartsWith line heater.waitCommand ↔
      ∃ rest, skipSpaces line = heater.waitCommand ++ rest ∧ ∀ c ∈ rest.head?, isSpace c := by
  have hne : heater.waitCommand ≠ [] := by cases heater <;> decide
  have hskip : GcodeRewrite.commandStartsWith line heater.waitCommand =
      GcodeRewrite.commandStartsWith (skipSpaces line) heater.waitCommand := by
    rw [GcodeRewrite.commandStartsWith, GcodeRewrite.commandStartsWith, skipSpaces_skipSpaces]
  have hword : ∀ rest, GcodeRewrite.commandStartsWith (heater.waitCommand ++ rest) heater.waitCommand ↔
      ∀ c ∈ rest.head?, isSpace c := fun rest =>
    (GcodeStream.commandStartsWith_word waitCommand_word hne).trans (Option.all_eq_true ..)
  constructor
  · intro h
    have hstart := h
    rw [GcodeRewrite.commandStartsWith, Bool.and_eq_true] at hstart
    obtain ⟨rest, hr⟩ := List.isPrefixOf_iff_prefix.mp hstart.left
    rw [hskip, ← hr] at h
    exact ⟨rest, hr.symm, (hword rest).mp h⟩
  · rintro ⟨rest, hr, hends⟩
    rw [hskip, hr]
    exact (hword rest).mpr hends

theorem gcode_spelled (h : waitWord line = some heater) :
    GcodeRewrite.waitHeater line = some heater ↔ Spelled line fun c => isSpace c := by
  rw [GcodeRewrite.waitHeater_iff, spelled_iff h, commandStartsWith_iff]

theorem file_spelled (h : waitWord line = some heater) :
    GcodeRewrite.waitHeater (GcodeStream.commandOf (skipSpaces line)) = some heater ↔
      Spelled line fun c => isSpace c ∨ c = 59 := by
  have hne : heater.waitCommand ≠ [] := by cases heater <;> decide
  have hword : ∀ rest, GcodeRewrite.commandStartsWith
        (GcodeStream.commandOf (heater.waitCommand ++ rest)) heater.waitCommand ↔
      ∀ c ∈ rest.head?, isSpace c ∨ c = 59 := by
    intro rest
    rw [GcodeStream.commandOf_word waitCommand_word,
      GcodeStream.commandStartsWith_word waitCommand_word hne]
    exact GcodeStream.all_trimRight
  rw [GcodeRewrite.waitHeater_iff, spelled_iff h]
  constructor
  · intro hc
    obtain ⟨rest, hr⟩ := GcodeStream.startsWith_of_command hc
    rw [hr, hword] at hc
    exact ⟨rest, hr, hc⟩
  · rintro ⟨rest, hr, hends⟩
    rw [hr]
    exact (hword rest).mpr hends

-- A wait is a command, and not one that is dropped.
theorem expand_ne_nil (h : waitWord line = some heater) : GcodeStream.expand line ≠ [] := by
  obtain ⟨c, rest, hp⟩ := waitWord_eq h
  have hcomment : c ≠ 59 := by
    rintro rfl
    rw [waitWord, hp] at h
    contradiction
  have hempty : (GcodeStream.commandOf (skipSpaces line)).isEmpty = false := by
    rw [GcodeStream.commandOf_isEmpty, hp]
    simp [hcomment]
  have hsilent : ¬ GcodeRewrite.commandStartsWith (GcodeStream.commandOf (skipSpaces line)) "M117" := by
    intro hs
    obtain ⟨rest', hr⟩ := GcodeStream.startsWith_of_command hs
    have hcons := hp.symm.trans hr
    cases heater <;> simp [Heater.waitCommand, ofString] at hcons
  rw [GcodeStream.expand, hempty, if_neg Bool.false_ne_true, List.map_eq_nil_iff.ne,
    GcodeRewrite.line, if_neg hsilent]
  split
  · rename_i rewrite hw
    rw [GcodeRewrite.waitCommand] at hw
    split_ifs at hw
    all_goals
      injection hw with hw
      rw [← hw]
      exact List.cons_ne_nil _ _
  · split
    · rename_i rewrite hprime
      rw [GcodeRewrite.primeCommand] at hprime
      split_ifs at hprime
      all_goals
        injection hprime with hprime
        rw [← hprime]
        exact List.cons_ne_nil _ _
    · exact List.cons_ne_nil _ _

theorem replaces_iff {stream : GcodeStream} {buffer buffer' : LineBuffer}
    {reads : List (Option UInt8)} (ho : stream.isOpen) (hp : stream.pending = [])
    (hr : GcodeStream.readLine stream.reads buffer = (1, buffer', reads))
    (h : waitWord buffer'.text = some heater) :
    stream.Replaces buffer heater ↔ Spelled buffer'.text fun c => isSpace c ∨ c = 59 := by
  obtain ⟨command, rest, he⟩ := List.exists_cons_of_ne_nil (expand_ne_nil h)
  obtain ⟨stream', hs, ⟨-, -, hpending⟩, hbed, hnozzle, -⟩ :=
    @GcodeStream.nextLoop_emit stream.clearLast buffer buffer' reads stream.reads.length hr command
      rest he ho
  have hnext : stream.next buffer = (1, command, stream') :=
    (GcodeStream.next_of_pending_nil ⟨ho, rfl, hp⟩).trans hs
  have hcommands : command :: rest =
      (GcodeRewrite.line (GcodeStream.commandOf (skipSpaces buffer'.text))).commands.map
        (fit maxGcodeLine) := by
    rw [GcodeStream.expand] at he
    split_ifs at he
    exact he.symm
  rw [← file_spelled h, ← GcodeRewrite.replaced_iff, ← hbed, ← hnozzle, ← hcommands,
    GcodeStream.Replaces, hnext]
  constructor
  · rintro ⟨_, _, heq, hreplaced⟩
    obtain ⟨-, rfl, rfl⟩ := heq
    rwa [hpending] at hreplaced
  · intro hreplaced
    refine ⟨command, stream', rfl, ?_⟩
    rwa [hpending]

theorem rewriteEntries_commands {rewrite : GcodeRewrite} :
    (Service.rewriteEntries rewrite).map (·.command) = rewrite.commands.map (fit maxGcodeLine) := by
  rw [Service.rewriteEntries, List.map_map]
  calc rewrite.commands.zipIdx.map _
    _ = rewrite.commands.zipIdx.map (fit maxGcodeLine ∘ Prod.fst) := rfl
    _ = rewrite.commands.map (fit maxGcodeLine) := by rw [← List.map_map, List.zipIdx_map_fst]

-- Only the first entry of a line waits.
theorem rewriteEntries_waits {rewrite : GcodeRewrite} (h : rewrite.commands ≠ []) :
    (Service.rewriteEntries rewrite).any (·.waitBed) = rewrite.waitForBed ∧
      (Service.rewriteEntries rewrite).any (·.waitNozzle) = rewrite.waitForNozzle := by
  obtain ⟨command, rest, hc⟩ := List.exists_cons_of_ne_nil h
  simp only [Service.rewriteEntries, hc, List.zipIdx_cons, List.map_cons, List.any_cons,
    List.any_map, Nat.zero_add]
  exact ⟨by simp, by simp⟩

theorem entriesReplace_iff (h : waitWord line = some heater) :
    EntriesReplace (Service.rewriteEntries (.line line)) heater ↔
      Spelled line fun c => isSpace c := by
  rw [← gcode_spelled h, ← GcodeRewrite.replaced_iff, EntriesReplace, rewriteEntries_commands]
  by_cases hc : (GcodeRewrite.line line).commands = []
  · rw [hc]
    refine iff_of_false ?_ ?_
    · rintro ⟨⟨number, hset⟩, -, -⟩
      contradiction
    · rintro ⟨⟨number, hset⟩, -, -⟩
      contradiction
  · obtain ⟨hb, hn⟩ := rewriteEntries_waits hc
    rw [hb, hn]

end

-- A wait is replaced exactly if its letter is a capital and a blank, or in a file a comment, ends its
-- word. Any other spelling goes to the firmware as it is.
theorem wait_replaced_iff {heater : Heater} :
    (∀ (stream : GcodeStream) (buffer buffer' : LineBuffer) (reads : List (Option UInt8)),
        stream.isOpen → stream.pending = [] →
        GcodeStream.readLine stream.reads buffer = (1, buffer', reads) →
        waitWord buffer'.text = some heater →
        (stream.Replaces buffer heater ↔ Spelled buffer'.text fun c => isSpace c ∨ c = 59)) ∧
      (∀ line, waitWord line = some heater →
        (EntriesReplace (Service.rewriteEntries (.line line)) heater ↔
          Spelled line fun c => isSpace c)) :=
  ⟨fun _ _ _ _ ho hp hr h => replaces_iff ho hp hr h, fun _ h => entriesReplace_iff h⟩

-- A file with the line `M190 S60;bed`.
def bedFile : GcodeStream where
  isOpen := true
  reads  := (ofString "M190 S60;bed\n").map some

theorem wait_replaced_bed :
    bedFile.Replaces .blank .bed ∧
      EntriesReplace (Service.rewriteEntries (.line "  M109 T0 S200")) .nozzle := by
  refine ⟨(wait_replaced_iff.left bedFile .blank (GcodeStream.readLine bedFile.reads .blank).2.1
    (GcodeStream.readLine bedFile.reads .blank).2.2 rfl rfl (Prod.ext ?_ rfl) ?_).mpr ?_,
    (wait_replaced_iff.right "  M109 T0 S200" (by decide)).mpr ?_⟩
  · decide +kernel
  · decide +kernel
  · exact ⟨by decide +kernel, by decide +kernel⟩
  · exact ⟨by decide, fun c hc => Option.some.inj hc ▸ by decide⟩

-- Without a blank before its parameter, the wait itself is queued for the firmware.
theorem wait_not_replaced :
    waitWord "M109S200" = some .nozzle ∧
      (Service.rewriteEntries (.line "M109S200")).map (·.command) = [ofString "M109S200"] ∧
      ¬ EntriesReplace (Service.rewriteEntries (.line "M109S200")) .nozzle := by
  have hcommands : (Service.rewriteEntries (.line "M109S200")).map (·.command) =
      [ofString "M109S200"] := by decide +kernel
  refine ⟨by decide, hcommands, ?_⟩
  rintro ⟨⟨number, hset⟩, -, -⟩
  rw [hcommands] at hset
  simp [Heater.setCommand, ofString] at hset

end Deneb
