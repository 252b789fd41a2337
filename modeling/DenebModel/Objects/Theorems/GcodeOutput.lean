import DenebModel.Objects.ReadBuffer
import DenebModel.Objects.Theorems.GcodeStream

namespace Deneb.GcodeStream

open CString

-- What the calls return until one of them returns 0. Each call gets a buffer with contents of its own.
def outputs : Nat → (Nat → LineBuffer) → GcodeStream → Option (List CString)
  | 0, _, _               => none
  | calls + 1, buffers, stream =>
    let (rc, line, stream) := stream.next (buffers 0)
    if rc < 0 then none
    else if rc = 0 then some []
    else (outputs calls (fun i => buffers (i + 1)) stream).map (line :: ·)

-- The lines at the end of a file that have no commands.
def trailing : List (List UInt8) → List (List UInt8)
  | []            => []
  | line :: lines =>
    if ∀ l ∈ line :: lines, expand (lineText l) = [] then line :: lines else trailing lines

theorem trailing_silent {lines : List (List UInt8)}
    (h : ∀ line ∈ lines, expand (lineText line) = []) : trailing lines = lines := by
  cases lines
  case nil  => rfl
  case cons => rw [trailing, if_pos h]

theorem trailing_append {front lines : List (List UInt8)} {line : List UInt8}
    (h : expand (lineText line) ≠ []) : trailing (front ++ line :: lines) = trailing lines := by
  induction front
  case nil =>
    rw [List.nil_append, trailing, if_neg]
    exact fun hall => h (hall line List.mem_cons_self)
  case cons l front hi =>
    rw [List.cons_append, trailing, if_neg, hi]
    exact fun hall => h (hall line (.tail _ (List.mem_append_right _ List.mem_cons_self)))

theorem exists_first {lines : List (List UInt8)}
    (h : ¬ ∀ line ∈ lines, expand (lineText line) = []) :
    ∃ front line back, lines = front ++ line :: back ∧
      (∀ l ∈ front, expand (lineText l) = []) ∧ expand (lineText line) ≠ [] := by
  induction lines
  case nil => simp at h
  case cons line lines hi =>
    by_cases hl : expand (lineText line) = []
    · have hrest : ¬ ∀ l ∈ lines, expand (lineText l) = [] := fun hall =>
        h (List.forall_mem_cons.mpr ⟨hl, hall⟩)
      obtain ⟨front, line', back, rfl, hf, hne⟩ := hi hrest
      exact ⟨line :: front, line', back, rfl, List.forall_mem_cons.mpr ⟨hl, hf⟩, hne⟩
    · exact ⟨[], line, lines, rfl, by simp, hl⟩

-- Every command of a line fits its array.
theorem fit_of_mem_expand {text command : CString} (h : command ∈ expand text) :
    fit maxGcodeLine command = command := by
  rw [expand] at h
  split_ifs at h
  · contradiction
  · obtain ⟨c, -, rfl⟩ := List.mem_map.mp h
    rw [fit, fit, List.take_take, Nat.min_self]

theorem fit_of_mem_lastCommands {buffer : LineBuffer} {last : List UInt8} {command : CString}
    (h : command ∈ lastCommands buffer last) : fit maxGcodeLine command = command := by
  rw [lastCommands] at h
  split_ifs at h
  · contradiction
  · exact fit_of_mem_expand h

section

variable {stream : GcodeStream} {reads : List (Option UInt8)} {pending : List CString}
variable {buffers : Nat → LineBuffer}

theorem next_of_pending_nil {buffer : LineBuffer} (h : stream.At reads []) :
    stream.next buffer = nextLoop (reads.length + 1) stream.clearLast buffer := by
  obtain ⟨ho, hr, hp⟩ := h
  simp [next, ho, clearLast, hp, hr]

theorem outputs_of_zero {line : CString} {stream' : GcodeStream}
    (h : stream.next (buffers 0) = (0, line, stream')) : outputs 1 buffers stream = some [] := by
  rw [outputs, h]
  rfl

theorem outputs_of_one {calls : Nat} {line : CString} {stream' : GcodeStream}
    (h : stream.next (buffers 0) = (1, line, stream')) :
    outputs (calls + 1) buffers stream =
      (outputs calls (fun i => buffers (i + 1)) stream').map (line :: ·) := by
  rw [outputs, h]
  rfl

-- A stream yields these commands, which may depend on what one of the buffers held.
def Yields (stream : GcodeStream) (buffers : Nat → LineBuffer) (out : LineBuffer → List CString) :
    Prop :=
  ∃ calls k, outputs calls buffers stream = some (out (buffers k))

theorem Yields.cons {line : CString} {stream' : GcodeStream} {out : LineBuffer → List CString}
    (h : stream.next (buffers 0) = (1, line, stream'))
    (hy : stream'.Yields (fun i => buffers (i + 1)) out) :
    stream.Yields buffers fun b => line :: out b := by
  obtain ⟨calls, k, hc⟩ := hy
  exact ⟨calls + 1, k + 1, by rw [outputs_of_one h, hc]; rfl⟩

-- The commands that are left of a line come before the next line is read.
theorem yields_pending {out : LineBuffer → List CString} (h : stream.At reads pending)
    (hfit : ∀ p ∈ pending, fit maxGcodeLine p = p)
    (hy : ∀ stream' buffers, stream'.At reads [] → Yields stream' buffers out) :
    stream.Yields buffers fun b => pending ++ out b := by
  induction pending generalizing stream buffers
  case nil => exact hy stream buffers h
  case cons p pending hi =>
    obtain ⟨ho, hr, hp⟩ := h
    have hnext : stream.next (buffers 0) = (1, p, { stream.clearLast with pending := pending }) := by
      simp [next, ho, clearLast, hp, hfit p List.mem_cons_self]
    exact Yields.cons hnext (hi ⟨ho, hr, rfl⟩ fun q hq => hfit q (.tail _ hq))

variable {lines : List (List UInt8)} {last : List UInt8}

theorem yields_nothing (h : stream.At [] []) : stream.Yields buffers fun _ => [] := by
  have hn := @next_of_pending_nil _ _ (buffers 0) h
  have hr : (readLine stream.clearLast.reads (buffers 0)).1 ≤ 0 := by
    rw [show stream.clearLast.reads = [] from h.right.left]
    exact Int.le_refl 0
  obtain ⟨s, hs, -⟩ := @nextLoop_end stream.clearLast (buffers 0) 0 hr h.left
  exact ⟨1, 0, outputs_of_zero (hn.trans hs)⟩

theorem length_bytesOf : lines.length + last.length ≤ (bytesOf lines last).length := by
  induction lines
  case nil => simp [bytesOf]
  case cons line lines hi =>
    have hc : bytesOf (line :: lines) last = line ++ 10 :: bytesOf lines last := by
      simp [bytesOf]
    rw [hc]
    simp only [List.length_cons, List.length_append]
    omega

theorem flatMap_silent (h : ∀ line ∈ lines, expand (lineText line) = []) :
    lines.flatMap (fun line => expand (lineText line)) = [] :=
  List.flatMap_eq_nil_iff.mpr h

-- A file yields the commands of its lines, and at the end those of the text that is then in the buffer.
theorem yields_lines (hfit : ∀ line ∈ lines, Fits line) (hlast : Fits last)
    (h : stream.At ((bytesOf lines last).map some) []) :
    stream.Yields buffers fun b => lines.flatMap (fun line => expand (lineText line)) ++
      lastCommands (leave b (trailing lines)) last := by
  induction hn : lines.length using Nat.strongRecOn generalizing lines stream buffers
  case ind n hi =>
    have hnext := @next_of_pending_nil _ _ (buffers 0) h
    have hlen := @length_bytesOf lines last
    rw [List.length_map] at hnext
    by_cases hsilent : ∀ line ∈ lines, expand (lineText line) = []
    · obtain ⟨rounds, hrounds⟩ : ∃ r, (bytesOf lines last).length + 1 = r + lines.length :=
        ⟨(bytesOf lines last).length + 1 - lines.length, by omega⟩
      have hreads : stream.clearLast.reads = (bytesOf (lines ++ []) last).map some := by
        rw [List.append_nil]
        exact h.right.left
      obtain ⟨s₁, h₁, ho₁, hr₁, hp₁⟩ :=
        @nextLoop_leave stream.clearLast lines last rounds hfit (buffers 0) [] h.left hreads hsilent
      have h₂ := @nextLoop_last s₁ last rounds hlast (leave (buffers 0) lines) ho₁ hr₁ (by omega)
      rw [hrounds, h₁] at hnext
      rw [flatMap_silent hsilent, trailing_silent hsilent]
      rcases hc : lastCommands (leave (buffers 0) lines) last with _ | ⟨command, rest⟩
      · rw [hc] at h₂
        obtain ⟨s₂, h₂⟩ := h₂
        refine ⟨1, 0, ?_⟩
        rw [outputs_of_zero (hnext.trans h₂)]
        dsimp only
        rw [hc]
        rfl
      · rw [hc] at h₂
        obtain ⟨s₂, h₂, hat⟩ := h₂
        have hrest : ∀ p ∈ rest, fit maxGcodeLine p = p := fun p hp =>
          fit_of_mem_lastCommands (hc ▸ List.mem_cons_of_mem _ hp)
        obtain ⟨calls, k, hk⟩ := Yields.cons (hnext.trans h₂)
          (yields_pending hat hrest fun _ _ hs => yields_nothing hs)
        refine ⟨calls, 0, ?_⟩
        rw [hk]
        dsimp only
        rw [hc, List.append_nil]
        rfl
    · obtain ⟨front, line, back, rfl, hfront, hne⟩ := exists_first hsilent
      obtain ⟨command, rest, hc⟩ := List.exists_cons_of_ne_nil hne
      rw [List.length_append, List.length_cons] at hlen
      obtain ⟨rounds, hrounds⟩ :
          ∃ r, (bytesOf (front ++ line :: back) last).length + 1 = r + 1 + front.length :=
        ⟨(bytesOf (front ++ line :: back) last).length - front.length, by omega⟩
      obtain ⟨s₁, h₁, ho₁, hr₁, hp₁⟩ :=
        @nextLoop_leave stream.clearLast front last (rounds + 1)
          (fun l hl => hfit l (List.mem_append_left _ hl)) (buffers 0) (line :: back) h.left
          h.right.left hfront
      obtain ⟨s₂, h₂, hat⟩ := @nextLoop_line s₁ back last rounds line (leave (buffers 0) front) command
        rest (hfit line (List.mem_append_right _ List.mem_cons_self)) ho₁ hr₁ hc
      rw [hrounds, h₁, h₂] at hnext
      have hrest : ∀ p ∈ rest, fit maxGcodeLine p = p := fun p hp =>
        fit_of_mem_expand (hc ▸ List.mem_cons_of_mem _ hp)
      have hback : back.length < n := by
        rw [← hn, List.length_append, List.length_cons]
        omega
      have hy := Yields.cons hnext <| yields_pending hat hrest fun s buffers hs =>
        hi back.length hback (fun l hl => hfit l (List.mem_append_right _ (.tail _ hl))) hs rfl
      obtain ⟨calls, k, hk⟩ := hy
      refine ⟨calls, k, ?_⟩
      rw [hk, trailing_append hne, List.flatMap_append, flatMap_silent hfront, List.flatMap_cons, hc]
      simp

end

-- The lines of a file with their ends, and what follows the last end.
def splitLines : List UInt8 → List (List UInt8) × List UInt8
  | []      => ([], [])
  | c :: cs =>
    if c = 10 then ([] :: (splitLines cs).1, (splitLines cs).2)
    else
      match splitLines cs with
      | ([], last)            => ([], c :: last)
      | (line :: lines, last) => ((c :: line) :: lines, last)

theorem bytesOf_splitLines {content : List UInt8} :
    bytesOf (splitLines content).1 (splitLines content).2 = content := by
  induction content
  case nil => rfl
  case cons c content hi =>
    rw [splitLines]
    split_ifs with hc
    · rw [hc]
      conv_rhs => rw [← hi]
      simp [bytesOf]
    · rcases hs : splitLines content with ⟨_ | ⟨line, lines⟩, last⟩
      all_goals
        rw [hs] at hi
        rw [← hi]
        simp [bytesOf]

-- The lines of a file fit the line buffer, and their texts are C strings.
structure FitLines (content : List UInt8) : Prop where
  lines : ∀ line ∈ (splitLines content).1, line.length < maxGcodeLine
  last  : (splitLines content).2.length < maxGcodeLine

structure IsText (content : List UInt8) : Prop extends FitLines content where
  no_zero : 0 ∉ content

theorem no_end_splitLines {content : List UInt8} :
    (∀ line ∈ (splitLines content).1, 10 ∉ line) ∧ 10 ∉ (splitLines content).2 := by
  induction content
  case nil => simp [splitLines]
  case cons c content hi =>
    rw [splitLines]
    split_ifs with hc
    · exact ⟨List.forall_mem_cons.mpr ⟨by simp, hi.left⟩, hi.right⟩
    · rcases hs : splitLines content with ⟨_ | ⟨line, lines⟩, last⟩
      · rw [hs] at hi
        refine ⟨by simp, ?_⟩
        simp only [List.mem_cons, not_or]
        exact ⟨Ne.symm hc, hi.right⟩
      · rw [hs] at hi
        obtain ⟨hline, hlines⟩ := List.forall_mem_cons.mp hi.left
        refine ⟨List.forall_mem_cons.mpr ⟨?_, hlines⟩, hi.right⟩
        simp only [List.mem_cons, not_or]
        exact ⟨Ne.symm hc, hline⟩

section

variable {content : List UInt8}

theorem FitLines.fits (h : FitLines content) :
    (∀ line ∈ (splitLines content).1, Fits line) ∧ Fits (splitLines content).2 :=
  ⟨fun line hl => ⟨no_end_splitLines.left line hl, h.lines line hl⟩,
    no_end_splitLines.right, h.last⟩

theorem lineText_of_no_zero {line : List UInt8} (h : 0 ∉ line) : lineText line = plainLine line := by
  have hz : 0 ∉ plainLine line := fun hm => h (List.mem_filter.mp hm).left
  have ht := @LineBuffer.takeWhile_append_zero (plainLine line) [] hz
  rw [List.append_nil, List.takeWhile_nil, List.append_nil] at ht
  exact ht

theorem IsText.no_zero_lines (ht : IsText content) :
    (∀ line ∈ (splitLines content).1, 0 ∉ line) ∧ 0 ∉ (splitLines content).2 := by
  have hz := ht.no_zero
  rw [← @bytesOf_splitLines content, bytesOf, List.mem_append, not_or, List.mem_flatMap] at hz
  exact ⟨fun line hl hm => hz.left ⟨line, hl, List.mem_append_left _ hm⟩, hz.right⟩

-- The commands of a file: those of its lines without the carriage returns.
def fileCommands (content : List UInt8) : List CString :=
  (splitLines content).1.flatMap (fun line => expand (plainLine line)) ++
    expand (plainLine (splitLines content).2)

theorem IsText.flatMap_lines (ht : IsText content) :
    (splitLines content).1.flatMap (fun line => expand (lineText line)) =
      (splitLines content).1.flatMap fun line => expand (plainLine line) := by
  refine List.flatMap_congr fun line hl => ?_
  rw [lineText_of_no_zero (ht.no_zero_lines.left line hl)]

-- However the reads are cut and whatever the line buffers held, the calls yield the commands of the
-- file.
def Streams (results : List ReadResult) (content : List UInt8) : Prop :=
  ∀ buffers, ∃ calls,
    outputs calls buffers (.open { reads := ReadResult.bytes results, text := content }) =
      some (fileCommands content)

-- What the line buffer may hold behind the text at the end of the file adds nothing to its commands.
def Settled (content : List UInt8) : Prop :=
  ∀ buffer, lastCommands (leave buffer (trailing (splitLines content).1)) (splitLines content).2 =
    expand (plainLine (splitLines content).2)

theorem outputs_unique {calls calls' : Nat} {buffers : Nat → LineBuffer} {stream : GcodeStream}
    {out out' : List CString} (h : outputs calls buffers stream = some out)
    (h' : outputs calls' buffers stream = some out') : out = out' := by
  induction calls generalizing calls' buffers stream out out'
  case zero => contradiction
  case succ calls hi =>
    cases calls'
    case zero => contradiction
    case succ calls' =>
      rw [outputs] at h h'
      rcases hn : stream.next (buffers 0) with ⟨rc, line, stream'⟩
      rw [hn] at h h'
      dsimp only at h h'
      split_ifs at h h'
      · exact (Option.some.inj h).symm.trans (Option.some.inj h')
      · obtain ⟨o, ho, rfl⟩ := Option.map_eq_some_iff.mp h
        obtain ⟨o', ho', rfl⟩ := Option.map_eq_some_iff.mp h'
        rw [hi ho ho']

theorem streams_iff {results : List ReadResult} (ht : IsText content)
    (hr : ReadResult.bytes results = content.map some) : Streams results content ↔ Settled content := by
  obtain ⟨hfit, hlast⟩ := ht.toFitLines.fits
  have hlines := ht.flatMap_lines
  have hat : (GcodeStream.open { reads := ReadResult.bytes results, text := content }).At
      ((bytesOf (splitLines content).1 (splitLines content).2).map some) [] :=
    ⟨rfl, by rw [bytesOf_splitLines]; exact hr, rfl⟩
  constructor
  · intro hs buffer
    obtain ⟨calls, hc⟩ := hs fun _ => buffer
    obtain ⟨calls', k, hk⟩ := @yields_lines _ (fun _ => buffer) _ _ hfit hlast hat
    rw [hlines] at hk
    exact List.append_cancel_left (outputs_unique hk hc)
  · intro hs buffers
    obtain ⟨calls, k, hk⟩ := @yields_lines _ buffers _ _ hfit hlast hat
    dsimp only at hk
    rw [hs (buffers k), hlines] at hk
    exact ⟨calls, hk⟩

-- A file with an end behind its last line.
theorem settled_of_end (h : plainLine (splitLines content).2 = []) : Settled content := by
  intro buffer
  rw [lastCommands, h]
  rfl

theorem takeWhile_comment {line rest : CString} (h : 59 ∉ line) :
    (line ++ 59 :: rest).takeWhile (· ≠ 59) = line := by
  rw [List.takeWhile_append_of_pos]
  · simp
  · intro c hc
    rw [decide_eq_true_eq]
    rintro rfl
    exact h hc

theorem commandOf_comment {line rest : CString} (h : 59 ∉ line) :
    commandOf (skipSpaces (line ++ 59 :: rest)) = trimRight (skipSpaces line) := by
  induction line
  case nil => rfl
  case cons c line hi =>
    have hline : 59 ∉ line := fun hm => h (.tail _ hm)
    rw [List.cons_append, skipSpaces, skipSpaces, List.dropWhile_cons, List.dropWhile_cons]
    by_cases hc : isSpace c
    · rw [if_pos hc, if_pos hc]
      exact hi hline
    · rw [if_neg hc, if_neg hc, commandOf, ← List.cons_append, takeWhile_comment h]

-- A comment at the end of a file takes in whatever the buffer holds behind it.
theorem settled_of_comment (ht : IsText content) (h : 59 ∈ (splitLines content).2) :
    Settled content := by
  intro buffer
  have hl := ht.toFitLines.fits.right
  have hz : 0 ∉ plainLine (splitLines content).2 := fun hm =>
    ht.no_zero_lines.right (List.mem_filter.mp hm).left
  have hm : 59 ∈ plainLine (splitLines content).2 := List.mem_filter.mpr ⟨h, by decide⟩
  obtain ⟨front, back, hline, hfront⟩ := List.eq_append_cons_of_mem hm
  rw [lastCommands, LineBuffer.write_text hz hl.plainLine_length, hline, if_neg (by simp),
    List.append_assoc, List.cons_append, expand, expand, commandOf_comment hfront,
    commandOf_comment hfront]

end

-- A file that ends with its last line.
theorem streams_home : ReadResult.bytes [.data (ofString "G28\n")] = (ofString "G28\n").map some ∧
    (Streams [.data (ofString "G28\n")] (ofString "G28\n") ↔ Settled (ofString "G28\n")) :=
  ⟨by decide, streams_iff ⟨⟨by decide, by decide⟩, by decide⟩ (by decide)⟩

-- The bytes of a file without an end behind its last line, which is shorter than the one before it.
def openEnded : List UInt8 :=
  ofString "G1 X100 Y100\nM84"

-- The line buffer is the same in every call, and holds the first command when the second line is read.
def reused : Nat → LineBuffer
  | 0     => .blank
  | _ + 1 => LineBuffer.blank.put "G1 X100 Y100"

theorem not_streams_openEnded :
    outputs 3 reused (.open { reads := ReadResult.bytes [.data openEnded], text := openEnded }) =
        some [ofString "G1 X100 Y100", "M84X100 Y100"] ∧
      fileCommands openEnded = [ofString "G1 X100 Y100", "M84"] ∧
      ¬ Streams [.data openEnded] openEnded := by
  have ho : outputs 3 reused (.open { reads := ReadResult.bytes [.data openEnded], text := openEnded }) =
      some [ofString "G1 X100 Y100", "M84X100 Y100"] := by
    decide +kernel
  have hc : fileCommands openEnded = [ofString "G1 X100 Y100", "M84"] := by
    decide +kernel
  refine ⟨ho, hc, fun hs => ?_⟩
  obtain ⟨calls, h⟩ := hs reused
  have hu := outputs_unique ho h
  rw [hc] at hu
  revert hu
  decide

end Deneb.GcodeStream
