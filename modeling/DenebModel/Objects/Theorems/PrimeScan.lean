import Mathlib.Data.List.Forall2
import DenebModel.Objects.Theorems.GcodeOutput

-- Two scanners look for a prime command: one when a file is opened, and the stream itself.
namespace Deneb.GcodeStream

open CString

-- What follows the word at the front of a text: the end of it or a byte.
def afterPrime (text : CString) : Option (Option UInt8) :=
  if startsWith (skipSpaces text) "G280" then some ((skipSpaces text).drop 4).head? else none

-- The word is followed by the end of the text or by a blank.
def Detected (text : CString) : Prop :=
  ∃ next ∈ afterPrime text, ∀ c ∈ next, isSpace c

-- The same, or a comment follows it.
def Expanded (text : CString) : Prop :=
  ∃ next ∈ afterPrime text, ∀ c ∈ next, isSpace c ∨ c = 59

-- The stream replaces the line by the commands that prime.
def ExpandsPrime (text : CString) : Prop :=
  ∃ rewrite, GcodeRewrite.primeCommand (commandOf (skipSpaces text)) = some rewrite ∧
    expand text = rewrite.commands.map (fit maxGcodeLine)

def isComment (text : CString) : Bool :=
  (skipSpaces text).head? = some 59

-- A line as `fgets` reads it, without its end, and as the stream reads it.
structure Line where
  raw  : CString
  text : CString
  deriving DecidableEq

def lastText (buffer : LineBuffer) (last : List UInt8) : CString :=
  if (plainLine last).isEmpty then [] else (buffer.write 0 (plainLine last)).text

def lastLine (buffer : LineBuffer) (last : List UInt8) : List Line :=
  if last.isEmpty then [] else [⟨last.takeWhile (· ≠ 0), lastText buffer last⟩]

-- The lines of a file, when the line buffer holds this in the call that reads the last one.
def fileLines (content : List UInt8) (buffer : LineBuffer) : List Line :=
  (splitLines content).1.map (fun line => ⟨line.takeWhile (· ≠ 0), lineText line⟩) ++
    lastLine (leave buffer (trailing (splitLines content).1)) (splitLines content).2

-- The first 51 lines that are not comments.
def primeRange (content : List UInt8) (buffer : LineBuffer) : List Line :=
  ((fileLines content buffer).filter fun line => !isComment line.raw).take 51

-- The stream primes, but the word is not found when the file is opened; and the other way round.
def Missed (line : Line) : Prop :=
  Expanded line.text ∧ ¬ Detected line.raw

def Mistaken (line : Line) : Prop :=
  Detected line.raw ∧ ¬ Expanded line.text

-- No line makes a difference, such as one with a comment directly behind the word or a carriage return
-- inside of it; or another one makes up for it.
def ScannersAgree (content : List UInt8) (buffer : LineBuffer) : Prop :=
  (∃ line ∈ primeRange content buffer, Detected line.raw ∧ Expanded line.text) ∨
    ((∃ line ∈ primeRange content buffer, Missed line) ↔
      ∃ line ∈ primeRange content buffer, Mistaken line)

-- The lines of a file fit the buffer of `fgets` together with their ends.
structure FitFgets (content : List UInt8) : Prop where
  lines : ∀ line ∈ (splitLines content).1, line.length + 1 < maxGcodeLine
  last  : (splitLines content).2.length < maxGcodeLine

theorem fgetsLines_append {line rest read : List UInt8} (hn : 10 ∉ line)
    (hl : read.length + line.length + 1 < maxGcodeLine) :
    fgetsLines (line ++ 10 :: rest) read =
      (read ++ line ++ [10]).takeWhile (· ≠ 0) :: fgetsLines rest [] := by
  induction line generalizing read
  case nil => simp [fgetsLines]
  case cons c line hi =>
    simp only [List.mem_cons, not_or] at hn
    rw [List.length_cons] at hl
    rw [List.cons_append, fgetsLines, if_neg, hi hn.right]
    · simp
    · simp only [List.length_append, List.length_singleton]
      omega
    · rw [not_or]
      refine ⟨Ne.symm hn.left, ?_⟩
      simp only [List.length_append, List.length_singleton]
      omega

theorem fgetsLines_last {line read : List UInt8} (hn : 10 ∉ line)
    (hl : read.length + line.length < maxGcodeLine) :
    fgetsLines line read =
      if (read ++ line).isEmpty then [] else [(read ++ line).takeWhile (· ≠ 0)] := by
  induction line generalizing read
  case nil => simp [fgetsLines]
  case cons c line hi =>
    simp only [List.mem_cons, not_or] at hn
    rw [List.length_cons] at hl
    have hsplit : read ++ c :: line = read ++ [c] ++ line := by simp
    have hlen : (read ++ [c]).length = read.length + 1 := by simp
    rw [fgetsLines, hsplit]
    by_cases hfull : (read ++ [c]).length = maxGcodeLine - 1
    · -- The buffer is full with the last byte of the file.
      have hnil : line = [] := List.eq_nil_of_length_eq_zero (by omega)
      rw [if_pos (.inr hfull), hnil]
      simp [fgetsLines]
    · rw [if_neg (not_or.mpr ⟨Ne.symm hn.left, hfull⟩), hi hn.right (by omega)]

-- What `fgets` makes of a file.
theorem fgetsLines_bytesOf {lines : List (List UInt8)} {last : List UInt8}
    (hlines : ∀ line ∈ lines, 10 ∉ line ∧ line.length + 1 < maxGcodeLine) (hn : 10 ∉ last)
    (hl : last.length < maxGcodeLine) :
    fgetsLines (bytesOf lines last) [] =
      lines.map (fun line => (line ++ [10]).takeWhile (· ≠ 0)) ++
        if last.isEmpty then [] else [last.takeWhile (· ≠ 0)] := by
  induction lines
  case nil =>
    have h := @fgetsLines_last last [] hn (by simpa using hl)
    simpa [bytesOf] using h
  case cons line lines hi =>
    obtain ⟨⟨hline, hlt⟩, hrest⟩ := List.forall_mem_cons.mp hlines
    have hb : bytesOf (line :: lines) last = line ++ 10 :: bytesOf lines last := by
      simp [bytesOf]
    rw [hb, fgetsLines_append hline (by simpa using hlt), hi hrest]
    rfl

theorem detected_iff {text : CString} :
    Detected text ↔ (startsWith (skipSpaces text) "G280" &&
      ((skipSpaces text).drop 4).head?.all isSpace) := by
  simp only [Detected, afterPrime]
  split_ifs with h
  · cases ((skipSpaces text).drop 4).head? <;> simp [h]
  · simp [h]

instance (text : CString) : Decidable (Detected text) :=
  decidable_of_iff _ detected_iff.symm

theorem primeLoop_iff {lines : List CString} {nr : Nat} :
    primeLoop lines nr ↔
      ∃ line ∈ (lines.filter fun line => !isComment line).take (51 - nr), Detected line := by
  induction lines generalizing nr
  case nil => simp [primeLoop]
  case cons line lines hi =>
    rw [primeLoop]
    by_cases hnr : 50 < nr
    · have : 51 - nr = 0 := by omega
      simp [hnr, this]
    rw [if_neg hnr]
    dsimp only
    by_cases hcomment : (skipSpaces line).head? = some 59
    · rw [if_pos hcomment, List.filter_cons_of_neg (by simp [isComment, hcomment]), hi]
    rw [if_neg hcomment, List.filter_cons_of_pos (by simp [isComment, hcomment])]
    obtain ⟨k, hk⟩ : ∃ k, 51 - nr = k + 1 := ⟨50 - nr, by omega⟩
    have hk' : 51 - (nr + 1) = k := by omega
    rw [hk, List.take_succ_cons, List.exists_mem_cons_iff, detected_iff, ← hk', ← hi]
    by_cases hprime : startsWith (skipSpaces line) "G280" &&
        ((skipSpaces line).drop 4).head?.all isSpace
    · rw [if_pos hprime]
      exact iff_of_true rfl (.inl hprime)
    · rw [if_neg hprime, or_iff_right hprime]

-- The end of a line is a blank, which changes nothing for the scanner.
theorem skipSpaces_end {text : CString} :
    skipSpaces (text ++ [10]) =
      if (skipSpaces text).isEmpty then [] else skipSpaces text ++ [10] := by
  rw [skipSpaces, List.dropWhile_append]
  rfl

theorem detected_end {text : CString} : Detected (text ++ [10]) ↔ Detected text := by
  rw [detected_iff, detected_iff, skipSpaces_end]
  cases hp : skipSpaces text
  case nil => rfl
  case cons c p =>
    rw [if_neg (by simp), ← hp]
    have hstart : startsWith (skipSpaces text ++ [10]) "G280" ↔ startsWith (skipSpaces text) "G280" := by
      simp only [startsWith, List.isPrefixOf_iff_prefix, List.prefix_concat_iff, or_iff_right_iff_imp]
      intro he
      have hm : (10 : UInt8) ∈ ofString "G280" := he ▸ List.mem_append_right _ List.mem_cons_self
      exact absurd hm (by decide)
    simp only [Bool.and_eq_true, hstart]
    refine and_congr_right fun h => ?_
    obtain ⟨rest, hrest⟩ := List.isPrefixOf_iff_prefix.mp h
    rw [← hrest, List.append_assoc]
    cases rest
    case nil  => decide
    case cons => rfl

theorem isComment_end {text : CString} : isComment (text ++ [10]) = isComment text := by
  rw [isComment, isComment, skipSpaces_end]
  cases skipSpaces text <;> rfl

theorem takeWhile_end {line : List UInt8} :
    (line ++ [10]).takeWhile (· ≠ 0) = line.takeWhile (· ≠ 0) ∨
      (line ++ [10]).takeWhile (· ≠ 0) = line.takeWhile (· ≠ 0) ++ [10] := by
  rw [List.takeWhile_append]
  split_ifs with h
  · rw [(List.takeWhile_prefix _).eq_of_length h]
    exact .inr rfl
  · exact .inl rfl

-- The same lines without their ends.
theorem exists_detected_congr {lines : List CString} {lines' : List Line}
    (h : List.Forall₂ (fun a b => isComment a = isComment b.raw ∧ (Detected a ↔ Detected b.raw))
      lines lines') {n : Nat} :
    (∃ line ∈ (lines.filter fun line => !isComment line).take n, Detected line) ↔
      ∃ line ∈ (lines'.filter fun line => !isComment line.raw).take n, Detected line.raw := by
  induction h generalizing n
  case nil => simp
  case cons a b lines lines' hab _ hi =>
    cases hc : isComment a
    case true =>
      rw [List.filter_cons_of_neg (by simp [hc]), List.filter_cons_of_neg (by simp [← hab.left, hc])]
      exact hi
    case false =>
      rw [List.filter_cons_of_pos (by simp [hc]), List.filter_cons_of_pos (by simp [← hab.left, hc])]
      cases n
      case zero => simp
      case succ n =>
        rw [List.take_succ_cons, List.take_succ_cons, List.exists_mem_cons_iff,
          List.exists_mem_cons_iff, hab.right, hi]

-- Opening a file looks at the lines of its range.
theorem hasFilePrimeCommand_iff {content : List UInt8} {reads : List (Option UInt8)}
    {buffer : LineBuffer} (h : FitFgets content) :
    hasFilePrimeCommand { reads := reads, text := content } ↔
      ∃ line ∈ primeRange content buffer, Detected line.raw := by
  have hlines := @fgetsLines_bytesOf (splitLines content).1 (splitLines content).2
    (fun line hl => ⟨no_end_splitLines.left line hl, h.lines line hl⟩) no_end_splitLines.right h.last
  rw [bytesOf_splitLines] at hlines
  rw [hasFilePrimeCommand, primeLoop_iff, hlines, primeRange, fileLines, lastLine]
  refine exists_detected_congr (List.rel_append ?_ ?_)
  · rw [List.forall₂_map_left_iff, List.forall₂_map_right_iff, List.forall₂_same]
    intro line _
    rcases @takeWhile_end line with he | he
    · rw [he]
      exact ⟨rfl, Iff.rfl⟩
    · rw [he]
      exact ⟨isComment_end, detected_end⟩
  · split_ifs
    · exact .nil
    · exact .cons ⟨rfl, Iff.rfl⟩ .nil

section

variable {text : CString}

theorem prime_word : ∀ c ∈ ofString "G280", isSpace c = false ∧ c ≠ 59 := by decide

theorem expanded_iff :
    GcodeRewrite.commandStartsWith (commandOf (skipSpaces text)) "G280" ↔ Expanded text := by
  constructor
  · intro h
    obtain ⟨rest, hr⟩ := startsWith_of_command h
    rw [hr, commandOf_word prime_word, commandStartsWith_word prime_word (by decide),
      all_trimRight] at h
    refine ⟨rest.head?, ?_, h⟩
    have hs : startsWith (ofString "G280" ++ rest) "G280" :=
      List.isPrefixOf_iff_prefix.mpr ⟨rest, rfl⟩
    rw [afterPrime, hr, if_pos hs]
    rfl
  · rintro ⟨next, hn, hall⟩
    rw [afterPrime] at hn
    split_ifs at hn with hs
    · obtain ⟨rest, hr⟩ := List.isPrefixOf_iff_prefix.mp hs
      rw [← hr, commandOf_word prime_word, commandStartsWith_word prime_word (by decide),
        all_trimRight]
      rw [← hr] at hn
      have hnext : rest.head? = next := Option.some.inj hn
      rw [hnext]
      exact hall
    · contradiction

theorem expandsPrime_iff : ExpandsPrime text ↔ Expanded text := by
  rw [← expanded_iff]
  constructor
  · rintro ⟨rewrite, hr, -⟩
    by_contra hno
    rw [GcodeRewrite.primeCommand, (Bool.not_eq_true _).mp hno] at hr
    contradiction
  · intro h
    obtain ⟨rest, hr⟩ := startsWith_of_command h
    have hc : commandOf (skipSpaces text) = 71 :: (ofString "280" ++ trimRight (rest.takeWhile (· ≠ 59))) := by
      rw [hr, commandOf_word prime_word]
      rfl
    have hother : ∀ mark : CString, mark.head? = some 77 →
        GcodeRewrite.commandStartsWith (commandOf (skipSpaces text)) mark = false := by
      intro mark hm
      obtain ⟨mark, rfl⟩ : ∃ m, mark = 77 :: m := by
        cases mark
        case nil  => contradiction
        case cons c m => exact ⟨m, by injection hm with hm; rw [hm]⟩
      rw [hc]
      rfl
    have hsome : ∃ rewrite,
        GcodeRewrite.primeCommand (commandOf (skipSpaces text)) = some rewrite := by
      rw [GcodeRewrite.primeCommand, h, Bool.not_true, if_neg (by decide)]
      split_ifs
      · exact ⟨_, rfl⟩
      · exact ⟨_, rfl⟩
    obtain ⟨rewrite, hrw⟩ := hsome
    refine ⟨rewrite, hrw, ?_⟩
    have hne : (commandOf (skipSpaces text)).isEmpty = false := by
      rw [hc]
      rfl
    have hwait : GcodeRewrite.waitCommand (commandOf (skipSpaces text)) = none := by
      rw [GcodeRewrite.waitCommand, hother _ rfl, hother _ rfl]
      rfl
    rw [expand, hne, if_neg (by decide), GcodeRewrite.line, hother _ rfl, if_neg (by decide), hwait, hrw]

end

-- The file primes by itself in its range exactly when that was found when it was opened.
def PrimeAgrees (content : List UInt8) (reads : List (Option UInt8)) (buffer : LineBuffer) : Prop :=
  hasFilePrimeCommand { reads := reads, text := content } ↔
    ∃ line ∈ primeRange content buffer, ExpandsPrime line.text

theorem prime_agrees_iff {content : List UInt8} {reads : List (Option UInt8)} {buffer : LineBuffer}
    (h : FitFgets content) : PrimeAgrees content reads buffer ↔ ScannersAgree content buffer := by
  rw [PrimeAgrees, @hasFilePrimeCommand_iff content reads buffer h, ScannersAgree]
  simp only [expandsPrime_iff, Missed, Mistaken]
  generalize primeRange content buffer = lines
  constructor
  · intro hiff
    refine or_iff_not_imp_left.mpr fun hno => ⟨?_, ?_⟩
    · rintro ⟨line, hl, he, -⟩
      obtain ⟨line', hl', hd⟩ := hiff.mpr ⟨line, hl, he⟩
      exact ⟨line', hl', hd, fun he' => hno ⟨line', hl', hd, he'⟩⟩
    · rintro ⟨line, hl, hd, -⟩
      obtain ⟨line', hl', he⟩ := hiff.mp ⟨line, hl, hd⟩
      exact ⟨line', hl', he, fun hd' => hno ⟨line', hl', hd', he⟩⟩
  · rintro (⟨line, hl, hd, he⟩ | hiff)
    · exact ⟨fun _ => ⟨line, hl, he⟩, fun _ => ⟨line, hl, hd⟩⟩
    · constructor
      · rintro ⟨line, hl, hd⟩
        by_cases he : Expanded line.text
        · exact ⟨line, hl, he⟩
        · obtain ⟨line', hl', he', -⟩ := hiff.mpr ⟨line, hl, hd, he⟩
          exact ⟨line', hl', he'⟩
      · rintro ⟨line, hl, he⟩
        by_cases hd : Detected line.raw
        · exact ⟨line, hl, hd⟩
        · obtain ⟨line', hl', hd', -⟩ := hiff.mp ⟨line, hl, he, hd⟩
          exact ⟨line', hl', hd'⟩

-- A run yields the commands of exactly these texts.
theorem yields_fileLines {stream : GcodeStream} {content : List UInt8} {buffers : Nat → LineBuffer}
    (hf : FitLines content) (h : stream.At (content.map some) []) :
    stream.Yields buffers fun b => (fileLines content b).flatMap fun line => expand line.text := by
  obtain ⟨hlines, hlast⟩ := hf.fits
  rw [← @bytesOf_splitLines content] at h
  obtain ⟨calls, k, hk⟩ := @yields_lines _ buffers _ _ hlines hlast h
  refine ⟨calls, k, ?_⟩
  rw [hk]
  dsimp only
  rw [fileLines, List.flatMap_append, List.flatMap_map]
  congr 2
  rw [lastCommands, lastLine, lastText]
  cases (splitLines content).2
  case nil => rfl
  case cons c last =>
    have hne : (c :: last).isEmpty = false := rfl
    rw [hne, if_neg Bool.false_ne_true, List.flatMap_singleton]
    split_ifs <;> rfl

theorem prime_agrees_plain :
    FitFgets (ofString "G28\nG280 S1\n") ∧
      (PrimeAgrees (ofString "G28\nG280 S1\n") [] .blank ↔
        ScannersAgree (ofString "G28\nG280 S1\n") .blank) :=
  have h : FitFgets (ofString "G28\nG280 S1\n") := ⟨by decide, by decide⟩
  ⟨h, prime_agrees_iff h⟩

-- A comment directly behind the word: the file primes, and the startup primes once more.
theorem prime_comment_not_agrees :
    hasFilePrimeCommand { reads := [], text := ofString "G280;prime\n" } = false ∧
      ¬ PrimeAgrees (ofString "G280;prime\n") [] .blank := by
  have hno : hasFilePrimeCommand { reads := [], text := ofString "G280;prime\n" } = false := by
    decide
  refine ⟨hno, fun h => ?_⟩
  have hmem : (⟨ofString "G280;prime", ofString "G280;prime"⟩ : Line) ∈
      primeRange (ofString "G280;prime\n") .blank := by
    decide +kernel
  have he : Expanded "G280;prime" := ⟨some 59, by decide, fun c hc => .inr (Option.some.inj hc).symm⟩
  rw [PrimeAgrees, hno] at h
  exact Bool.false_ne_true (h.mpr ⟨_, hmem, expandsPrime_iff.mpr he⟩)

end Deneb.GcodeStream
