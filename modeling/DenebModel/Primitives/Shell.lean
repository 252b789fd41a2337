import Mathlib.Data.List.Basic
import Mathlib.Tactic.SplitIfs

-- How a POSIX shell reads a command line that is a single simple command, as far as its words are
-- written with single quotes and backslashes.
namespace Shell

abbrev Bytes := List UInt8

-- A byte of a word, and whether it is quoted.
structure Letter where
  byte   : UInt8
  quoted : Bool
  deriving DecidableEq

abbrev Word := List Letter

namespace Word

def text (word : Word) : Bytes :=
  word.map Letter.byte

-- Only a word with one of * ? [ that is not quoted is looked up among the names of files.
def isPattern (word : Word) : Bool :=
  word.any fun c => !c.quoted && (c.byte == 42 || c.byte == 63 || c.byte == 91)

end Word

inductive Mode
  | plain
  | quoted
  | escaped
  deriving DecidableEq

-- The words that are complete, and the one that is being read.
structure Reader where
  words : List Word
  word  : Option Word := none
  mode  : Mode        := .plain
  deriving DecidableEq

def isBlank (c : UInt8) : Bool :=
  c == 32 || c == 9

-- Where it is not quoted, such a byte is an operator or begins an expansion, a comment, a group or
-- a quotation in which there are expansions: \n ! " # $ & ( ) ; < > ` { | } ~
def isSpecial (c : UInt8) : Bool :=
  [10, 33, 34, 35, 36, 38, 40, 41, 59, 60, 62, 96, 123, 124, 125, 126].contains c

namespace Reader

def put (r : Reader) (c : UInt8) (quoted : Bool) : Reader :=
  { r with word := some (r.word.getD [] ++ [⟨c, quoted⟩]) }

def close (r : Reader) : Reader :=
  { r with words := r.words ++ r.word.toList, word := none }

def step (r : Reader) (c : UInt8) : Option Reader :=
  match r.mode with
  | .quoted  => if c = 39 then some { r with mode := .plain } else some (r.put c true)
  | .escaped =>
    if c = 10 then some { r with mode := .plain } else some { r.put c true with mode := .plain }
  | .plain   =>
    if c = 39 then some { r with word := some (r.word.getD []), mode := .quoted }
    else if c = 92 then some { r with mode := .escaped }
    else if isBlank c then some r.close
    else if isSpecial c then none
    else some (r.put c false)

-- A quotation that is left open is no command.
def finish (r : Reader) : Option (List Word) :=
  if r.mode = .plain then some r.close.words else none

def reads (r : Reader) (text : Bytes) : Option (List Word) :=
  (text.foldlM step r).bind finish

end Reader

def read (text : Bytes) : Option (List Word) :=
  Reader.reads { words := [] } text

def reserved : List String :=
  ["case", "do", "done", "elif", "else", "esac", "fi", "for", "if", "in", "then", "until", "while"]

-- The first word is the name of the command: neither an assignment nor a reserved word.
def namesCommand (word : Word) : Bool :=
  !word.contains ⟨61, false⟩ && !(reserved.map fun s => s.toList.map fun c => ⟨c.toNat.toUInt8, false⟩).contains word

-- The text is one simple command with these fields, in which nothing is expanded: `glob` is what
-- the names of files are for a pattern.
def SimpleCommand (glob : Word → List Bytes) (text : Bytes) (fields : List Bytes) : Prop :=
  ∃ words, read text = some words ∧ (∃ name ∈ words.head?, namesCommand name) ∧
    (∀ word ∈ words, word.isPattern → glob word = []) ∧ words.map Word.text = fields

-- A text between single quotes, with each apostrophe outside of them behind a backslash.
def quoteBody (s : Bytes) : Bytes :=
  s.flatMap fun c => if c = 39 then [39, 92, 39, 39] else [c]

def quote (s : Bytes) : Bytes :=
  39 :: quoteBody s ++ [39]

section

variable {r : Reader} {words : List Word} {word : Word} {s t : Bytes} {c : UInt8}

theorem reads_cons : r.reads (c :: s) = (r.step c).bind (·.reads s) := by
  rw [Reader.reads, List.foldlM_cons, Option.bind_eq_bind, Option.bind_assoc]
  rfl

theorem reads_nil : r.reads [] = r.finish :=
  rfl

-- Bytes that mean themselves.
def Plain (s : Bytes) : Prop :=
  ∀ c ∈ s, c ≠ 39 ∧ c ≠ 92 ∧ isBlank c = false ∧ isSpecial c = false

instance : Decidable (Plain s) :=
  List.decidableBAll _ s

theorem step_plain (h : c ≠ 39 ∧ c ≠ 92 ∧ isBlank c = false ∧ isSpecial c = false) {word : Option Word} :
    Reader.step { words, word } c = some { words, word := some (word.getD [] ++ [⟨c, false⟩]) } := by
  obtain ⟨hq, he, hb, hs⟩ := h
  simp only [Reader.step, if_neg hq, if_neg he, hb, hs, Bool.false_eq_true, if_false]
  rfl

theorem reads_plain (h : Plain s) :
    Reader.reads { words, word := some word } (s ++ t) =
      Reader.reads { words, word := some (word ++ s.map (⟨·, false⟩)) } t := by
  induction s generalizing word
  case nil => simp
  case cons c s ih =>
    rw [List.cons_append, reads_cons, step_plain (h c (.head _)), Option.bind_some,
      ih fun c hm => h c (.tail _ hm)]
    simp

-- A word that a blank ends.
theorem reads_word (h : Plain s) (hn : s ≠ []) :
    Reader.reads { words } (s ++ 32 :: t) = Reader.reads { words := words ++ [s.map (⟨·, false⟩)] } t := by
  obtain ⟨c, s, rfl⟩ := List.exists_cons_of_ne_nil hn
  rw [List.cons_append, reads_cons, step_plain (h c (.head _)), Option.bind_some,
    reads_plain fun c hm => h c (.tail _ hm), reads_cons]
  rfl

-- A word that a quotation follows without a blank.
theorem reads_prefix (h : Plain s) (hn : s ≠ []) :
    Reader.reads { words } (s ++ t) = Reader.reads { words, word := some (s.map (⟨·, false⟩)) } t := by
  obtain ⟨c, s, rfl⟩ := List.exists_cons_of_ne_nil hn
  rw [List.cons_append, reads_cons, step_plain (h c (.head _)), Option.bind_some,
    reads_plain fun c hm => h c (.tail _ hm)]
  rfl

theorem length_quoteBody : (quoteBody s).length = s.length + 3 * s.count 39 := by
  induction s
  case nil => rfl
  case cons c s ih =>
    rw [quoteBody, List.flatMap_cons, List.length_append, ← quoteBody, ih, List.length_cons, List.count_cons]
    by_cases h : c = 39
    case pos => simp [h]; omega
    case neg => simp [h]; omega

-- Reading a quoted text gives the text.
theorem reads_quoteBody :
    Reader.reads { words, word := some word, mode := .quoted } (quoteBody s ++ t) =
      Reader.reads { words, word := some (word ++ s.map (⟨·, true⟩)), mode := .quoted } t := by
  induction s generalizing word
  case nil => simp [quoteBody]
  case cons c s ih =>
    have rest : (quoteBody (c :: s) : Bytes) = (if c = 39 then [39, 92, 39, 39] else [c]) ++ quoteBody s := rfl
    rw [rest, List.append_assoc]
    have next := @ih (word ++ [⟨c, true⟩])
    rw [List.append_assoc] at next
    by_cases h : c = 39
    case pos =>
      subst h
      simpa [reads_cons, Reader.step, Reader.put] using next
    case neg => simpa [h, reads_cons, Reader.step, Reader.put] using next

theorem quoteBody_cons : quoteBody (c :: s) = (if c = 39 then [39, 92, 39, 39] else [c]) ++ quoteBody s :=
  rfl

theorem length_le_quoteBody : s.length ≤ (quoteBody s).length := by
  rw [length_quoteBody]
  omega

theorem getLast?_cons_eq (h : c ≠ 39 ∨ s ≠ []) :
    (c :: s).getLast? = some 39 ↔ s.getLast? = some 39 := by
  cases s
  case nil =>
    refine iff_of_false (fun he => ?_) nofun
    exact h.elim (fun hc => hc (Option.some_inj.mp he)) fun hs => hs rfl
  case cons d s => rw [List.getLast?_cons_cons]

-- The reader's result for a quotation that is cut off gives its text.
def Gives (words : List Word) (word : Word) (s t : Bytes) : Prop :=
  ∃ cut, Reader.reads { words, word := some word, mode := .quoted } t = some cut ∧
    cut.map Word.text = words.map Word.text ++ [Word.text word ++ s]

theorem gives_put (h : c ≠ 39) :
    Gives words word (c :: s) (c :: t) ↔ Gives words (word ++ [⟨c, true⟩]) s t := by
  rw [Gives, reads_cons, Reader.step]
  simp only [if_neg h, Option.bind_some]
  simp [Gives, Reader.put, Word.text]

theorem gives_apostrophe :
    Gives words word (39 :: s) (39 :: 92 :: 39 :: 39 :: t) ↔ Gives words (word ++ [⟨39, true⟩]) s t := by
  rw [Gives, reads_cons]
  simp [Gives, reads_cons, Reader.step, Reader.put, Word.text]

-- A quotation that is cut off is still read as its text only if the quotes that open and close
-- behind a last apostrophe are what is missing.
theorem gives_take {k : Nat} (h : k < (quoteBody s).length + 1) :
    Gives words word s ((quoteBody s ++ [39]).take k) ↔
      (quoteBody s).length + 1 = k + 2 ∧ s.getLast? = some 39 := by
  induction s generalizing word k
  case nil =>
    rw [show quoteBody [] = [] from rfl, List.length_nil] at h ⊢
    rw [show k = 0 by omega]
    refine iff_of_false ?_ (by omega)
    rintro ⟨cut, hr, -⟩
    cases hr
  case cons c s ih =>
    have hl := @length_le_quoteBody s
    rw [quoteBody_cons] at h ⊢
    by_cases hc : c = 39
    case neg =>
      rw [if_neg hc, List.cons_append, List.nil_append, List.length_cons] at h ⊢
      cases k
      case zero =>
        refine iff_of_false ?_ ?_
        · rintro ⟨cut, hr, -⟩
          cases hr
        · rintro ⟨hk, hg⟩
          have hs : s = [] := List.eq_nil_of_length_eq_zero (by omega)
          rw [hs] at hg
          exact hc (Option.some_inj.mp hg)
      case succ k =>
        rw [List.cons_append, List.take_succ_cons, gives_put hc, ih (by omega), getLast?_cons_eq (.inl hc)]
        exact and_congr_left fun _ => by omega
    case pos =>
      subst hc
      simp only [if_true, List.cons_append, List.nil_append, List.length_cons] at h ⊢
      match k, h with
      | 0, _ =>
        refine iff_of_false ?_ (by omega)
        rintro ⟨cut, hr, -⟩
        cases hr
      | 1, _ =>
        -- The word ends in front of the apostrophe.
        refine iff_of_false ?_ (by omega)
        rintro ⟨cut, hr, ht⟩
        cases hr
        simp [Reader.close, Word.text] at ht
      | 2, _ =>
        refine iff_of_false ?_ (by omega)
        rintro ⟨cut, hr, -⟩
        cases hr
      | 3, _ =>
        -- The word ends behind the apostrophe.
        have same : Gives words word (39 :: s) [39, 92, 39] ↔ s = [] := by
          constructor
          case mp =>
            rintro ⟨cut, hr, ht⟩
            cases hr
            simpa [Reader.close, Reader.put, Word.text] using ht
          case mpr =>
            rintro rfl
            exact ⟨words ++ [word ++ [⟨39, true⟩]], rfl, by simp [Word.text]⟩
        refine same.trans ⟨?_, fun h => List.eq_nil_of_length_eq_zero (by omega)⟩
        rintro rfl
        exact ⟨rfl, rfl⟩
      | k + 4, h =>
        simp only [List.take_succ_cons]
        rw [gives_apostrophe, ih (by omega)]
        by_cases hs : s = []
        case pos =>
          have hb : (quoteBody s).length = 0 := by rw [hs]; rfl
          refine iff_of_false ?_ ?_ <;> omega
        case neg =>
          rw [getLast?_cons_eq (.inr hs)]
          exact and_congr_left fun _ => by omega

-- The letters that have been read, and the one that is announced by a backslash.
def Reader.size (r : Reader) : Nat :=
  (r.words ++ r.word.toList).flatten.length + if r.mode = .escaped then 1 else 0

-- An apostrophe never adds to them.
theorem step_size {r' : Reader} (h : r.step c = some r') :
    r'.size + (if c = 39 then 1 else 0) ≤ r.size + 1 := by
  have put : ∀ q, (r.put c q).size = r.size + 1 := by
    intro q
    cases hw : r.word <;> simp [Reader.put, Reader.size, hw] <;> omega
  unfold Reader.step at h
  split at h
  case h_1 hm =>
    split_ifs at h with hc <;> cases h
    · simp [Reader.size, hm, hc]
    · simp [put, hc]
  case h_2 hm =>
    split_ifs at h with hc <;> cases h
    · simp [Reader.size, hm, hc]
      omega
    · cases hw : r.word <;> simp [Reader.put, Reader.size, hm, hw] <;> split <;> omega
  case h_3 hm =>
    split_ifs at h with hq he hb hs <;> cases h
    · cases hw : r.word <;> simp [Reader.size, hq, hm, hw]
    · simp [Reader.size, hq, hm]
    · have close : r.close.size = r.size := by simp [Reader.close, Reader.size, hm]
      rw [close, if_neg hq]
      omega
    · simp [put, hq]

theorem reads_size (h : r.reads s = some words) : words.flatten.length + s.count 39 ≤ r.size + s.length := by
  induction s generalizing r
  case nil =>
    rw [reads_nil, Reader.finish] at h
    split at h <;> cases h
    simp [Reader.size, Reader.close]
  case cons c s ih =>
    rw [reads_cons] at h
    obtain ⟨r', hs, hr⟩ := Option.bind_eq_some_iff.mp h
    have step := step_size hs
    have rest := ih hr
    rw [List.count_cons, List.length_cons]
    simp only [beq_iff_eq]
    omega

-- A text between quotes that is not escaped.
theorem not_mem_of_gives (h : Gives words word s (s ++ [39])) : 39 ∉ s := by
  obtain ⟨cut, hr, ht⟩ := h
  have size := reads_size hr
  have text : ∀ ws : List Word, (ws.map Word.text).flatten.length = ws.flatten.length := by
    intro ws
    rw [show ws.map Word.text = ws.map (List.map Letter.byte) from rfl, ← List.map_flatten, List.length_map]
  have total : cut.flatten.length = words.flatten.length + word.length + s.length := by
    rw [← text, ht, ← text words]
    simp [Word.text, Nat.add_assoc]
  rw [total, List.count_append] at size
  simp [Reader.size] at size
  rw [← List.count_eq_zero]
  omega

theorem reads_cut : Reader.reads { words, word := some word, mode := .quoted } (quoteBody s ++ [39, 92, 39]) =
    some (words ++ [word ++ (s ++ [39]).map (⟨·, true⟩)]) := by
  rw [reads_quoteBody, List.map_append, ← List.append_assoc]
  rfl

end
end Shell
