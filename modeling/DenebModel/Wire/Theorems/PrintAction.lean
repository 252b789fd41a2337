import DenebModel.Wire.PrintAction
import Mathlib.Data.List.TakeWhile

-- When an action that is named in a request body is the one that is taken.
namespace Deneb.PrintAction

open CString

variable {body text : CString} {pending : Bool} {size : Nat} {quote : UInt8}

-- The text of a value up to its closing quote; a backslash takes the byte behind it along.
def closedText (quote : UInt8) : CString → Option CString
  | []          => none
  | 92 :: d :: s => (closedText quote s).map (92 :: d :: ·)
  | c :: s      => if c = quote then some [] else (closedText quote s).map (c :: ·)

def valueText : CString → Option CString
  | []         => none
  | quote :: s => if isQuote quote then closedText quote s else none

-- The value of the action member: of the first `"action"` that stands before a colon.
def memberValue : CString → Option CString
  | []     => none
  | c :: s =>
    if startsWith (c :: s) "\"action\"" then
      match skipSpaces ((c :: s).drop 8) with
      | 58 :: p => valueText (skipSpaces p)
      | _       => memberValue s
    else memberValue s

def lowered (text : CString) : CString :=
  (trim text).map toLower

-- The action that is named is taken, or none.
def KeepsAction (body : CString) (parsed : Parsed) : Prop :=
  parsed = .fail ∨ ∃ value, memberValue body = some value ∧ parsed = .ok (lowered value)

-- The text in quotes behind the first colon behind the first `"action"`.
def quotedText (body : CString) : Option CString :=
  match strstr body "\"action\"" with
  | none   => none
  | some p =>
    match strchr (p.drop 8) 58 with
    | none   => none
    | some p =>
      match skipSpaces (p.drop 1) with
      | []         => none
      | quote :: p =>
        if isQuote quote ∧ quote ∈ p then some (p.takeWhile (· ≠ quote)) else none

-- What is left of a text without a pair of quotes around it.
def unquoted (text : CString) : CString :=
  if isEnclosed (trim text) then ((trim text).drop 1).dropLast else trim text

-- The default can do no harm: no job is pending, it does not fit, or it is what is asked for.
def DefaultMeant (body : CString) (pending : Bool) (size : Nat) : Prop :=
  pending → 5 < size → (memberValue body).map lowered = some (ofString "print")

-- What is read is the value of the member; if nothing can be read, the default is meant.
def Unambiguous (body : CString) (pending : Bool) (size : Nat) : Prop :=
  match (quotedText body).filter (·.length < size) with
  | none      => DefaultMeant body pending size
  | some text =>
    trim text ≠ [34] ∧ trim text ≠ [39] ∧
      if unquoted text = [] then DefaultMeant body pending size
      else (memberValue body).map lowered = some ((unquoted text).map toLower)

instance : Decidable (DefaultMeant body pending size) :=
  inferInstanceAs (Decidable (pending → 5 < size → _))

instance : Decidable (Unambiguous body pending size) :=
  match h : (quotedText body).filter (·.length < size) with
  | none   => decidable_of_iff (DefaultMeant body pending size) (by rw [Unambiguous, h])
  | some _ => decidable_of_iff (_ ∧ _ ∧ ite _ _ _) (by rw [Unambiguous, h])

theorem finishParse_eq (h : trim text ≠ [34]) (h' : trim text ≠ [39]) :
    finishParse text =
      if unquoted text = [] then .fail else .ok ((unquoted text).map toLower) := by
  unfold finishParse normalizeActionValue unquoted
  dsimp only
  by_cases he : isEnclosed (trim text)
  case pos =>
    have hl : (trim text).length ≠ 1 := by
      intro hl
      obtain ⟨c, hc⟩ := List.length_eq_one_iff.mp hl
      rw [hc] at he h h'
      simp_all [isEnclosed, isQuote]
    rw [if_pos he, if_neg hl, if_pos he]
    dsimp only
    rw [List.isEmpty_map]
    cases ((trim text).drop 1).dropLast <;> rfl
  case neg =>
    rw [if_neg he, if_neg he]
    dsimp only
    rw [List.isEmpty_map]
    cases trim text <;> rfl

theorem finishParse_lone (h : trim text = [34] ∨ trim text = [39]) : finishParse text = .overrun := by
  unfold finishParse normalizeActionValue
  cases h with
  | inl h => rw [h]; rfl
  | inr h => rw [h]; rfl

-- The text up to a quote and what follows it.
theorem takeWhile_quote (p : CString) :
    ∃ rest, p = p.takeWhile (· ≠ quote) ++ rest ∧ quote ∉ p.takeWhile (· ≠ quote) ∧
      (rest.head? = some quote ↔ quote ∈ p) := by
  have hsplit := @List.takeWhile_append_dropWhile _ (· ≠ quote) p
  have before : quote ∉ p.takeWhile (· ≠ quote) := by
    intro hm
    have := List.mem_takeWhile_imp hm
    simp at this
  refine ⟨p.dropWhile (· ≠ quote), hsplit.symm, before, fun h => ?_, fun hm => ?_⟩
  case refine_1 => exact (List.dropWhile_sublist _).subset (List.mem_of_mem_head? h)
  case refine_2 =>
    rw [← hsplit, List.mem_append] at hm
    have hm := hm.resolve_left before
    obtain ⟨c, rest, hr⟩ := List.exists_cons_of_ne_nil (List.ne_nil_of_mem hm)
    have hc := List.head?_dropWhile_not (· ≠ quote) p
    rw [hr] at hc ⊢
    simpa using hc

-- The text is read when it is closed and fits into the buffer.
theorem readQuoted {p : CString} (hs : 2 ≤ size) :
    (if (p.drop ((p.takeWhile (· ≠ quote)).take (size - 1)).length).head? ≠ some quote then Parsed.fail
      else finishParse ((p.takeWhile (· ≠ quote)).take (size - 1))) =
      if quote ∈ p ∧ (p.takeWhile (· ≠ quote)).length < size then
        finishParse (p.takeWhile (· ≠ quote)) else .fail := by
  have ⟨rest, hp, before, closed⟩ := @takeWhile_quote quote p
  generalize p.takeWhile (· ≠ quote) = text at *
  by_cases hl : text.length < size
  case pos =>
    have hd : p.drop text.length = rest := by rw [hp, List.drop_left]
    rw [List.take_of_length_le (by omega), hd]
    by_cases hm : quote ∈ p
    case pos => rw [if_neg (not_not.mpr (closed.mpr hm)), if_pos ⟨hm, hl⟩]
    case neg => rw [if_pos (mt closed.mp hm), if_neg fun h => hm h.1]
  case neg =>
    have full : (p.drop (size - 1)).head? ≠ some quote := by
      have hi : size - 1 < text.length := by omega
      rw [List.head?_drop, hp, List.getElem?_append_left hi]
      exact fun h => before (List.mem_of_getElem? h)
    rw [List.length_take, Nat.min_eq_left (by omega), if_pos full, if_neg fun h => hl h.2]

theorem parse_eq (h : contains body "\"action\"") (hs : 2 ≤ size) :
    parse body size = match (quotedText body).filter (·.length < size) with
      | none      => .fail
      | some text => finishParse text := by
  obtain ⟨p, hp⟩ := Option.isSome_iff_exists.mp h
  unfold parse quotedText
  rw [if_neg (by omega), hp]
  dsimp only
  cases strchr (p.drop 8) 58
  case none => rfl
  case some p =>
    dsimp only
    cases skipSpaces (p.drop 1)
    case nil => rfl
    case cons quote p =>
      dsimp only
      by_cases hq : isQuote quote
      case neg => simp [hq]
      case pos =>
        rw [readQuoted hs]
        by_cases hm : quote ∈ p
        case neg => simp [hq, hm]
        case pos =>
          have found : (if isQuote quote ∧ quote ∈ p then some (p.takeWhile (· ≠ quote)) else none) =
              some (p.takeWhile (· ≠ quote)) := if_pos ⟨hq, hm⟩
          rw [found, Option.filter_some]
          by_cases hl : (p.takeWhile (· ≠ quote)).length < size
          case neg => simp only [hq, hl, decide_false, Bool.false_eq_true, if_false, and_false]; rfl
          case pos => simp only [hq, hm, hl, decide_true, if_true, and_self]; rfl

theorem keepsAction_ok {action : CString} :
    KeepsAction body (.ok action) ↔ (memberValue body).map lowered = some action := by
  simp only [KeepsAction, Option.map_eq_some_iff, reduceCtorEq, false_or, Parsed.ok.injEq]
  exact exists_congr fun _ => and_congr_right' eq_comm

-- What is taken when nothing could be read.
theorem keepsAction_default :
    KeepsAction body (if !pending || decide (size ≤ 5) then .fail else .ok "print") ↔
      DefaultMeant body pending size := by
  unfold DefaultMeant
  split
  case isTrue h =>
    refine iff_of_true (.inl rfl) fun hp hs => ?_
    simp [hp] at h
    omega
  case isFalse h =>
    simp only [Bool.or_eq_true, Bool.not_eq_true', decide_eq_true_eq, not_or, Bool.not_eq_false] at h
    rw [keepsAction_ok]
    exact ⟨fun hm _ _ => hm, fun hm => hm h.1 (by omega)⟩

-- What is taken for a text that could be read.
theorem keepsAction_text :
    KeepsAction body (match finishParse text with
      | .fail  => if !pending || decide (size ≤ 5) then .fail else .ok "print"
      | parsed => parsed) ↔
      trim text ≠ [34] ∧ trim text ≠ [39] ∧
        if unquoted text = [] then DefaultMeant body pending size
        else (memberValue body).map lowered = some ((unquoted text).map toLower) := by
  by_cases hl : trim text = [34] ∨ trim text = [39]
  case pos =>
    rw [finishParse_lone hl]
    refine iff_of_false ?_ fun h => hl.elim h.1 h.2.1
    rintro (h | ⟨_, _, h⟩) <;> contradiction
  case neg =>
    have ⟨hd, hs⟩ := not_or.mp hl
    rw [finishParse_eq hd hs]
    by_cases hu : unquoted text = []
    case pos => simpa [hu, hd, hs] using keepsAction_default
    case neg => simpa [hu, hd, hs] using keepsAction_ok

-- An action that is named is never turned into another one, exactly if what the parser reads is the
-- value of the member.
theorem keepsAction_iff (h : contains body "\"action\"") :
    KeepsAction body (parseOrPendingDefault body pending size) ↔ Unambiguous body pending size := by
  unfold parseOrPendingDefault Unambiguous
  by_cases hs : 2 ≤ size
  case pos =>
    rw [if_neg (by omega), parse_eq h hs]
    cases (quotedText body).filter (·.length < size)
    case none      => exact keepsAction_default
    case some text => exact keepsAction_text
  case neg =>
    have small : size = 0 ∨ size = 1 := by omega
    have meant : DefaultMeant body pending size := fun _ h => absurd h (by omega)
    refine iff_of_true (.inl ?_) ?_
    case refine_1 =>
      obtain rfl | rfl := small
      case inl => rfl
      case inr => simp [parse]
    case refine_2 =>
      cases hq : (quotedText body).filter (·.length < size)
      case none      => exact meant
      case some text =>
        have hl := (Option.filter_eq_some_iff.mp hq).2
        have empty : text = [] := List.eq_nil_of_length_eq_zero (by simp at hl; omega)
        rw [empty]
        exact ⟨nofun, nofun, meant⟩

def abortBody : CString :=
  "\x7b\"action\": \" Abort\"\x7d"

theorem abortBody_kept : KeepsAction abortBody (parseOrPendingDefault abortBody true 16) :=
  (keepsAction_iff (by decide)).mpr (by decide +kernel)

-- An abort whose value stands without quotes starts the pending job.
def bareAbortBody : CString :=
  "\x7b\"action\": abort\x7d"

theorem bareAbortBody_not_kept :
    contains bareAbortBody "\"action\"" ∧ parseOrPendingDefault bareAbortBody true 16 = .ok "print" ∧
      ¬KeepsAction bareAbortBody (parseOrPendingDefault bareAbortBody true 16) := by
  have started : parseOrPendingDefault bareAbortBody true 16 = .ok "print" := by decide +kernel
  refine ⟨by decide, started, ?_⟩
  rw [started, keepsAction_ok]
  decide +kernel

end Deneb.PrintAction
