import DenebModel.Primitives.Theorems.JsonText
import DenebModel.Wire.PendingDispatch
import DenebModel.Wire.Theorems.JsonString
import DenebModel.Wire.Theorems.PendingJobFile

-- What marking a pending file as handled does to the fields that are read of it.
namespace Deneb

open CString Json BinaryFloat

namespace PendingJobFile

open PendingJob

def required : CString := "configuration_changes_required"

def handled : CString := "configuration_changes_handled"

-- The text that is written for a text.
def marked (t : CString) : CString :=
  (markLoop t.length t).1

section

variable {s t : CString} {c : UInt8}

theorem markLoop_congr {n m : Nat} (hn : t.length ≤ n) (hm : t.length ≤ m) :
    (markLoop n t).1 = (markLoop m t).1 := by
  induction n generalizing m t
  case zero =>
    obtain rfl := List.length_eq_zero_iff.mp (Nat.le_zero.mp hn)
    cases m <;> rfl
  case succ n hi =>
    rcases t with _ | ⟨c, t⟩
    · cases m <;> rfl
    · obtain ⟨m, rfl⟩ : ∃ k, m = k + 1 := ⟨m - 1, by simp only [List.length_cons] at hm; omega⟩
      simp only [List.length_cons, Nat.add_le_add_iff_right] at hn hm
      have hdrop {k : Nat} (hk : 0 < k) :
          ((c :: t).drop k).length ≤ n ∧ ((c :: t).drop k).length ≤ m := by
        simp only [List.length_drop, List.length_cons]
        omega
      simp only [markLoop]
      split_ifs
      · rw [hi (hdrop (by decide)).left (hdrop (by decide)).right]
      · rw [hi (hdrop (by decide)).left (hdrop (by decide)).right]
      · rw [hi hn hm]

theorem markLoop_eq {rounds : Nat} (h : t.length ≤ rounds) : (markLoop rounds t).1 = marked t :=
  markLoop_congr h (Nat.le_refl _)

theorem marked_cons :
    marked (c :: s) =
      if (34 :: required ++ [34]) <+: c :: s then
        34 :: (handled ++ 34 :: marked ((c :: s).drop 32))
      else if ofString "\"status\":\"wait_user_action\"" <+: c :: s then
        ofString "\"status\":\"pre_print\"" ++ marked ((c :: s).drop 27)
      else c :: marked s := by
  have hdrop {k : Nat} (hk : 0 < k) : ((c :: s).drop k).length ≤ s.length := by
    simp only [List.length_drop, List.length_cons]
    omega
  have hq : ofString "\"configuration_changes_required\"" = 34 :: required ++ [34] := by decide
  have hh : ofString "\"configuration_changes_handled\"" = 34 :: (handled ++ [34]) := by decide
  have hl : (34 :: required ++ [34]).length = 32 := by decide
  have hw : (ofString "\"status\":\"wait_user_action\"").length = 27 := by decide
  simp only [marked, List.length_cons, markLoop, startsWith, List.isPrefixOf_iff_prefix, hq, hh, hl, hw]
  split_ifs
  · rw [markLoop_eq (hdrop (by decide)), marked]
    simp
  · rw [markLoop_eq (hdrop (by decide)), marked]
  · rfl

theorem marked_skip (h : c ≠ 34) : marked (c :: s) = c :: marked s := by
  have hp {p : CString} : ¬ 34 :: p <+: c :: s := fun hp => h (List.cons_prefix_cons.mp hp).left.symm
  have hr : ¬ 34 :: required ++ [34] <+: c :: s := hp
  have hw : ¬ ofString "\"status\":\"wait_user_action\"" <+: c :: s := hp
  rw [marked_cons, if_neg hr, if_neg hw]

theorem marked_append (h : 34 ∉ s) : marked (s ++ t) = s ++ marked t := by
  induction s
  case nil => rfl
  case cons c s hi =>
    simp only [List.mem_cons, not_or] at h
    rw [List.cons_append, marked_skip (Ne.symm h.left), hi h.right, List.cons_append]

theorem length_marked : (marked t).length ≤ t.length := by
  induction hn : t.length using Nat.strongRecOn generalizing t
  case ind n hi =>
    rcases t with _ | ⟨c, t⟩
    · exact Nat.zero_le _
    · have hq : (34 :: required ++ [34]).length = 32 := by decide
      have hw : (ofString "\"status\":\"wait_user_action\"").length = 27 := by decide
      have hh : handled.length = 29 := by decide
      have hp : (ofString "\"status\":\"pre_print\"").length = 20 := by decide
      have hdrop {k : Nat} (hk : 0 < k) : (marked ((c :: t).drop k)).length ≤ n - k := by
        rw [← hn, ← List.length_drop]
        refine hi _ ?_ rfl
        rw [List.length_drop]
        simp only [List.length_cons] at hn ⊢
        omega
      rw [marked_cons]
      split_ifs with h h'
      · have hl := h.length_le
        have hd := @hdrop 32 (by decide)
        simp only [List.length_cons, List.length_append] at hl hd hq hn ⊢
        omega
      · have hl := h'.length_le
        have hd := @hdrop 27 (by decide)
        simp only [List.length_cons, List.length_append] at hl hd hn ⊢
        omega
      · have hd := @hdrop 1 (by decide)
        simp only [List.drop_one, List.tail_cons, List.length_cons] at hd hn ⊢
        omega

-- Neither of the texts that are replaced starts here.
theorem marked_quote (h : ∀ c ∈ t.head?, c ≠ 99 ∧ c ≠ 115) : marked (34 :: t) = 34 :: marked t := by
  have hp {d : UInt8} {p : CString} (hd : d = 99 ∨ d = 115) : ¬ 34 :: d :: p <+: 34 :: t := by
    intro hp
    obtain ⟨u, rfl⟩ := (List.cons_prefix_cons.mp hp).right
    have hne := h d rfl
    rcases hd with rfl | rfl
    · exact hne.left rfl
    · exact hne.right rfl
  have hr : ¬ 34 :: required ++ [34] <+: 34 :: t := hp (.inl rfl)
  have hw : ¬ ofString "\"status\":\"wait_user_action\"" <+: 34 :: t := hp (.inr rfl)
  rw [marked_cons, if_neg hr, if_neg hw]

-- A segment between two quotes.
theorem marked_segment (hs : 34 ∉ s) (h : s ≠ "status" ∨ t.head? ≠ some 58) :
    marked (34 :: (s ++ 34 :: t)) =
      if s = required then 34 :: (handled ++ 34 :: marked t) else 34 :: (s ++ marked (34 :: t)) := by
  have hr : 34 :: required ++ [34] <+: 34 :: (s ++ 34 :: t) ↔ s = required := by
    rw [List.cons_append, List.cons_prefix_cons]
    constructor
    · rintro ⟨-, u, hu⟩
      rw [List.append_assoc] at hu
      exact (first_quote (by decide) hs hu).left.symm
    · rintro rfl
      exact ⟨rfl, t, by simp⟩
  have hw : ofString "\"status\":\"wait_user_action\"" =
      34 :: (ofString "status" ++ 34 :: 58 :: ofString "\"wait_user_action\"") := by decide
  have hn : ¬ ofString "\"status\":\"wait_user_action\"" <+: 34 :: (s ++ 34 :: t) := by
    rw [hw, List.cons_prefix_cons]
    rintro ⟨-, u, hu⟩
    rw [List.append_assoc] at hu
    obtain ⟨rfl, rfl⟩ := first_quote (by decide) hs hu
    rcases h with h | h
    · exact h rfl
    · exact h rfl
  rw [marked_cons]
  simp only [hr, hn, if_false]
  split_ifs with he
  · subst he
    have hl : (34 :: (required ++ [34])).length = 32 := by decide
    have ht : 34 :: (required ++ 34 :: t) = 34 :: (required ++ [34]) ++ t := by simp
    rw [ht, ← hl, List.drop_left]
  · rw [marked_append hs]

theorem marked_status :
    marked (34 :: (ofString "status" ++ 34 :: 58 :: 34 :: (ofString "wait_user_action" ++ 34 :: t))) =
      34 :: (ofString "status" ++ 34 :: 58 :: 34 :: (ofString "pre_print" ++ 34 :: marked t)) := by
  have hr : ¬ 34 :: required ++ [34] <+:
      34 :: (ofString "status" ++ 34 :: 58 :: 34 :: (ofString "wait_user_action" ++ 34 :: t)) := by
    rintro ⟨u, hu⟩
    rw [List.cons_append, List.cons_append, List.append_assoc, List.cons.injEq] at hu
    exact absurd (first_quote (by decide) (by decide) hu.right).left (by decide)
  have hw : ofString "\"status\":\"wait_user_action\"" ++ t =
      34 :: (ofString "status" ++ 34 :: 58 :: 34 :: (ofString "wait_user_action" ++ 34 :: t)) := by
    have h : ofString "\"status\":\"wait_user_action\"" =
        34 :: (ofString "status" ++ 34 :: 58 :: 34 :: (ofString "wait_user_action" ++ [34])) := by decide
    rw [h]
    simp
  have hl : (ofString "\"status\":\"wait_user_action\"").length = 27 := by decide
  have hp : ofString "\"status\":\"pre_print\"" =
      34 :: (ofString "status" ++ 34 :: 58 :: 34 :: (ofString "pre_print" ++ [34])) := by decide
  rw [marked_cons, if_neg hr, if_pos ⟨t, hw⟩, ← hw, ← hl, List.drop_left, hp]
  simp

-- What marking makes of a value: the end of it is replaced if it is taken for the name.
def renamed (s : CString) : CString :=
  if hides s required then s.take (s.length - required.length) ++ handled else s

def mark : Token → Token
  | .name s  =>
    .name (if s = required then handled else if s = "wait_user_action" then "pre_print" else s)
  | .value s => .value (renamed s)

def markAll (ts : List (CString × Json.Token)) : List (CString × Json.Token) :=
  ts.map fun t => (t.1, mark t.2)

theorem renamed_of_not_hides (h : hides s required = false) : renamed s = s := by
  rw [renamed, h, if_neg (by decide)]

theorem renamed_required : renamed required = handled := by
  decide

theorem renamed_split {u v : CString} : renamed (u ++ 34 :: v) = u ++ 34 :: renamed v := by
  have hh := @hides_split u v required (by decide)
  rw [renamed, renamed]
  by_cases h : hides v required
  · obtain hl | hl := Nat.lt_or_ge v.length required.length
    · have hle := (hides_iff.mp h).length_le
      simp only [List.length_cons] at hle
      omega
    · have ht : (u ++ 34 :: v).length - required.length =
          (u ++ [34]).length + (v.length - required.length) := by
        simp only [List.length_append, List.length_cons, List.length_nil]
        omega
      have hs : u ++ 34 :: v = u ++ [34] ++ v := by simp
      rw [if_pos (hh.mpr h), if_pos h, ht, hs, List.take_length_add_append]
      simp
  · rw [if_neg (hh.not.mpr h), if_neg h]

theorem hides_cases {key : CString} (h : hides s key) : s = key ∨ ∃ u, s = u ++ 34 :: key := by
  rcases List.suffix_cons_iff.mp (hides_iff.mp h) with he | ⟨u, hu⟩
  · exact .inl (List.cons.inj he).right.symm
  · exact .inr ⟨u, hu.symm⟩

-- The end that is replaced is not taken for another name.
theorem hides_renamed {key : CString} (hk : 34 ∉ key) (hne : key ≠ handled) :
    hides (renamed s) key = (decide (key ≠ required) && hides s key) := by
  by_cases h : hides s required
  · have hr : hides required key ↔ key = required := by
      rw [hides_of_notMem (by decide), eq_comm]
    have hh : ¬ hides handled key := by
      rw [hides_of_notMem (by decide)]
      exact hne.symm
    rw [Bool.eq_iff_iff, Bool.and_eq_true, decide_eq_true_eq]
    rcases hides_cases h with rfl | ⟨u, rfl⟩
    · rw [renamed_required, hr]
      exact iff_of_false hh fun ⟨hn, he⟩ => hn he
    · rw [renamed_split, renamed_required, hides_split hk, hides_split hk, hr]
      exact iff_of_false hh fun ⟨hn, he⟩ => hn he
  · rw [renamed_of_not_hides ((Bool.not_eq_true _).mp h)]
    by_cases he : key = required
    · rw [he, (Bool.not_eq_true _).mp h]
      rfl
    · rw [decide_eq_true he, Bool.true_and]

theorem renamed_eq : renamed s = s ↔ hides s required = false := by
  refine ⟨fun h => ?_, renamed_of_not_hides⟩
  have hr := @hides_renamed s required (by decide) (by decide)
  rw [h] at hr
  rw [hr]
  rfl

theorem visible_renamed (h : Visible s) : Visible (renamed s) := by
  rw [renamed]
  split_ifs
  · have hh : Visible handled := by decide
    exact List.forall_mem_append.mpr ⟨fun c hc => h c (List.mem_of_mem_take hc), hh⟩
  · exact h

theorem length_renamed : (renamed s).length ≤ s.length := by
  rw [renamed]
  split_ifs with h
  · have hle := (hides_iff.mp h).length_le
    have hr : required.length = 30 := by decide
    have hh : handled.length = 29 := by decide
    simp only [List.length_cons, List.length_append, List.length_take] at hle ⊢
    omega
  · exact Nat.le_refl _

-- By induction on the quotes of the value, as in the search for a name.
theorem marked_value (hp : Visible s) (ht : ∀ c ∈ t.head?, c ≠ 99 ∧ c ≠ 115)
    (hc : t.head? ≠ some 58) :
    marked (34 :: (escape s ++ 34 :: t)) = 34 :: (escape (renamed s) ++ 34 :: marked t) := by
  induction hn : s.length using Nat.strongRecOn generalizing s
  case ind n hi =>
    by_cases hq : 34 ∈ s
    · obtain ⟨u, v, rfl, hu⟩ := List.eq_append_cons_of_mem hq
      have hne {key : CString} (hk : 92 ∉ key) : escape u ++ [92] ≠ key := by
        rintro rfl
        exact hk (by simp)
      have hlt : v.length < n := by
        rw [← hn, List.length_append, List.length_cons]
        omega
      rw [escape_split, List.append_assoc (_ ++ _), List.cons_append,
        marked_segment (quote_notMem_escape_snoc hu) (.inl (hne (by decide))), if_neg (hne (by decide)),
        hi _ hlt hp.suffix.tail rfl, renamed_split, escape_split]
      simp
    · have hr := @escape_eq_name s required hp (by decide)
      rw [marked_segment (quote_mem_escape.not.mpr hq) (.inr hc)]
      simp only [hr]
      split_ifs with he
      · have hh : escape handled = handled := by decide
        rw [he, renamed_required, hh]
      · have hne : hides s required = false := by
          rw [Bool.eq_false_iff, Ne, hides_of_notMem hq]
          exact he
        rw [marked_quote ht, renamed_of_not_hides hne]

-- A text that starts with punctuation, as the text behind a token does.
def IsGap (t : CString) : Prop :=
  ∃ c ∈ t.head?, c ∈ [44, 58, 91, 93, (125 : UInt8)]

theorem IsGap.head (h : IsGap t) : ∀ c ∈ t.head?, c ≠ 99 ∧ c ≠ 115 := by
  obtain ⟨d, hd, hm⟩ := h
  intro c hc
  obtain rfl : d = c := Option.mem_unique hd hc
  simp only [List.mem_cons, List.not_mem_nil, or_false] at hm
  rcases hm with rfl | rfl | rfl | rfl | rfl <;> decide

theorem isGap_of_isPunctuation (h : isPunctuation s) : IsGap (s ++ t) := by
  simp only [isPunctuation, Bool.and_eq_true, Option.any_eq_true] at h
  obtain ⟨-, c, hc, hm⟩ := h
  refine ⟨c, ?_, by simpa using hm⟩
  obtain ⟨s, rfl⟩ := List.head?_eq_some_iff.mp hc
  rfl

theorem isGap_tokens {ts : List (CString × Json.Token)} (h : IsJson ts) (ht : IsGap t) :
    IsGap (tokens ts t) := by
  cases h
  case nil => exact ht
  case key _ _ _ hg _ _ =>
    rw [tokens_key]
    exact isGap_of_isPunctuation hg
  case val _ _ _ hg _ =>
    rw [tokens_val]
    exact isGap_of_isPunctuation hg

-- No value is followed by a colon.
def Apart : List (CString × Json.Token) → CString → Prop
  | [], _                  => True
  | (_, .name _) :: ts, t  => Apart ts t
  | (_, .value _) :: ts, t => (tokens ts t).head? ≠ some 58 ∧ Apart ts t

theorem Apart.append {ts us : List (CString × Json.Token)} :
    Apart (ts ++ us) t ↔ Apart ts (tokens us t) ∧ Apart us t := by
  induction ts
  case nil => exact (and_iff_right trivial).symm
  case cons u ts hi =>
    obtain ⟨_, _ | _⟩ := u
    · exact hi
    · rw [List.cons_append, Apart, Apart, hi, tokens_append, and_assoc]

theorem Apart.of_separated {ts : List (CString × Json.Token)} (h : Separated ts t) : Apart ts t := by
  induction ts
  case nil => trivial
  case cons u ts hi =>
    obtain ⟨_, _ | _⟩ := u
    · exact hi h
    · refine ⟨?_, hi h.right⟩
      rcases h.left with he | he
      all_goals
        rw [he]
        decide

-- Tokens without the status are marked one by one.
theorem marked_tokens {ts : List (CString × Json.Token)} (h : IsJson ts) (ha : Apart ts t) (ht : IsGap t)
    (hs : ofString "status" ∉ names ts) (hw : ofString "wait_user_action" ∉ names ts) :
    marked (tokens ts t) = tokens (markAll ts) (marked t) := by
  induction h
  case nil => rfl
  case key glue name ts hg hn hj hi =>
    rw [names_key, List.mem_cons, not_or] at hs hw
    have hgap := isGap_tokens hj ht
    have hglue : 34 ∉ glue := (isGlue_of_isPunctuation hn hg).no_quote
    rw [tokens_key, marked_append hglue,
      marked_segment (isName_word hn).no_quote (.inl (Ne.symm hs.left)), marked_quote hgap.head,
      hi ha hs.right hw.right]
    simp only [markAll, List.map_cons, key, mark, if_neg (Ne.symm hw.left), tokens]
    split_ifs <;> simp [Token.render]
  case val glue value ts hg hj hi =>
    rw [names_val] at hs hw
    have hgap := isGap_tokens hj ht
    have hglue : 34 ∉ glue := (isGlue_of_isPunctuation (rfl : isWord []) hg).no_quote
    rw [tokens_val, marked_append hglue, ← escape_visible, marked_value visible_visible hgap.head ha.left,
      hi ha.right hs hw]
    simp [markAll, val, mark, tokens, Token.render]

theorem markAll_append {ts us : List (CString × Json.Token)} :
    markAll (ts ++ us) = markAll ts ++ markAll us :=
  List.map_append

theorem markAll_val {glue value : CString} {ts : List (CString × Json.Token)} :
    markAll (val glue value :: ts) = val glue (renamed (visible value)) :: markAll ts := by
  have hv := (visible_renamed (@visible_visible value)).visible_eq
  simp only [markAll, List.map_cons, val, mark, hv]

theorem isJson_markAll {ts : List (CString × Json.Token)} (h : IsJson ts) : IsJson (markAll ts) := by
  induction h
  case nil => exact .nil
  case key hg hn _ hi =>
    refine .key hg ?_ hi
    split_ifs
    · decide
    · decide
    · exact hn
  case val hg _ hi =>
    rw [markAll_val]
    exact .val hg hi

theorem head_markAll {ts : List (CString × Json.Token)} :
    (tokens (markAll ts) t).head? = (tokens ts t).head? := by
  rcases ts with _ | ⟨⟨glue, token⟩, ts⟩
  · rfl
  · cases glue <;> rfl

theorem isEnd_markAll {ts : List (CString × Json.Token)} (h : IsEnd (tokens ts t)) :
    IsEnd (tokens (markAll ts) t) := by
  rwa [IsEnd, head_markAll]

-- Nothing is taken for the name of the changes any more.
theorem behind_required {ts : List (CString × Json.Token)} : behind required (markAll ts) = none := by
  refine behind_of_not_hides fun t ht => ?_
  obtain ⟨⟨glue, name | value⟩, -, rfl⟩ := List.mem_map.mp ht
  · simp only [mark, Token.hides, decide_eq_false_iff_not]
    split_ifs with hr
    · decide
    · decide
    · exact hr
  · exact (hides_renamed (by decide) (by decide)).trans rfl

-- The names that marking neither replaces nor writes.
def IsOther (name : CString) : Prop :=
  name ∉ [required, handled, ofString "wait_user_action", "pre_print"]

instance (name : CString) : Decidable (IsOther name) :=
  inferInstanceAs (Decidable (name ∉ _))

section

variable {name : CString} {size : Nat} {ts us : List (CString × Json.Token)}
variable (hn : IsField name) (ho : IsOther name)

include hn ho in
theorem hides_mark {token : Token} : (mark token).hides name = token.hides name := by
  simp only [IsOther, List.mem_cons, List.not_mem_nil, or_false, not_or] at ho
  obtain ⟨hr, hh, hw, hp⟩ := ho
  cases token
  case name s =>
    simp only [mark, Token.hides]
    split_ifs with h h'
    · rw [h, decide_eq_false (Ne.symm hh), decide_eq_false (Ne.symm hr)]
    · rw [h', decide_eq_false (Ne.symm hp), decide_eq_false (Ne.symm hw)]
    · rfl
  case value s =>
    rw [mark, Token.hides, hides_renamed (isName_word hn.word).no_quote hh, decide_eq_true hr]
    rfl

include hn ho in
theorem behind_markAll : behind name (markAll ts) = (behind name ts).map markAll := by
  induction ts
  case nil => rfl
  case cons t ts hi =>
    have h := @hides_mark name hn ho t.2
    simp only [markAll, List.map_cons, behind, h] at hi ⊢
    rw [hi]
    split_ifs <;> rfl

variable (hl : name.length < 126) (hj : IsJson ts) (ht : 34 ∉ t)

include hn hl hj ht in
theorem getValue_text : getValue (tokens ts t) name size =
    match behind name ts with
    | none    => (-1, [])
    | some us => readValue (tokens us t) size :=
  getValue_tokens (isName_word hn.word) hl (hj.isTokens hn.word) ht

include hn ho hl hj ht in
theorem getValue_marked : getValue (tokens (markAll ts) t) name size =
    match behind name ts with
    | none    => (-1, [])
    | some us => readValue (tokens (markAll us) t) size := by
  rw [getValue_text hn hl (isJson_markAll hj) ht, behind_markAll hn ho]
  cases behind name ts <;> rfl

include hn ho hl hj ht in
-- A field that is not there, or that a value is taken for, is read as before.
theorem getValue_same (h : ∀ us, behind name ts = some us → IsEnd (tokens us t)) :
    getValue (tokens (markAll ts) t) name size = getValue (tokens ts t) name size := by
  rw [getValue_marked hn ho hl hj ht, getValue_text hn hl hj ht]
  rcases hb : behind name ts with _ | us
  · rfl
  · have he := h us hb
    exact (readValue_end (isEnd_markAll he)).trans (readValue_end he).symm

include hn ho hl hj ht in
-- A value is read as before unless it is taken for the name of the changes.
theorem getValue_same_iff {value : CString} (hs : value.length < size)
    (h : behind name ts = some (val (bare []) value :: us)) :
    (getValue (tokens (markAll ts) t) name size).2 = (getValue (tokens ts t) name size).2 ↔
      hides (visible value) required = false := by
  have hv := visible_renamed (@visible_visible value)
  have hlen : (renamed (visible value)).length < size :=
    Nat.lt_of_le_of_lt length_renamed (Nat.lt_of_le_of_lt (List.length_filter_le _ _) hs)
  rw [getValue_marked hn ho hl hj ht, getValue_text hn hl hj ht, h]
  dsimp only
  rw [markAll_val, readValue_val hs, readValue_val hlen, hv.visible_eq, renamed_eq]

include hn ho hl hj ht in
theorem getValue_of_hidden {front back : List (CString × Json.Token)} (hts : ts = front ++ back)
    (hb : behind name front = some us) (h : IsEnd (tokens us (tokens back t))) :
    getValue (tokens (markAll ts) t) name size = getValue (tokens ts t) name size := by
  refine getValue_same hn ho hl hj ht fun ws hw => ?_
  rw [hts, behind_append, hb, Option.map_some, Option.some_or, Option.some.injEq] at hw
  rwa [← hw, tokens_append]

include hn ho hl hj ht in
-- A field behind tokens that may hide it.
theorem getValue_field_iff {front back : List (CString × Json.Token)} {glue value : CString}
    (hts : ts = front ++ key glue name :: val (bare []) value :: back) (hs : value.length < size)
    (h : ∀ us, behind name front = some us →
      IsEnd (tokens us (tokens (key glue name :: val (bare []) value :: back) t))) :
    (getValue (tokens (markAll ts) t) name size).2 = (getValue (tokens ts t) name size).2 ↔
      (behind name front).isSome ∨ hides (visible value) required = false := by
  rcases hb : behind name front with _ | us
  · have hts' : behind name ts = some (val (bare []) value :: back) := by
      rw [hts, behind_append, hb, behind_self]
      rfl
    rw [getValue_same_iff hn ho hl hj ht hs hts']
    simp
  · rw [getValue_of_hidden hn ho hl hj ht hts hb (h us hb)]
    exact iff_of_true rfl (.inl rfl)

end

end

end PendingJobFile

namespace PendingJob

open PendingJobFile

section

variable {job : PendingJob} {line : CString} {now : Nat}

-- The tokens of a file with changes behind those of the first text, with or without a tracker.
def conflictTokens (job : PendingJob) : List (CString × Json.Token) :=
  (if 0 ≤ job.tracker then [key (":[]" ++ ",") "deneb_tracker"] else []) ++
    key (if 0 ≤ job.tracker then bare (formatD job.tracker ++ ",") else ":[]" ++ ",")
      "configuration_changes_required" :: job.changesTokens

def conflictTail : CString := "\x7d" ++ "]" ++ "\x7d]\n"

-- The tokens in front of the status, and those behind it in the first text.
def openTokens (job : PendingJob) (now : Nat) : List (CString × Json.Token) :=
  pathTokens job.uuid (job.created now) job.name job.path ++
    if job.cloudJobId.isEmpty then [] else pair "cloud_job_id" job.cloudJobId

def bodyTokens (job : PendingJob) (line : CString) : List (CString × Json.Token) :=
  [key "," "time_total", key zero "time_elapsed", key zero "started",
    key (bare ("false" ++ ",")) "force", key (bare ("false" ++ ",")) "machine_variant",
    val (bare []) job.machineVariant] ++
    (ownerTokens job.owner (printerIdentityGuid line) job.nozzleId true ++
    materialTokens job.materialGuid job.materialBrand job.materialType job.materialColor
      job.machineFamily (isClusterGuid job.materialGuid))

def changedTokens (job : PendingJob) (line : CString) (now : Nat) : List (CString × Json.Token) :=
  job.frontTokens line now ++ (variantTokens job.machineVariant ++ job.conflictTokens)

def conflictText (job : PendingJob) (line : CString) (now : Nat) : CString :=
  tokens (job.changedTokens line now) conflictTail

theorem frontTokens_eq (h : job.hasChanges) :
    job.frontTokens line now = job.openTokens now ++
      (key "," "status" :: key (bare []) "wait_user_action" :: job.bodyTokens line) := by
  simp only [frontTokens, openTokens, bodyTokens, statusTokens, h, if_true, List.append_assoc,
    List.cons_append, List.nil_append]

theorem isJson_open : IsJson (job.openTokens now) := by
  refine isJson_path.append ?_
  split_ifs
  · exact .nil
  · exact isJson_pair rfl

theorem isJson_body : IsJson (job.bodyTokens line) := by
  refine IsJson.append ?_ (isJson_owner.append isJson_material)
  exact .key rfl rfl <| .key rfl rfl <| .key rfl rfl <| .key rfl rfl <| .key rfl rfl <| .val rfl .nil

theorem isJson_conflict : IsJson job.conflictTokens := by
  rw [conflictTokens]
  split_ifs with ht
  · exact .key rfl rfl (.key (isPunctuation_tracker ht) rfl isJson_changes)
  · exact .key rfl rfl isJson_changes

theorem separated_conflict : Separated job.conflictTokens conflictTail := by
  rw [conflictTokens]
  split_ifs
  · exact separated_key (separated_key (separated_changes (.inr rfl)))
  · exact separated_key (separated_changes (.inr rfl))

theorem apart_variant {rest : CString} : Apart (variantTokens job.machineVariant) rest :=
  ⟨by rw [tokens_key]; exact of_decide_eq_true rfl, trivial⟩

-- The status is among the first tokens only once.
theorem names_open {name : CString} (h : name ∈ [ofString "status", "wait_user_action"]) :
    name ∉ names (job.openTokens now) := by
  have hn : names (job.openTokens now) ⊆
      [ofString "uuid", "created_at", "name", "path", "cloud_job_id"] := by
    rw [openTokens, names_append]
    cases job.cloudJobId.isEmpty
    all_goals simp [pathTokens, pair, names_key, names_val, names_nil]
  intro hm
  have hs := hn hm
  revert hs
  simp only [List.mem_cons, List.not_mem_nil, or_false] at h
  rcases h with rfl | rfl <;> decide

theorem names_body {name : CString} (h : name ∈ [ofString "status", "wait_user_action"]) :
    name ∉ names (job.bodyTokens line) := by
  have hn : ∀ name ∈ [ofString "status", "wait_user_action"], name ∉ names (job.bodyTokens line) := by
    rw [bodyTokens, names_append, names_append, ownerTokens, materialTokens]
    cases isClusterGuid job.materialGuid
    all_goals
      simp only [pair, names_key, names_val, names_nil, if_true, if_false,
        Bool.false_eq_true, List.cons_append, List.nil_append]
      decide +kernel
  exact hn name h

theorem names_conflict {name : CString} (h : name ∈ [ofString "status", "wait_user_action"]) :
    name ∉ names (variantTokens job.machineVariant ++ job.conflictTokens) := by
  have hn : name ∉ [ofString "type_of_change", "index", "origin_id", "origin_name", "target_id",
      "target_name"] ∧ name ≠ "impediments_to_printing" ∧ name ≠ "deneb_tracker" ∧
      name ≠ "configuration_changes_required" ∧ name ≠ "material_change" ∧
      name ≠ "print_core_change" := by
    simp only [List.mem_cons, List.not_mem_nil, or_false] at h
    rcases h with rfl | rfl <;> decide +kernel
  obtain ⟨hn, himpediments, htracker, hchanges, hm, hc⟩ := hn
  have hv : names (variantTokens job.machineVariant) = [ofString "impediments_to_printing"] := rfl
  rw [names_append, hv, conflictTokens, names_append, names_key]
  split_ifs
  all_goals
    simp [names_key, names_nil, names_changes hn, himpediments, htracker, hchanges, hm, hc]

theorem isJson_changed : IsJson (job.changedTokens line now) := by
  have h := (isJson_head.append isJson_conflict : IsJson (job.headTokens line now ++ job.conflictTokens))
  rwa [headTokens_eq, List.append_assoc] at h

theorem apart_changed : Apart (job.changedTokens line now) conflictTail := by
  rw [changedTokens, Apart.append, Apart.append]
  exact ⟨.of_separated (separated_front (.inl rfl)), apart_variant, .of_separated separated_conflict⟩

theorem quote_notMem_tail : 34 ∉ conflictTail := by
  decide

theorem marked_text (h : job.hasChanges) :
    marked (job.conflictText line now) =
      tokens (markAll (job.changedTokens line now)) conflictTail := by
  have htail : marked conflictTail = conflictTail := by
    have hm := marked_append quote_notMem_tail (t := [])
    rwa [List.append_nil] at hm
  have hgap : IsGap conflictTail := ⟨125, rfl, by decide⟩
  have hback : IsJson (job.bodyTokens line ++
      (variantTokens job.machineVariant ++ job.conflictTokens)) :=
    isJson_body.append (isJson_variant.append isJson_conflict)
  have hapart := @apart_changed job line now
  rw [changedTokens, frontTokens_eq h, List.append_assoc, Apart.append] at hapart
  obtain ⟨hopen, hapart⟩ := hapart
  have hnames {name : CString} (hm : name ∈ [ofString "status", "wait_user_action"]) :
      name ∉ names (job.bodyTokens line ++
        (variantTokens job.machineVariant ++ job.conflictTokens)) := by
    rw [names_append, List.mem_append, not_or]
    exact ⟨names_body hm, names_conflict hm⟩
  have hrest := marked_tokens hback hapart hgap (hnames (by decide)) (hnames (by decide))
  rw [htail] at hrest
  have hmid : IsGap (tokens (key "," "status" :: key (bare []) "wait_user_action" ::
      (job.bodyTokens line ++ (variantTokens job.machineVariant ++ job.conflictTokens)))
      conflictTail) := ⟨44, rfl, by decide⟩
  rw [conflictText, changedTokens, frontTokens_eq h, List.append_assoc, tokens_append,
    marked_tokens isJson_open hopen hmid (names_open (by decide)) (names_open (by decide))]
  rw [List.cons_append, List.cons_append, tokens_key, tokens_key, marked_append (by decide)]
  have hstatus := @marked_status (tokens (job.bodyTokens line ++
    (variantTokens job.machineVariant ++ job.conflictTokens)) conflictTail)
  simp only [bare, List.cons_append, List.nil_append] at hstatus ⊢
  rw [hstatus, hrest]
  simp only [markAll, List.map_append, List.map_cons, tokens_append, key, mark, tokens, Token.render]
  rfl

-- The same job as it is written: the identity is a GUID, and the control characters of the cloud
-- job are dropped.
def normal (job : PendingJob) : PendingJob where
  __ := job
  uuid       := clusterJobUuidOrDefault job.uuid
  cloudJobId := visible job.cloudJobId

theorem normal_uuid : isClusterGuid job.normal.uuid := by
  have h {uuid : CString} : isClusterGuid (clusterJobUuidOrDefault uuid) := by
    rw [clusterJobUuidOrDefault]
    split_ifs with h
    · exact h
    · decide
  exact h

theorem fits_normal (h : job.Fits) : job.normal.Fits where
  __ := h
  uuid := by
    rw [isClusterGuid_length normal_uuid]
    decide
  cloudJobId := Nat.lt_of_le_of_lt (List.length_filter_le _ _) h.cloudJobId

theorem serialize_normal {size : Nat} (h : job.Fits) :
    job.normal.serialize line now size = job.serialize line now size := by
  have huuid : clusterJobUuidOrDefault job.normal.uuid = clusterJobUuidOrDefault job.uuid := by
    rw [clusterJobUuidOrDefault, if_pos normal_uuid, normal]
  have hcloud : escapeString job.normal.cloudJobId 192 = escapeString job.cloudJobId 192 := by
    have hl := h.cloudJobId
    have hn := (fits_normal h).cloudJobId
    rw [escapeString_eq (by omega), escapeString_eq (by omega)]
    exact escape_visible
  have hhead : job.normal.head line now = job.head line now := by
    rw [head, head, huuid, hcloud]
    rfl
  rw [serialize, serialize, hhead]
  rfl

-- A text of a job with changes is the text of its tokens.
theorem serialize_changed {size : Nat} {json : CString} (hf : job.Fits) (hu : isClusterGuid job.uuid)
    (hc : Visible job.cloudJobId) (hh : job.hasChanges)
    (h : job.serialize line now size = some json) :
    json = job.conflictText line now ∧ json.length < size := by
  have hend : (ofString "\x7d]\n").length = 3 := rfl
  have hchanges := @changes_append job ("\x7d]\n") hf hh
  simp only [bare] at hchanges
  rw [conflictText, changedTokens, ← List.append_assoc, ← headTokens_eq, tokens_append, conflictTokens]
  rw [serialize] at h
  by_cases hp : size = 0 ∨ job.path.isEmpty
  · rw [if_pos hp] at h
    contradiction
  rw [if_neg hp, changes_isEmpty hf, hh] at h
  by_cases ht : 0 ≤ job.tracker
  · simp only [ht, if_true, Bool.not_true, Bool.false_eq_true, if_false, Option.bind_eq_bind,
      Option.bind_eq_some_iff] at h
    obtain ⟨out, hout, out', hout', out'', hout'', h⟩ := h
    obtain ⟨rfl, -⟩ := appendTo_eq_some hout
    obtain ⟨rfl, -⟩ := appendTo_eq_some hout'
    obtain ⟨rfl, -⟩ := appendTo_eq_some hout''
    split_ifs at h with hl
    injection h with h
    rw [← h]
    refine ⟨?_, by rw [List.length_append, hend]; omega⟩
    simp only [List.nil_append, List.append_assoc]
    rw [head_eq hf hu hc]
    simp only [ht, if_true, conflictTail, bareField_append, tokens_key, bare, List.cons_append,
      List.nil_append, List.append_assoc, hchanges]
  · simp only [ht, Bool.not_true, Bool.false_eq_true, if_false, Option.bind_eq_bind,
      Option.bind_eq_some_iff, Option.some.injEq, exists_eq_left'] at h
    obtain ⟨out, hout, out', hout', h⟩ := h
    obtain ⟨rfl, -⟩ := appendTo_eq_some hout
    obtain ⟨rfl, -⟩ := appendTo_eq_some hout'
    split_ifs at h with hl
    injection h with h
    rw [← h]
    refine ⟨?_, by rw [List.length_append, hend]; omega⟩
    simp only [List.nil_append, List.append_assoc]
    rw [head_eq hf hu hc]
    simp only [ht, if_false, conflictTail, bareField_append, tokens_key, bare,
      List.nil_append, List.append_assoc, hchanges]

-- The texts of the first change that is listed.
def originId (job : PendingJob) : CString :=
  if job.materialChangeRequired then job.originMaterialGuid else job.originNozzleId

def originName (job : PendingJob) : CString :=
  if job.materialChangeRequired then job.originNameOrGuid else job.originNozzleId

def targetId (job : PendingJob) : CString :=
  if job.materialChangeRequired then job.materialGuid else job.nozzleId

def targetName (job : PendingJob) : CString :=
  if job.materialChangeRequired then job.targetNameOrType else job.nozzleId

theorem changesTokens_eq (h : job.hasChanges) :
    ∃ glue kind rest, kind ∈ [ofString "material_change", "print_core_change"] ∧
      job.changesTokens =
        changeTokens glue kind job.originId job.originName job.targetId job.targetName ++ rest := by
  rw [changesTokens, originId, originName, targetId, targetName]
  cases hm : job.materialChangeRequired
  · have hc : job.printCoreChangeRequired := by
      rw [hasChanges, changeCount, hm] at h
      cases hc : job.printCoreChangeRequired
      case true  => rfl
      case false => simp [hc] at h
    rw [hc]
    exact ⟨_, "print_core_change", [], by decide, rfl⟩
  · exact ⟨_, "material_change", _, by decide, rfl⟩

section

variable {name : CString} {us xs : List (CString × Json.Token)} {t : CString}
variable (hn : IsField name) (hfront : name ∉ names (job.frontTokens line now))
  (himpediments : ofString "impediments_to_printing" ≠ name) (hx : name ∉ names xs)

include hfront himpediments hx in
-- A value in front of the field that is taken for it is followed by the end of the value.
theorem isEnd_behind (hs : Separated xs t)
    (hb : behind name (job.frontTokens line now ++ (variantTokens job.machineVariant ++ xs)) = some us) :
    IsEnd (tokens us t) := by
  rw [behind_append] at hb
  rcases hf : behind name (job.frontTokens line now) with _ | ws
  · have hv : hides (visible job.machineVariant) name = false := by
      rw [Bool.eq_false_iff]
      intro hv
      have hmem : visible job.machineVariant ∈ values (job.frontTokens line now) := by
        simp [frontTokens, values_append, values_statusTokens]
      have hsome := behind_isSome_iff.mpr (.inr ⟨_, hmem, hv⟩)
      rw [hf] at hsome
      contradiction
    rw [hf, variantTokens, List.cons_append, List.cons_append, List.nil_append, behind_val, hv,
      behind_ne himpediments] at hb
    exact hs.behind hx hb
  · rw [hf, Option.map_some, Option.some_or, Option.some.injEq] at hb
    rw [← hb, tokens_append]
    exact (separated_front (.inl rfl)).behind hfront hf

include hn hfront himpediments hx in
theorem behind_isSome_front (hu : isClusterGuid job.uuid) :
    (behind name (job.frontTokens line now ++ (variantTokens job.machineVariant ++ xs))).isSome ↔
      Hides name job.texts ∨ ∃ s ∈ values xs, hides s name := by
  have hv : (∃ s, s = visible job.machineVariant ∧ hides s name) → Hides name job.texts := by
    rintro ⟨s, rfl, hs⟩
    exact ⟨job.machineVariant, by simp [texts], hs⟩
  have hnv : names (variantTokens job.machineVariant) = [ofString "impediments_to_printing"] := rfl
  have hvv : values (variantTokens job.machineVariant) = [visible job.machineVariant] := rfl
  rw [behind_isSome_iff]
  simp only [names_append, values_append, List.mem_append, hfront, hx, hnv, hvv, List.mem_singleton,
    himpediments.symm, false_or, or_false, or_and_right, exists_or, hides_front hn hu]
  rw [← or_assoc, or_iff_left_of_imp hv]

end

-- The tokens in front of the name of the first material or nozzle.
def leadTokens (job : PendingJob) (glue kind : CString) : List (CString × Json.Token) :=
  (if 0 ≤ job.tracker then [key (":[]" ++ ",") "deneb_tracker"] else []) ++
    [key (if 0 ≤ job.tracker then bare (formatD job.tracker ++ ",") else ":[]" ++ ",")
      "configuration_changes_required", key glue "type_of_change", key (bare []) kind,
      key "," "index", key zero "origin_id", val (bare []) job.originId]

theorem values_lead {glue kind : CString} : values (job.leadTokens glue kind) = [visible job.originId] := by
  rw [leadTokens]
  split_ifs <;> rfl

theorem names_lead {glue kind : CString} : names (job.leadTokens glue kind) ⊆
    [ofString "deneb_tracker", "configuration_changes_required", "type_of_change", kind, "index",
      "origin_id"] := by
  rw [leadTokens]
  split_ifs <;> simp [names_key, names_val, names_nil]

theorem separated_lead {glue kind t : CString} (h : IsEnd t) : Separated (job.leadTokens glue kind) t := by
  rw [leadTokens]
  split_ifs
  · exact separated_key <| separated_key <| separated_key <| separated_key <| separated_key <|
      separated_key <| separated_val h trivial
  · exact separated_key <| separated_key <| separated_key <| separated_key <| separated_key <|
      separated_val h trivial

theorem changedTokens_eq (h : job.hasChanges) :
    ∃ glue kind rest, kind ∈ [ofString "material_change", "print_core_change"] ∧
      job.changedTokens line now =
        job.frontTokens line now ++ (variantTokens job.machineVariant ++ (job.leadTokens glue kind ++
          (pair "origin_name" job.originName ++ (pair "target_id" job.targetId ++
          (pair "target_name" job.targetName ++ rest))))) := by
  obtain ⟨glue, kind, rest, hk, hc⟩ := changesTokens_eq h
  refine ⟨glue, kind, rest, hk, ?_⟩
  rw [changedTokens, conflictTokens, leadTokens, hc]
  simp only [changeTokens, List.append_assoc, List.cons_append, List.nil_append]

theorem notMem_others {name : CString} (h : name ∈ [ofString "origin_name", "target_name", "deneb_tracker"]) :
    name ∉ names (job.frontTokens line now) := by
  simp only [List.mem_cons, List.not_mem_nil, or_false] at h
  rcases h with rfl | rfl | rfl
  all_goals exact notMem_front (notMem_headNames _ (by simp)) (.inr (by decide))

section

variable (hh : job.hasChanges) (hu : isClusterGuid job.uuid)

-- The value that is read of a field of the file, before and after it is marked.
def before (job : PendingJob) (line : CString) (now : Nat) (name : CString) (size : Nat) : Int × CString :=
  getValue (job.conflictText line now) name size

def after (job : PendingJob) (line : CString) (now : Nat) (name : CString) (size : Nat) : Int × CString :=
  getValue (tokens (markAll (job.changedTokens line now)) conflictTail) name size

include hu in
-- A field of a change.
theorem change_iff {name value : CString} {size : Nat} {xs rest : List (CString × Json.Token)}
    (hn : IsField name) (ho : IsOther name) (hl : name.length < 126)
    (hmem : name ∈ [ofString "origin_name", "target_name", "deneb_tracker"])
    (himpediments : ofString "impediments_to_printing" ≠ name) (hx : name ∉ names xs)
    (hs : Separated xs (tokens (key "," name :: val (bare []) value :: rest) conflictTail))
    (hts : job.changedTokens line now = job.frontTokens line now ++
      (variantTokens job.machineVariant ++ (xs ++ key "," name :: val (bare []) value :: rest)))
    (hv : value.length < size) :
    (job.after line now name size).2 = (job.before line now name size).2 ↔
      (Hides name job.texts ∨ ∃ s ∈ values xs, hides s name) ∨ hides (visible value) required = false := by
  have hfront := @notMem_others job line now name hmem
  have hsplit : job.changedTokens line now =
      (job.frontTokens line now ++ (variantTokens job.machineVariant ++ xs)) ++
        key "," name :: val (bare []) value :: rest := by
    rw [hts]
    simp only [List.append_assoc]
  rw [after, before, conflictText, getValue_field_iff hn ho hl isJson_changed quote_notMem_tail hsplit hv
    fun us => isEnd_behind hfront himpediments hx hs, behind_isSome_front hn hfront himpediments hx hu]

theorem notMem_lead {name glue kind : CString} (hk : kind ∈ [ofString "material_change", "print_core_change"])
    (hname : name ∈ [ofString "origin_name", "target_name"]) : name ∉ names (job.leadTokens glue kind) := by
  intro hm
  have hsub := names_lead hm
  revert hsub
  simp only [List.mem_cons, List.not_mem_nil, or_false] at hk hname
  rcases hk with rfl | rfl
  all_goals rcases hname with rfl | rfl <;> decide

include hh hu in
theorem origin_iff (hl : job.originName.length < 96) :
    (job.after line now "origin_name" 96).2 = (job.before line now "origin_name" 96).2 ↔
      Hides "origin_name" (job.texts ++ [job.originId]) ∨ ¬ Hides required [job.originName] := by
  obtain ⟨glue, kind, rest, hk, hts⟩ := @changedTokens_eq job line now hh
  rw [change_iff hu (by decide) (by decide) (by decide) (by decide) (by decide)
    (notMem_lead hk (by decide)) (separated_lead (.inl rfl)) hts hl, values_lead]
  simp [Hides, or_and_right, exists_or]

include hh hu in
theorem target_iff (hl : job.targetName.length < 96) :
    (job.after line now "target_name" 96).2 = (job.before line now "target_name" 96).2 ↔
      Hides "target_name" (job.texts ++ [job.originId, job.originName, job.targetId]) ∨
        ¬ Hides required [job.targetName] := by
  obtain ⟨glue, kind, rest, hk, hts⟩ := @changedTokens_eq job line now hh
  have hx : ofString "target_name" ∉ names (job.leadTokens glue kind ++
      (pair "origin_name" job.originName ++ pair "target_id" job.targetId)) := by
    rw [names_append, List.mem_append, not_or]
    exact ⟨notMem_lead hk (by decide), by simp only [pair, names_append, names_key, names_val]; decide⟩
  have hsplit : job.changedTokens line now = job.frontTokens line now ++
      (variantTokens job.machineVariant ++ (job.leadTokens glue kind ++
        (pair "origin_name" job.originName ++ pair "target_id" job.targetId) ++
          key "," "target_name" :: val (bare []) job.targetName :: rest)) := by
    rw [hts]
    simp only [pair, List.append_assoc, List.cons_append, List.nil_append]
  have hs : Separated (job.leadTokens glue kind ++
      (pair "origin_name" job.originName ++ pair "target_id" job.targetId))
      (tokens (key "," "target_name" :: val (bare []) job.targetName :: rest) conflictTail) :=
    (separated_lead (.inl rfl)).append ((separated_pair (.inl rfl)).append (separated_pair (.inl rfl)))
  have hvalues : values (pair "origin_name" job.originName ++ pair "target_id" job.targetId) =
      [visible job.originName, visible job.targetId] := rfl
  rw [change_iff hu (by decide) (by decide) (by decide) (by decide) (by decide) hx hs hsplit hl,
    values_append, values_lead, hvalues]
  simp [Hides, or_and_right, exists_or]

-- A field of the first text.
theorem path_iff {name value : CString} {size : Nat} {front rest : List (CString × Json.Token)}
    (hn : IsField name) (ho : IsOther name) (hl : name.length < 126) (hname : name ∉ names front)
    (hs : Separated front (tokens (key "," name :: val (bare []) value :: rest) conflictTail))
    (hts : job.changedTokens line now = front ++ key "," name :: val (bare []) value :: rest)
    (hv : value.length < size) :
    (job.after line now name size).2 = (job.before line now name size).2 ↔
      (∃ s ∈ values front, hides s name) ∨ hides (visible value) required = false := by
  rw [after, before, conflictText, getValue_field_iff hn ho hl isJson_changed quote_notMem_tail hts hv
    fun us => hs.behind hname, behind_isSome_iff, or_iff_right hname]

theorem changedTokens_path : ∃ rest, job.changedTokens line now =
    pathTokens job.uuid (job.created now) job.name job.path ++
      ((if job.cloudJobId.isEmpty then [] else pair "cloud_job_id" job.cloudJobId) ++
        key "," "status" :: rest) := by
  rw [changedTokens, frontTokens, statusTokens]
  simp only [List.append_assoc, List.cons_append]
  exact ⟨_, rfl⟩

include hu in
theorem name_iff (hl : job.name.length < 128) :
    (job.after line now "name" 128).2 = (job.before line now "name" 128).2 ↔
      ¬ Hides required [job.name] := by
  obtain ⟨rest, hts⟩ := @changedTokens_path job line now
  have hsplit : job.changedTokens line now = [key "[\x7b" "uuid", val (bare []) job.uuid] ++
      pair "created_at" (job.created now) ++ key "," "name" :: val (bare []) job.name ::
        (pair "path" job.path ++ ((if job.cloudJobId.isEmpty then [] else
          pair "cloud_job_id" job.cloudJobId) ++ key "," "status" :: rest)) := by
    rw [hts]
    simp only [pathTokens, pair, List.cons_append, List.nil_append]
  have hvalues : values ([key "[\x7b" "uuid", val (bare []) job.uuid] ++
      pair "created_at" (job.created now)) = [visible job.uuid, visible (job.created now)] := rfl
  have hn : IsField "name" := by decide
  have hnames : ofString "name" ∉ names ([key "[\x7b" "uuid", val (bare []) job.uuid] ++
      pair "created_at" (job.created now)) := by
    simp only [pair, names_append, names_key, names_val]
    decide
  rw [path_iff hn (by decide) (by decide) hnames (separated_key <| separated_val (.inl rfl) <|
    separated_pair (.inl rfl)) hsplit hl, hvalues]
  simp [Hides, hides_guid hn hu, hides_created hn]

include hu in
theorem path_field_iff (hl : job.path.length < 1024) :
    (job.after line now "path" 1024).2 = (job.before line now "path" 1024).2 ↔
      Hides "path" [job.name] ∨ ¬ Hides required [job.path] := by
  obtain ⟨rest, hts⟩ := @changedTokens_path job line now
  have hsplit : job.changedTokens line now = [key "[\x7b" "uuid", val (bare []) job.uuid] ++
      pair "created_at" (job.created now) ++ pair "name" job.name ++
        key "," "path" :: val (bare []) job.path :: ((if job.cloudJobId.isEmpty then [] else
          pair "cloud_job_id" job.cloudJobId) ++ key "," "status" :: rest) := by
    rw [hts]
    simp only [pathTokens, pair, List.cons_append, List.nil_append]
  have hvalues : values ([key "[\x7b" "uuid", val (bare []) job.uuid] ++
      pair "created_at" (job.created now) ++ pair "name" job.name) =
      [visible job.uuid, visible (job.created now), visible job.name] := rfl
  have hn : IsField "path" := by decide
  have hnames : ofString "path" ∉ names ([key "[\x7b" "uuid", val (bare []) job.uuid] ++
      pair "created_at" (job.created now) ++ pair "name" job.name) := by
    simp only [pair, names_append, names_key, names_val]
    decide
  have hs : Separated ([key "[\x7b" "uuid", val (bare []) job.uuid] ++
      pair "created_at" (job.created now) ++ pair "name" job.name)
      (tokens (key "," "path" :: val (bare []) job.path :: ((if job.cloudJobId.isEmpty then [] else
        pair "cloud_job_id" job.cloudJobId) ++ key "," "status" :: rest)) conflictTail) :=
    separated_key <| separated_val (.inl rfl) <| separated_key <| separated_val (.inl rfl) <|
      separated_pair (.inl rfl)
  rw [path_iff hn (by decide) (by decide) hnames hs hsplit hl, hvalues]
  simp [Hides, hides_guid hn hu, hides_created hn]

-- A field that is not there.
theorem absent_same {name : CString} {size : Nat} (hn : IsField name) (ho : IsOther name)
    (hl : name.length < 126) (hfront : name ∉ names (job.frontTokens line now))
    (himpediments : ofString "impediments_to_printing" ≠ name) (hx : name ∉ names job.conflictTokens) :
    job.after line now name size = job.before line now name size :=
  getValue_same hn ho hl isJson_changed quote_notMem_tail fun _ =>
    isEnd_behind hfront himpediments hx separated_conflict

theorem names_conflictTokens {name : CString}
    (hn : name ∉ [ofString "type_of_change", "index", "origin_id", "origin_name", "target_id",
      "target_name", "configuration_changes_required", "material_change", "print_core_change"])
    (ht : 0 ≤ job.tracker → name ≠ "deneb_tracker") : name ∉ names job.conflictTokens := by
  simp only [List.mem_cons, List.not_mem_nil, or_false, not_or] at hn
  obtain ⟨h₁, h₂, h₃, h₄, h₅, h₆, hchanges, hm, hc⟩ := hn
  have hk : name ∉ [ofString "type_of_change", "index", "origin_id", "origin_name", "target_id",
      "target_name"] := by
    simp [h₁, h₂, h₃, h₄, h₅, h₆]
  rw [conflictTokens, names_append, names_key]
  split_ifs with h
  · simp [names_key, names_nil, names_changes hk, ht h, hchanges, hm, hc]
  · simp [names_nil, names_changes hk, hchanges, hm, hc]

include hu in
theorem cloud_iff (hl : job.cloudJobId.length < 96) :
    (job.after line now "cloud_job_id" 96).2 = (job.before line now "cloud_job_id" 96).2 ↔
      Hides "cloud_job_id" [job.name, job.path] ∨ ¬ Hides required [job.cloudJobId] := by
  have hn : IsField "cloud_job_id" := by decide
  by_cases hc : job.cloudJobId = []
  · have hfront : ofString "cloud_job_id" ∉ names (job.frontTokens line now) :=
      notMem_front (notMem_headNames _ (.head _)) (.inl hc)
    have hr : ¬ Hides required [job.cloudJobId] := by
      rw [hc]
      decide
    rw [absent_same hn (by decide) (by decide) hfront (by decide)
      (names_conflictTokens (by decide) fun _ => by decide)]
    exact iff_of_true rfl (.inr hr)
  · obtain ⟨rest, hts⟩ := @changedTokens_path job line now
    have he : job.cloudJobId.isEmpty = false := List.isEmpty_eq_false_iff.mpr hc
    have hsplit : job.changedTokens line now =
        pathTokens job.uuid (job.created now) job.name job.path ++
          key "," "cloud_job_id" :: val (bare []) job.cloudJobId :: key "," "status" :: rest := by
      rw [hts, he]
      rfl
    have hnames : ofString "cloud_job_id" ∉ names (pathTokens job.uuid (job.created now) job.name
        job.path) := by
      simp only [pathTokens, pair, names_append, names_key, names_val]
      decide
    rw [path_iff hn (by decide) (by decide) hnames (separated_path (.inl rfl)) hsplit hl,
      values_pathTokens]
    simp [Hides, hides_guid hn hu, hides_created hn]

include hu in
theorem uuid_same : (job.after line now "uuid" 64).2 = (job.before line now "uuid" 64).2 := by
  obtain ⟨rest, hts⟩ := @changedTokens_path job line now
  have hl : job.uuid.length < 64 := by
    rw [isClusterGuid_length hu]
    decide
  have hb : ∃ us, behind "uuid" (job.changedTokens line now) = some (val (bare []) job.uuid :: us) := by
    rw [hts, pathTokens]
    simp only [List.append_assoc, List.cons_append]
    exact ⟨_, behind_self⟩
  obtain ⟨us, hb⟩ := hb
  rw [after, before, conflictText, getValue_same_iff (by decide) (by decide) (by decide) isJson_changed
    quote_notMem_tail hl hb]
  exact hides_guid (by decide) hu

theorem tracker_same : job.after line now "deneb_tracker" 64 = job.before line now "deneb_tracker" 64 := by
  have hn : IsField "deneb_tracker" := by decide
  have hfront := @notMem_others job line now (ofString "deneb_tracker") (by decide)
  by_cases ht : 0 ≤ job.tracker
  · have hts : job.changedTokens line now =
        (job.frontTokens line now ++ (variantTokens job.machineVariant ++ [])) ++
          key (":[]" ++ ",") "deneb_tracker" :: key (bare (formatD job.tracker ++ ","))
            "configuration_changes_required" :: job.changesTokens := by
      simp only [changedTokens, conflictTokens, ht, if_true, List.append_assoc, List.cons_append,
        List.nil_append]
    rcases hb : behind "deneb_tracker"
      (job.frontTokens line now ++ (variantTokens job.machineVariant ++ [])) with _ | us
    · have hd : behind "deneb_tracker" (job.changedTokens line now) = some (key (bare (formatD
          job.tracker ++ ",")) "configuration_changes_required" :: job.changesTokens) := by
        rw [hts, behind_append, hb, behind_self]
        rfl
      have hne : formatD job.tracker ≠ [] := by
        rw [formatD, if_neg (by omega)]
        exact digits_ne_nil
      have hread {name : CString} {us : List (CString × Json.Token)} :
          readValue (tokens (key (bare (formatD job.tracker ++ ",")) name :: us) conflictTail) 64 =
            (0, (formatD job.tracker).take 63) := by
        rw [tokens_key, bare, List.cons_append, List.append_assoc]
        exact readValue_token_take (isToken_formatD ht) hne (.inl rfl)
      rw [after, before, conflictText,
        getValue_marked hn (by decide) (by decide) isJson_changed quote_notMem_tail,
        PendingJobFile.getValue_text hn (by decide) isJson_changed quote_notMem_tail, hd]
      exact hread.trans hread.symm
    · have hs {t : CString} : Separated [] t := trivial
      exact getValue_of_hidden hn (by decide) (by decide) isJson_changed quote_notMem_tail hts hb
        (isEnd_behind hfront (by decide) (by simp [names_nil]) hs hb)
  · exact absent_same hn (by decide) (by decide) hfront (by decide)
      (names_conflictTokens (by decide) fun h => absurd h ht)

end

end

section

open JsonText

variable {job : PendingJob} {line rest t : CString} {now : Nat}

-- What stands for a token once it is marked.
def nameText (name : CString) : CString :=
  (mark (.name name)).render

def valueText (value : CString) : CString :=
  (mark (.value (visible value))).render

@[simp] theorem tokens_markAll_key {glue name : CString} {ts : List (CString × Json.Token)} :
    tokens (markAll (key glue name :: ts)) t =
      glue ++ 34 :: (nameText name ++ 34 :: tokens (markAll ts) t) := by
  simp [markAll, tokens, key, nameText]

@[simp] theorem tokens_markAll_val {glue value : CString} {ts : List (CString × Json.Token)} :
    tokens (markAll (val glue value :: ts)) t =
      glue ++ 34 :: (valueText value ++ 34 :: tokens (markAll ts) t) := by
  simp [markAll, tokens, val, valueText]

@[simp] theorem tokens_markAll_nil : tokens (markAll []) t = t := rfl

theorem characters_word {word : CString} (h : isWord word) : Characters word word := by
  refine characters_of_plain fun c hc => ?_
  have hm := isWord_mem h hc
  refine ⟨?_, ?_, ?_⟩
  · rintro rfl
    exact absurd hm (by decide)
  · rintro rfl
    exact notMem_word h (by decide) hc
  · rw [UInt8.le_iff_toNat_le]
    have h32 : (32 : UInt8).toNat = 32 := rfl
    omega

theorem characters_name {name : CString} (h : isWord name) :
    Characters (nameText name) (nameText name) := by
  simp only [nameText, mark, Token.render]
  split_ifs
  · exact characters_word (by decide)
  · exact characters_word (by decide)
  · exact characters_word h

theorem characters_value {value : CString} : Characters (valueText value) (renamed (visible value)) := by
  have hv := (visible_renamed (@visible_visible value)).visible_eq
  have h := @characters_escape (renamed (visible value))
  rwa [hv] at h

theorem text_string {s v : CString} (h : Characters s v) : Text .value (34 :: (s ++ 34 :: t)) t :=
  .string h

theorem text_zero : Text .value (48 :: t) t :=
  .number t (.mk [] (by decide) ⟨⟨by decide, by decide⟩, fun _ => rfl⟩ .none .none)

theorem text_false : Text .value (102 :: 97 :: 108 :: 115 :: 101 :: t) t :=
  @Text.literal [102, 97, 108, 115, 101] t (by decide)

theorem text_pair {name value : CString} (hn : isWord name) (h : Continues rest t) :
    Continues (tokens (markAll (pair name value)) rest) t := by
  have hcomma : ofString "," = [44] := by decide
  simp only [pair, tokens_markAll_key, tokens_markAll_val, tokens_markAll_nil, hcomma, bare,
    List.cons_append, List.nil_append]
  exact h.comma (characters_name hn) (text_string characters_value)

theorem text_path {uuid createdAt name path : CString} (h : Continues rest t) :
    ∃ body, tokens (markAll (pathTokens uuid createdAt name path)) rest = 91 :: 123 :: body ∧
      Text .members body t := by
  have hopen : ofString "[\x7b" = [91, 123] := by decide
  simp only [pathTokens, markAll_append, tokens_append, tokens_markAll_key, tokens_markAll_val, hopen,
    bare, List.cons_append, List.nil_append]
  refine ⟨_, rfl, Continues.members ?_ (characters_name rfl) (text_string characters_value)⟩
  exact text_pair rfl (text_pair rfl (text_pair rfl h))

theorem text_cloud {cloudJobId : CString} (h : Continues rest t) :
    Continues (tokens (markAll (if cloudJobId.isEmpty then [] else pair "cloud_job_id" cloudJobId)) rest)
      t := by
  split_ifs
  · exact h
  · exact text_pair rfl h

theorem text_body {variant : CString} (h : Continues rest t) :
    Continues (tokens (markAll [key "," "status", key (bare []) "wait_user_action",
      key "," "time_total", key zero "time_elapsed", key zero "started",
      key (bare ("false" ++ ",")) "force", key (bare ("false" ++ ",")) "machine_variant",
      val (bare []) variant]) rest) t := by
  have hcomma : ofString "," = [44] := by decide
  have hzero : zero = [58, 48, 44] := by decide
  have hfalse : ofString "false" = [102, 97, 108, 115, 101] := by decide
  simp only [tokens_markAll_key, tokens_markAll_val, tokens_markAll_nil, hcomma, hzero, hfalse,
    bare, List.cons_append, List.nil_append]
  refine Continues.comma ?_ (characters_name rfl) (text_string (characters_name rfl))
  refine Continues.comma ?_ (characters_name rfl) text_zero
  refine Continues.comma ?_ (characters_name rfl) text_zero
  refine Continues.comma ?_ (characters_name rfl) text_false
  refine Continues.comma ?_ (characters_name rfl) text_false
  exact h.comma (characters_name rfl) (text_string characters_value)

-- The members of the extruder, which end with the material, and those behind it.
theorem text_material {guid brand material color family variant : CString} {hasGuid : Bool}
    (h : Continues rest t) :
    ∃ back, Continues (tokens (markAll (materialTokens guid brand material color family hasGuid))
      (tokens (markAll (variantTokens variant)) (58 :: 91 :: 93 :: rest))) (125 :: 93 :: back) ∧
      Continues back t := by
  have hcomma : ofString "," = [44] := by decide
  have hbrace : ofString "\x7b" = [123] := by decide
  have hclose : ofString "\x7d\x7d]," = [125, 125, 93, 44] := by decide
  have hempty : ofString "\x7b\x7d" = [123, 125] := by decide
  have hopen : ofString "[" = [91] := by decide
  have hend : ofString "]," = [93, 44] := by decide
  refine ⟨44 :: 34 :: (nameText "constraints" ++ 34 :: 58 :: 123 :: 125 :: 44 :: 34 ::
    (nameText "compatible_machine_families" ++ 34 :: 58 :: 91 :: 34 :: (valueText family ++ 34 :: 44 ::
      34 :: (valueText variant ++ 34 :: 93 :: 44 :: 34 :: (nameText "impediments_to_printing" ++
        34 :: 58 :: 91 :: 93 :: rest))))), ?_, ?_⟩
  · have hcolor {u : CString} : Continues (tokens (markAll (pair "material" material))
        (tokens (markAll (pair "color" color)) (125 :: u))) (125 :: u) :=
      text_pair rfl (text_pair rfl (.inl rfl))
    unfold materialTokens variantTokens
    cases hasGuid
    all_goals
      simp only [if_true, if_false, Bool.false_eq_true, List.cons_append, List.nil_append,
        List.append_assoc, tokens_markAll_key, tokens_markAll_val, tokens_markAll_nil, hcomma, hbrace,
        hclose, hempty, hopen, hend, bare, markAll_append, tokens_append]
    · exact Continues.comma (.inl rfl) (characters_name rfl) (.to_object
        (hcolor.members (characters_name rfl) (text_string characters_value)))
    · exact Continues.comma (.inl rfl) (characters_name rfl) (.to_object (Continues.members
        (hcolor.comma (characters_name rfl) (text_string characters_value)) (characters_name rfl)
        (text_string characters_value)))
  · refine Continues.comma ?_ (characters_name rfl) (.emptyObject (skip_cons rfl))
    refine Continues.comma ?_ (characters_name rfl) (.to_array (.to_elements (text_string
      characters_value) (.to_element (text_string characters_value))))
    exact h.comma (characters_name rfl) (.emptyArray (skip_cons rfl))

theorem text_owner {owner printerUuid nozzle back : CString} (hr : Continues rest (125 :: 93 :: back))
    (h : Continues back t) :
    Continues (tokens (markAll (ownerTokens owner printerUuid nozzle true)) rest) t := by
  have hcomma : ofString "," = [44] := by decide
  have hbrace : ofString "\x7b" = [123] := by decide
  have hclose : ofString "\x7d," = [125, 44] := by decide
  have hopen : ofString "[\x7b" = [91, 123] := by decide
  have hzero : zero = [58, 48, 44] := by decide
  unfold ownerTokens
  simp only [if_true, List.append_nil, markAll_append, tokens_append]
  refine text_pair rfl (text_pair rfl ?_)
  simp only [tokens_markAll_key, tokens_markAll_val, tokens_markAll_nil, hcomma, hbrace, hclose, hopen,
    hzero, bare, List.cons_append, List.nil_append]
  refine Continues.comma ?_ (characters_name rfl) (.to_object (Continues.members (.inl rfl)
    (characters_name rfl) (text_string (characters_name rfl))))
  refine h.comma (characters_name rfl) (.to_array (.to_element (.to_object ?_)))
  refine Continues.members ?_ (characters_name rfl) text_zero
  exact hr.comma (characters_name rfl) (text_string characters_value)

theorem text_change {glue kind originId originName targetId targetName : CString} (hk : isWord kind)
    (h : Continues rest t) :
    ∃ body, tokens (markAll (changeTokens glue kind originId originName targetId targetName)) rest =
      glue ++ body ∧ Text .members body t := by
  have hcomma : ofString "," = [44] := by decide
  have hzero : zero = [58, 48, 44] := by decide
  simp only [changeTokens, markAll_append, tokens_append, tokens_markAll_key, tokens_markAll_val,
    hcomma, hzero, bare, List.cons_append, List.nil_append]
  refine ⟨_, rfl, Continues.members ?_ (characters_name rfl) (text_string (characters_name hk))⟩
  refine Continues.comma ?_ (characters_name rfl) text_zero
  refine Continues.comma ?_ (characters_name rfl) (text_string characters_value)
  exact text_pair rfl (text_pair rfl (text_pair rfl h))

theorem text_changes (h : job.hasChanges) :
    ∃ body, tokens (markAll job.changesTokens) conflictTail = 58 :: body ∧
      Text .value body [125, 93, 10] := by
  have htail : conflictTail = [125, 93, 125, 93, 10] := by decide
  have hopen : bare (ofString "[" ++ ofString "\x7b") = [58, 91, 123] := by decide
  have hnext : ofString "\x7d" ++ ofString "," ++ ofString "\x7b" = [125, 44, 123] := by decide
  have hend : Continues conflictTail conflictTail := .inl rfl
  rw [changesTokens, markAll_append, tokens_append]
  cases hm : job.materialChangeRequired
  · have hc : job.printCoreChangeRequired := by
      rw [hasChanges, changeCount, hm] at h
      cases hc : job.printCoreChangeRequired
      case true  => rfl
      case false => simp [hc] at h
    obtain ⟨body, hb, htext⟩ := @text_change conflictTail conflictTail (bare (ofString "[" ++ "\x7b"))
      "print_core_change" job.originNozzleId job.originNozzleId job.nozzleId job.nozzleId rfl hend
    simp only [hc, if_true, if_false, Bool.false_eq_true, tokens_markAll_nil]
    rw [hb, hopen]
    rw [htail] at htext
    exact ⟨_, rfl, .to_array (.to_element (.to_object htext))⟩
  · cases hc : job.printCoreChangeRequired
    · obtain ⟨body, hb, htext⟩ := @text_change conflictTail conflictTail
        (bare (ofString "[" ++ "\x7b")) "material_change" job.originMaterialGuid job.originNameOrGuid
        job.materialGuid job.targetNameOrType rfl hend
      simp only [if_true, if_false, Bool.false_eq_true, tokens_markAll_nil]
      rw [hb, hopen]
      rw [htail] at htext
      exact ⟨_, rfl, .to_array (.to_element (.to_object htext))⟩
    · obtain ⟨core, hcore, hctext⟩ := @text_change conflictTail conflictTail
        (ofString "\x7d" ++ "," ++ "\x7b") "print_core_change" job.originNozzleId job.originNozzleId
        job.nozzleId job.nozzleId rfl hend
      obtain ⟨body, hb, htext⟩ := @text_change ([125, 44, 123] ++ core) ([125, 44, 123] ++ core)
        (bare (ofString "[" ++ "\x7b")) "material_change" job.originMaterialGuid job.originNameOrGuid
        job.materialGuid job.targetNameOrType rfl (.inl rfl)
      simp only [if_true]
      rw [hcore, hnext, hb, hopen]
      rw [htail] at hctext
      exact ⟨_, rfl, .to_array (.to_elements (.to_object htext) (.to_element (.to_object hctext)))⟩

theorem text_conflict (h : job.hasChanges) :
    ∃ rest, tokens (markAll job.conflictTokens) conflictTail = 58 :: 91 :: 93 :: rest ∧
      Continues rest [125, 93, 10] := by
  have hend : ofString ":[]" ++ ofString "," = [58, 91, 93, 44] := by decide
  have hcomma : ofString "," = [44] := by decide
  obtain ⟨body, hb, htext⟩ := text_changes h
  have hchanges : Continues (44 :: 34 :: (nameText "configuration_changes_required" ++ 34 :: 58 :: body))
      [125, 93, 10] :=
    Continues.comma (.inl rfl) (characters_name rfl) htext
  rw [conflictTokens]
  by_cases ht : 0 ≤ job.tracker
  · simp only [ht, if_true, List.cons_append, List.nil_append, tokens_markAll_key, hb, hcomma, bare,
      List.append_assoc]
    exact ⟨_, rfl, hchanges.comma (characters_name rfl) (.number _ number_formatD)⟩
  · simp only [ht, if_false, List.nil_append, tokens_markAll_key, hb, hend, List.cons_append]
    exact ⟨_, rfl, hchanges⟩

-- The file is a document after it is marked, too.
theorem document_marked (h : job.hasChanges) :
    Document (tokens (markAll (job.changedTokens line now)) conflictTail) := by
  obtain ⟨rest, hr, hrest⟩ := @text_conflict job h
  obtain ⟨back, hmaterial, hback⟩ := @text_material rest [125, 93, 10] job.materialGuid
    job.materialBrand job.materialType job.materialColor job.machineFamily job.machineVariant
    (isClusterGuid job.materialGuid) hrest
  have howner := @text_owner _ _ job.owner (printerIdentityGuid line) job.nozzleId _ hmaterial hback
  have hbody := @text_body _ _ job.machineVariant howner
  obtain ⟨body, hb, htext⟩ := @text_path _ _ job.uuid (job.created now) job.name job.path
    (@text_cloud _ _ job.cloudJobId hbody)
  have htokens : tokens (markAll (job.changedTokens line now)) conflictTail = 91 :: 123 :: body := by
    rw [← hb, changedTokens, frontTokens_eq h, openTokens, bodyTokens]
    simp only [markAll_append, tokens_append, List.append_assoc, ← List.cons_append, ← hr]
  rw [htokens]
  exact ⟨[10], by rw [skip_cons rfl]; exact .to_array (.to_element (.to_object htext)), rfl⟩

end

-- Reading the file again gives what was read of it before, without the conflict.
def HandledOnly (content new : CString) : Prop :=
  ∃ before after, PendingJobFile.load content = some before ∧ PendingJobFile.load new = some after ∧
    after.path = before.path ∧ after.name = before.name ∧ after.uuid = before.uuid ∧
    after.cloudJobId = before.cloudJobId ∧ after.tracker = before.tracker ∧
    after.originName = before.originName ∧ after.targetName = before.targetName ∧
    ¬ after.hasConflict ∧ JsonText.Document new

-- No text that is read of the file is taken for the name of the changes.
structure Unmarked (job : PendingJob) : Prop where
  name   : ¬ Hides required [job.name]
  path   : Hides "path" [job.name] ∨ ¬ Hides required [job.path]
  cloud  : Hides "cloud_job_id" [job.name, job.path] ∨ ¬ Hides required [job.cloudJobId]
  origin : Hides "origin_name" (job.texts ++ [job.originId]) ∨ ¬ Hides required [job.originName]
  target :
    Hides "target_name" (job.texts ++ [job.originId, job.originName, job.targetId]) ∨
      ¬ Hides required [job.targetName]

section

variable {job : PendingJob} {line : CString} {now : Nat}

theorem unmarked_normal : job.normal.Unmarked ↔ job.Unmarked := by
  have hv : hides (visible (visible job.cloudJobId)) = hides (visible job.cloudJobId) := by
    rw [visible_visible.visible_eq]
  have htexts {name : CString} {texts : List CString} :
      Hides name (job.normal.texts ++ texts) ↔ Hides name (job.texts ++ texts) := by
    simp only [Hides, PendingJob.texts, normal, List.cons_append, List.exists_mem_cons_iff, hv]
  have hcloud : Hides required [job.normal.cloudJobId] ↔ Hides required [job.cloudJobId] := by
    simp only [Hides, normal, List.exists_mem_cons_iff, hv]
  constructor
  · rintro ⟨h₁, h₂, h₃, h₄, h₅⟩
    exact ⟨h₁, h₂, h₃.imp_right hcloud.not.mp, h₄.imp_left htexts.mp, h₅.imp_left htexts.mp⟩
  · rintro ⟨h₁, h₂, h₃, h₄, h₅⟩
    exact ⟨h₁, h₂, h₃.imp_right hcloud.not.mpr, h₄.imp_left htexts.mpr, h₅.imp_left htexts.mpr⟩

theorem zero_notMem_tail : 0 ∉ conflictTail := by
  decide

theorem contains_required : contains (job.conflictText line now) "\"configuration_changes_required\"" := by
  have hq : ofString "\"configuration_changes_required\"" = 34 :: required ++ [34] := by decide
  rw [hq, contains_iff, conflictText, find_tokens (isName_word rfl) (isJson_changed.isTokens rfl)
    quote_notMem_tail, Option.isSome_map, behind_isSome_iff]
  refine .inl ?_
  rw [changedTokens, conflictTokens, names_append, names_append, names_append, names_key]
  simp [required]

theorem not_contains_required :
    contains (tokens (markAll (job.changedTokens line now)) conflictTail)
      "\"configuration_changes_required\"" = false := by
  have hq : ofString "\"configuration_changes_required\"" = 34 :: required ++ [34] := by decide
  rw [Bool.eq_false_iff, Ne, hq, contains_iff, find_tokens (isName_word rfl)
    ((isJson_markAll isJson_changed).isTokens rfl) quote_notMem_tail, behind_required]
  simp

theorem markHandled_text {new : CString} {results : FinishResults} (hh : job.hasChanges)
    (h : markHandled (job.conflictText line now) results = (0, new)) :
    new = tokens (markAll (job.changedTokens line now)) conflictTail := by
  have hz : 0 ∉ job.conflictText line now := isJson_changed.no_zero zero_notMem_tail
  have htake := takeWhile_no_zero hz
  rw [markHandled] at h
  rcases hr : readFile (job.conflictText line now) 4096 with _ | buf
  · rw [hr] at h
    simp at h
  · have hbuf : buf = job.conflictText line now := by
      rw [readFile, htake] at hr
      split_ifs at hr
      injection hr with hr
      exact hr.symm
    subst hbuf
    rw [hr] at h
    simp only [contains_required, Bool.not_true, Bool.false_and, Bool.false_eq_true, if_false] at h
    by_cases ho : results.opened
    · rw [ho] at h
      have hl := @markLoop_eq (job.conflictText line now) _ (Nat.le_refl _)
      rw [marked_text hh] at hl
      rcases hp : markLoop (job.conflictText line now).length (job.conflictText line now) with ⟨text, changed⟩
      rw [hp] at h hl
      rcases hwritten : results.written with _ | left
      · simp only [hwritten, Bool.not_true, Bool.false_eq_true, if_false, Prod.mk.injEq] at h
        rw [← h.right, ← hl]
      · simp [hwritten] at h
    · simp [ho] at h

theorem changes_length (hf : job.Fits) : job.originName.length < 96 ∧ job.targetName.length < 96 := by
  have h₁ := hf.originMaterialGuid
  have h₂ := hf.originMaterialName
  have h₃ := hf.targetMaterialName
  have h₄ := hf.materialType
  have h₅ := hf.nozzleId
  have h₆ := hf.originNozzleId
  rw [originName, targetName, originNameOrGuid, targetNameOrType]
  split_ifs <;> omega

-- What holds of a file whose texts need no change when they are written.
theorem handledOnly_iff (hf : job.Fits) (hu : isClusterGuid job.uuid) (hh : job.hasChanges)
    (hl : (job.conflictText line now).length < 4096) :
    HandledOnly (job.conflictText line now)
      (tokens (markAll (job.changedTokens line now)) conflictTail) ↔ job.Unmarked := by
  have hlength : (tokens (markAll (job.changedTokens line now)) conflictTail).length < 8191 := by
    have hm := @length_marked (job.conflictText line now)
    rw [marked_text hh] at hm
    omega
  have hload := @readRawArray_eq (job.conflictText line now) rfl
    (isJson_changed.no_zero zero_notMem_tail) (by omega)
  have hnew := @readRawArray_eq (tokens (markAll (job.changedTokens line now)) conflictTail) rfl
    ((isJson_markAll isJson_changed).no_zero zero_notMem_tail) hlength
  obtain ⟨horigin, htarget⟩ := changes_length hf
  have hname := @name_iff job line now hu hf.name
  have hpath := @path_field_iff job line now hu (Nat.lt_trans hf.path (by decide))
  have huuid := @uuid_same job line now hu
  have hcloud := @cloud_iff job line now hu hf.cloudJobId
  have htracker := @tracker_same job line now
  have ho := @origin_iff job line now hh hu horigin
  have ht := @target_iff job line now hh hu htarget
  simp only [before, after] at hname hpath huuid hcloud htracker ho ht
  simp only [HandledOnly, PendingJobFile.load, hload, hnew, Option.bind_eq_bind, Option.bind_some,
    Option.pure_def, Option.some.injEq, exists_and_left, exists_eq_left', hname, hpath, huuid, hcloud, ho,
    ht, getIntValue, htracker, true_and, PendingJobFile.hasConflict, not_contains_required,
    Bool.and_false, Bool.false_and, Bool.false_eq_true, not_false_eq_true, document_marked hh, and_true]
  constructor
  · rintro ⟨h₂, h₁, h₃, h₄, h₅⟩
    exact ⟨h₁, h₂, h₃, h₄, h₅⟩
  · rintro ⟨h₁, h₂, h₃, h₄, h₅⟩
    exact ⟨h₂, h₁, h₃, h₄, h₅⟩

theorem mark_handled_only_iff {target content new : CString} {written : WriteResults}
    {results : FinishResults} (hf : job.Fits) (hh : job.hasChanges)
    (hw : job.writeFile line now target written = some content)
    (hm : markHandled content results = (0, new)) : HandledOnly content new ↔ job.Unmarked := by
  have hj := writeFile_eq_some hw
  rw [← serialize_normal hf] at hj
  have hv : Visible job.normal.cloudJobId := visible_visible
  have hh' : job.normal.hasChanges := hh
  obtain ⟨rfl, hl⟩ := serialize_changed (fits_normal hf) normal_uuid hv hh' hj
  rw [markHandled_text hh' hm, ← unmarked_normal]
  exact handledOnly_iff (fits_normal hf) normal_uuid hh' hl

-- A job for another material, with a name that may be the name of the changes.
def changedJob (name : CString) : PendingJob where
  __ := cubeJob []
  name                   := name
  targetMaterialName     := "PLA"
  originMaterialName     := "ABS"
  materialChangeRequired := true

def handledFile : FinishResults where
  opened  := true
  written := none
  removed := true

def markedFile (name : CString) : Option (CString × Int × CString) := do
  let content ← (changedJob name).writeFile "" 0 "/tmp/deneb_pending_job.json" written
  return (content, markHandled content handledFile)

theorem mark_handled_only_cube :
    ∃ content new, (changedJob "cube.gcode").writeFile "" 0 "/tmp/deneb_pending_job.json" written =
        some content ∧
      markHandled content handledFile = (0, new) ∧
      (HandledOnly content new ↔ (changedJob "cube.gcode").Unmarked) := by
  have h : (markedFile "cube.gcode").map (·.2.1) = some 0 := by decide +kernel
  obtain ⟨⟨content, rc, new⟩, hc, rfl⟩ := Option.map_eq_some_iff.mp h
  simp only [markedFile, Option.bind_eq_bind, Option.bind_eq_some_iff, Option.pure_def,
    Option.some.injEq, Prod.mk.injEq] at hc
  obtain ⟨content', hw, hm⟩ := hc
  obtain ⟨rfl, hm⟩ := hm
  exact ⟨content', new, hw, hm, mark_handled_only_iff (by constructor <;> decide +kernel) (by decide) hw hm⟩

-- The name of such a job is another one afterwards.
theorem mark_handled_renames :
    ∃ content new, (changedJob "configuration_changes_required").writeFile "" 0
        "/tmp/deneb_pending_job.json" written = some content ∧
      markHandled content handledFile = (0, new) ∧
      (PendingJobFile.load content).map (·.name) = some (ofString "configuration_changes_required") ∧
      (PendingJobFile.load new).map (·.name) = some (ofString "configuration_changes_handled") ∧
      ¬ HandledOnly content new := by
  have h : (markedFile "configuration_changes_required").map (fun r =>
      (r.2.1, (PendingJobFile.load r.1).map (·.name), (PendingJobFile.load r.2.2).map (·.name))) =
      some (0, some (ofString "configuration_changes_required"),
        some (ofString "configuration_changes_handled")) := by decide +kernel
  obtain ⟨⟨content, rc, new⟩, hc, he⟩ := Option.map_eq_some_iff.mp h
  simp only [markedFile, Option.bind_eq_bind, Option.bind_eq_some_iff, Option.pure_def,
    Option.some.injEq, Prod.mk.injEq] at hc he
  obtain ⟨content', hw, hm⟩ := hc
  obtain ⟨rfl, hm⟩ := hm
  obtain ⟨rfl, hbefore, hafter⟩ := he
  refine ⟨content', new, hw, hm, hbefore, hafter, ?_⟩
  rintro ⟨before, after, hb, ha, -, hn, -⟩
  rw [hb, Option.map_some, Option.some.injEq] at hbefore
  rw [ha, Option.map_some, Option.some.injEq] at hafter
  rw [hbefore, hafter] at hn
  exact absurd hn (by decide)

end

end PendingJob

end Deneb
