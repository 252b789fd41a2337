import DenebModel.Primitives.Theorems.JsonTree
import DenebModel.Web.Cluster

namespace Deneb.Cluster

open CString JsonText Occurrence

variable {key s u v : CString} {c : UInt8} {d : Nat}

section ValueEnd

variable {k : Kind} {t : Tree k}

theorem memberValueEnd_next (hc : c ≠ 34) (hb : c ≠ 92) :
    memberValueEnd d true false (c :: u) = memberValueEnd d true false u := by
  rw [memberValueEnd, if_neg hb, if_neg hc]

theorem memberValueEnd_quote : memberValueEnd d false false (34 :: u) = memberValueEnd d true false u :=
  if_pos rfl

theorem hexDigit_ne_backslash {n : Nat} (h : JsonText.hexDigit c = some n) : c ≠ 92 := by
  rintro rfl
  contradiction

theorem memberValueEnd_characters (h : Characters s v) :
    memberValueEnd d true false (s ++ 34 :: u) = memberValueEnd d false false u := by
  induction h
  case nil => rfl
  case plain c _ hc hb _ ih => rw [List.cons_append, memberValueEnd_next hc hb, ih]
  case escaped ih           => exact ih
  case unicode ha hb hc hd _ ih =>
    have escape (r : CString) : memberValueEnd d true false (92 :: 117 :: r) = memberValueEnd d true false r :=
      rfl
    simp only [List.cons_append]
    rw [escape, memberValueEnd_next (hexDigit_ne_quote ha) (hexDigit_ne_backslash ha),
      memberValueEnd_next (hexDigit_ne_quote hb) (hexDigit_ne_backslash hb),
      memberValueEnd_next (hexDigit_ne_quote hc) (hexDigit_ne_backslash hc),
      memberValueEnd_next (hexDigit_ne_quote hd) (hexDigit_ne_backslash hd), ih]

theorem memberValueEnd_pass (h : c ∉ [(34 : UInt8), 123, 91, 125, 93, 44]) :
    memberValueEnd d false false (c :: u) = memberValueEnd d false false u := by
  simp only [List.mem_cons, List.not_mem_nil, or_false, not_or] at h
  simp [memberValueEnd, h]

theorem memberValueEnd_plain (h : ∀ c ∈ s, isPlain c) :
    memberValueEnd d false false (s ++ u) = memberValueEnd d false false u := by
  induction s
  case nil => rfl
  case cons c s ih =>
    have marks : ∀ m ∈ [(34 : UInt8), 123, 91, 125, 93, 44], ¬isPlain m := by decide
    rw [List.cons_append, memberValueEnd_pass fun hm => marks c hm (h c List.mem_cons_self)]
    exact ih fun c hc => h c (.tail _ hc)

-- A value is passed over at every depth, elements and members inside their brackets.
theorem memberValueEnd_tree (h : t.WellFormed) (hd : k = .value ∨ 0 < d) :
    memberValueEnd d false false (t.render ++ u) = memberValueEnd d false false u := by
  induction t generalizing d u
  case scalar s =>
    rw [Tree.render_scalar]
    exact memberValueEnd_plain (isPlain_scalar h)
  case string s =>
    obtain ⟨v, hv⟩ := h
    rw [Tree.render_string, List.cons_append, memberValueEnd_quote, List.append_assoc]
    exact memberValueEnd_characters hv
  case noElements | noMembers => rfl
  case array es ih =>
    rw [Tree.render_array, List.cons_append, List.append_assoc]
    exact ih h (.inr (Nat.succ_pos d))
  case object ms ih =>
    rw [Tree.render_object, List.cons_append, List.append_assoc]
    exact ih h (.inr (Nat.succ_pos d))
  case element v es ihv ihe =>
    have hp : 0 < d := hd.resolve_left nofun
    obtain ⟨d, rfl⟩ := Nat.exists_eq_succ_of_ne_zero (Nat.ne_of_gt hp)
    rw [Tree.render_element, List.append_assoc, ihv h.left (.inl rfl)]
    by_cases he : es.tokens = []
    case pos => rw [he]; rfl
    case neg =>
      rw [Tree.bytes_separated he]
      exact ihe h.right (.inr hp)
  case member n v ms ihv ihm =>
    obtain ⟨⟨w, hc⟩, -, hv, hm⟩ := h
    have hp : 0 < d := hd.resolve_left nofun
    obtain ⟨d, rfl⟩ := Nat.exists_eq_succ_of_ne_zero (Nat.ne_of_gt hp)
    simp only [Tree.render_member, List.cons_append, List.append_assoc]
    rw [memberValueEnd_quote, memberValueEnd_characters hc]
    have colon (r : CString) :
        memberValueEnd (d + 1) false false (58 :: r) = memberValueEnd (d + 1) false false r := rfl
    rw [colon, ihv hv (.inl rfl)]
    by_cases he : ms.tokens = []
    case pos => rw [he]; rfl
    case neg =>
      rw [Tree.bytes_separated he]
      exact ihm hm (.inr hp)

end ValueEnd

section Remove

variable {front back ts us : List Token} {t t' : Tree .value} {rounds : Nat}

theorem removeRound_name (hl : Lexical (front ++ .name key :: back)) (hq : 34 ∉ key) (hb : 92 ∉ key)
    (hn : .name key ∉ front) (hg : ¬Gap key (front ++ .name key :: back)) :
    removeRound (bytes (front ++ .name key :: back)) key =
      match memberValueEnd 0 false false (bytes back) with
      | (true, last)  => some (bytes front ++ last)
      | (false, last) => some (dropComma (bytes front) ++ last) := by
  have found : index (pattern key) (bytes (front ++ .name key :: back)) = some (bytes front).length :=
    index_first hl hq hb hn hg
  have split : bytes (front ++ .name key :: back) = bytes front ++ (pattern key ++ bytes back) := by
    rw [bytes_append, bytes_cons]
    rfl
  have first : (bytes (front ++ .name key :: back)).take (bytes front).length = bytes front := by
    rw [split, List.take_left]
  have rest : (bytes (front ++ .name key :: back)).drop
      ((bytes front).length + (pattern key).length) = bytes back := by
    rw [split, ← List.drop_drop, List.drop_left, List.drop_left]
  rcases hv : memberValueEnd 0 false false (bytes back) with ⟨_ | _, last⟩ <;>
    simp only [removeRound, found, first, rest, hv]

theorem memberValueEnd_value {v : Tree .value} (h : v.WellFormed) :
    memberValueEnd 0 false false (bytes (v.tokens ++ ts)) = memberValueEnd 0 false false (bytes ts) := by
  rw [bytes_append]
  exact memberValueEnd_tree h (.inl rfl)

theorem dropComma_comma : dropComma (s ++ [44]) = s := by
  simp [dropComma, isBlank]

theorem dropComma_brace : dropComma (s ++ [123]) = s ++ [123] := by
  simp [dropComma, isBlank]

-- A round takes the first member of the name out of the text.
theorem removeRound_cut (h : Tree.Cut key ts us) (hl : Lexical ts) (hq : 34 ∉ key) (hb : 92 ∉ key)
    (hg : ¬Gap key ts) : removeRound (bytes ts) key = some (bytes us) := by
  cases h
  case comma front back v hv hf _ =>
    have value : memberValueEnd 0 false false (bytes (v.tokens ++ .raw 44 :: back)) = (true, bytes back) :=
      memberValueEnd_value hv
    rw [removeRound_name hl hq hb hf hg, value, bytes_append]
  case single front back v hv hf =>
    have value : memberValueEnd 0 false false (bytes (v.tokens ++ .raw 125 :: back)) =
        (false, bytes (.raw 125 :: back)) := memberValueEnd_value hv
    have hf' : .name key ∉ front ++ [.raw 123] := by simpa using hf
    rw [List.append_cons front] at hl hg ⊢
    have split : bytes (front ++ [.raw 123]) = bytes front ++ [123] := bytes_append
    rw [removeRound_name hl hq hb hf' hg, value, split, List.append_cons front, bytes_append, split]
    exact congrArg some (congrArg (· ++ bytes (.raw 125 :: back)) dropComma_brace)
  case last front back v hv hf =>
    have value : memberValueEnd 0 false false (bytes (v.tokens ++ .raw 125 :: back)) =
        (false, bytes (.raw 125 :: back)) := memberValueEnd_value hv
    have hf' : .name key ∉ front ++ [.raw 44] := by simpa using hf
    rw [List.append_cons front] at hl hg ⊢
    have split : bytes (front ++ [.raw 44]) = bytes front ++ [44] := bytes_append
    rw [removeRound_name hl hq hb hf' hg, value, split, bytes_append]
    exact congrArg some (congrArg (· ++ bytes (.raw 125 :: back)) dropComma_comma)

theorem removeRound_eq_none (hl : Lexical ts) (hq : 34 ∉ key) (hb : 92 ∉ key) (hn : .name key ∉ ts)
    (hg : ¬Gap key ts) : removeRound (bytes ts) key = none := by
  have none_found : index (pattern key) (bytes ts) = none := index_none hl hq hb hn hg
  simp only [removeRound, none_found]

end Remove

section Length

variable {json json' : CString} {inString escape : Bool} {rounds : Nat}

theorem memberValueEnd_length : (memberValueEnd d inString escape s).2.length ≤ s.length := by
  fun_induction memberValueEnd d inString escape s <;> simp_all <;> omega

theorem dropComma_length : (dropComma s).length ≤ s.length := by
  have blanks : (s.reverse.dropWhile isBlank).length ≤ s.length :=
    (List.dropWhile_suffix isBlank).length_le.trans_eq s.length_reverse
  rw [dropComma]
  split
  case h_1 cs hc =>
    rw [hc, List.length_cons] at blanks
    rw [List.length_reverse]
    exact Nat.le_of_succ_le blanks
  case h_2 => rwa [List.length_reverse]

theorem removeRound_length (h : removeRound json key = some json') : json'.length < json.length := by
  rw [removeRound] at h
  split at h
  case h_1 => contradiction
  case h_2 field hf =>
    obtain ⟨front, back, rfl, rfl⟩ := index_eq_some hf
    have value := @memberValueEnd_length back 0 false false
    have comma := dropComma_length (s := front)
    have name : 0 < (pattern key).length := Nat.succ_pos _
    simp only [List.take_left, ← List.drop_drop, List.drop_left] at h
    rw [List.length_append, List.length_append]
    split at h
    case h_1 last he | h_2 last he =>
      rw [he] at value
      change last.length ≤ back.length at value
      obtain rfl := Option.some.inj h
      rw [List.length_append]
      omega

-- Every round shortens the text, so the loop ends.
theorem removeRounds_returns (h : json.length < rounds) :
    ∃ r, removeRounds rounds json key = some r ∧ r.length ≤ json.length := by
  induction rounds generalizing json
  case zero => contradiction
  case succ rounds ih =>
    rw [removeRounds]
    split
    case h_1 => exact ⟨json, rfl, Nat.le_refl _⟩
    case h_2 json' hr =>
      have shorter := removeRound_length hr
      obtain ⟨r, hr, hl⟩ := @ih json' (by omega)
      exact ⟨r, hr, by omega⟩

end Length

section Claim

variable {t t' : Tree .value} {rounds : Nat}

theorem removeRounds_tree (h : t.WellFormed) (hq : 34 ∉ key) (hb : 92 ∉ key)
    (hg : ¬Tree.Separates key) (hr : t.render.length < rounds) :
    removeRounds rounds t.render key = some (t.remove key).render ∧ (t.remove key).WellFormed := by
  induction rounds generalizing t
  case zero => contradiction
  case succ rounds ih =>
    have gap : ¬Gap key t.tokens := fun hg' => hg ⟨t, h, hg'⟩
    rw [removeRounds]
    cases hf : t.removeFirst key
    case none =>
      have last : removeRound t.render key = none :=
        removeRound_eq_none h.lexical hq hb (Tree.removeFirst_eq_none.mp hf) gap
      rw [last, Tree.remove_eq_self hf]
      exact ⟨rfl, h⟩
    case some t' =>
      have round : removeRound t.render key = some t'.render :=
        removeRound_cut (Tree.removeFirst_cut h hf) h.lexical hq hb gap
      have shorter := removeRound_length round
      rw [round, ← Tree.remove_removeFirst hf]
      exact ih (h.removeFirst hf) (by omega)

-- A tree whose strings begin with a colon, and are not the key.
theorem exists_colon : ∃ s v, Characters (58 :: s) v ∧ 92 ∉ (58 :: s) ∧ 58 :: s ≠ key := by
  have colon {s v : CString} (h : Characters s v) : Characters (58 :: s) (58 :: v) :=
    .plain 58 (by decide) (by decide) (by decide) h
  by_cases hk : key = [58]
  case pos => exact ⟨[58], _, colon (colon .nil), by decide, by simp [hk]⟩
  case neg => exact ⟨[], _, colon .nil, by decide, Ne.symm hk⟩

theorem removeRounds_gap (h : t.WellFormed) (hg : Gap key t.tokens) (hq : 34 ∉ key) :
    ∃ t' : Tree .value, t'.WellFormed ∧ ∀ rounds > t'.render.length,
      removeRounds rounds t'.render key ≠ some (t'.remove key).render := by
  obtain ⟨s, v, hc, hb, hk⟩ := @exists_colon key
  have filled := h.fill hc hb
  refine ⟨t.fill (58 :: s), filled, fun rounds hr he => ?_⟩
  have absent : (t.fill (58 :: s)).removeFirst key = none := by
    rw [Tree.removeFirst_eq_none, Tree.tokens_fill, List.mem_map]
    rintro ⟨tok, -, ht⟩
    cases tok <;> simp [Token.fill, hk] at ht
  rw [Tree.remove_eq_self absent] at he
  have occurs : (pattern key) <:+: (t.fill (58 :: s)).render := by
    rw [Tree.render, Tree.tokens_fill]
    exact hg.infix_fill h.lexical hq
  obtain ⟨rounds, rfl⟩ := Nat.exists_eq_succ_of_ne_zero (Nat.ne_of_gt (Nat.zero_lt_of_lt hr))
  rw [removeRounds] at he
  cases round : removeRound (t.fill (58 :: s)).render key
  case none =>
    rw [removeRound] at round
    split at round
    case h_1 hi => exact index_eq_none.mp hi occurs
    case h_2 =>
      split at round <;> contradiction
  case some json' =>
    rw [round] at he
    have shorter := removeRound_length round
    obtain ⟨r, hr', hl⟩ := @removeRounds_returns key json' rounds (by omega)
    obtain rfl := Option.some.inj (hr'.symm.trans he)
    omega

theorem member_removed_iff (hl : key.length ≤ 59) (hq : 34 ∉ key) (hb : 92 ∉ key) :
    (∀ t : Tree .value, t.WellFormed → ∀ rounds > t.render.length,
      removeMember rounds t.render key = some (t.remove key).render ∧
        Document (t.remove key).render) ↔ ¬Tree.Separates key := by
  have short : ¬key.length + 4 ≥ 64 := by omega
  simp only [removeMember, if_neg short]
  constructor
  case mp =>
    rintro h ⟨t, ht, hg⟩
    obtain ⟨t', ht', hn⟩ := removeRounds_gap ht hg hq
    exact hn _ (Nat.lt_succ_self _) (h t' ht' _ (Nat.lt_succ_self _)).left
  case mpr =>
    intro hg t ht rounds hr
    have ⟨he, hw⟩ := removeRounds_tree ht hq hb hg hr
    exact ⟨he, hw.document⟩

-- The text `{"path":"a","t":[{"path":true}]}`.
def pathTree : Tree .value :=
  .object (.member (ofString "path") (.string [97])
    (.member [116] (.array (.element
      (.object (.member (ofString "path") (.scalar (ofString "true")) .noMembers)) .noElements))
    .noMembers))

theorem pathTree_wellFormed : pathTree.WellFormed := by
  have characters {s : CString} (h : ∀ c ∈ s, c ≠ 34 ∧ c ≠ 92 ∧ 32 ≤ c) : ∃ v, Characters s v :=
    ⟨s, characters_of_plain h⟩
  exact ⟨characters (by decide), by decide, characters (by decide), characters (by decide),
    by decide, ⟨⟨characters (by decide), by decide, .inr (by decide), trivial⟩, trivial⟩, trivial⟩

theorem path_member_removed :
    removeMember 40 pathTree.render "path" = some (ofString "\x7b\"t\":[\x7b\x7d]\x7d") := by
  have removed : (pathTree.remove (ofString "path")).render =
      ofString "\x7b\"t\":[\x7b\x7d]\x7d" := by decide
  rw [← removed]
  refine ((member_removed_iff (by decide) (by decide) (by decide)).mpr (fun h => ?_) pathTree
    pathTree_wellFormed 40 (by decide)).left
  obtain ⟨c, hc, hm⟩ := h.head (by decide)
  obtain rfl := Option.some.inj hc
  exact absurd hm (by decide)

-- The comma between two strings is taken for a name.
theorem comma_key_breaks_text :
    ∃ t : Tree .value, t.WellFormed ∧ t.render = ofString "[\"x\",\":y\"]" ∧
      (t.remove (ofString ",")).render = t.render ∧
      ∀ rounds ≥ 2, removeMember rounds t.render "," = some (ofString "[\"x") := by
  refine ⟨.array (.element (.string [120]) (.element (.string [58, 121]) .noElements)),
    ⟨⟨_, .plain 120 (by decide) (by decide) (by decide) .nil⟩,
      ⟨_, .plain 58 (by decide) (by decide) (by decide)
        (.plain 121 (by decide) (by decide) (by decide) .nil)⟩, trivial⟩, by decide, by decide,
    fun rounds hr => ?_⟩
  obtain ⟨rounds, rfl⟩ := Nat.exists_eq_add_of_le' hr
  rfl

end Claim
end Deneb.Cluster
