import DenebModel.Primitives.JsonTree
import DenebModel.Primitives.Occurrence
import DenebModel.Primitives.Theorems.JsonText

namespace JsonText

open Occurrence

variable {key s u : Bytes} {ts us vs : List Token} {tok : Token} {k : Kind} {t t' : Tree k} {c : UInt8} {n : Nat}

theorem bytes_append : bytes (ts ++ us) = bytes ts ++ bytes us :=
  List.flatMap_append

theorem bytes_cons : bytes (tok :: ts) = tok.bytes ++ bytes ts :=
  List.flatMap_cons

-- The text ends here, or goes on with a comma or a closing bracket.
def Ends (u : Bytes) : Prop :=
  ∀ c ∈ u.head?, c ∈ [(44 : UInt8), 93, 125]

-- The tokens of a text: every string is a value, and no name has an escape.
def Lexical : List Token → Prop
  | []              => True
  | .raw c :: ts    => c ≠ 34 ∧ Lexical ts
  | .string s :: ts => (∃ v, Characters s v) ∧ Ends (bytes ts) ∧ Lexical ts
  | .name s :: ts   => (∃ v, Characters s v) ∧ 92 ∉ s ∧ Lexical ts

theorem Token.bytes_ne_nil : tok.bytes ≠ [] := by
  cases tok <;> simp [Token.bytes]

theorem head_bytes_append :
    (bytes (ts ++ us)).head? = if ts = [] then (bytes us).head? else (bytes ts).head? := by
  cases ts
  case nil => simp
  case cons tok ts =>
    obtain ⟨c, rest, hc⟩ := List.exists_cons_of_ne_nil (@Token.bytes_ne_nil tok)
    simp [bytes_cons, hc]

theorem Lexical.append (h : Lexical ts) (h' : Lexical us) (hu : Ends (bytes us)) :
    Lexical (ts ++ us) := by
  induction ts
  case nil => exact h'
  case cons tok ts ih =>
    cases tok
    case raw c  => exact ⟨h.left, ih h.right⟩
    case name s => exact ⟨h.left, h.right.left, ih h.right.right⟩
    case string s =>
      refine ⟨h.left, ?_, ih h.right.right⟩
      change Ends (bytes (ts ++ us))
      rw [Ends, head_bytes_append]
      split
      case isTrue  => exact hu
      case isFalse => exact h.right.left

theorem Lexical.of_append (h : Lexical (ts ++ us)) : Lexical us := by
  induction ts
  case nil => exact h
  case cons tok ts ih =>
    cases tok
    case raw => exact ih h.right
    all_goals exact ih h.right.right

section Search

variable {a v rest : Bytes}

-- The text of a name ends at the first quote that is not escaped.
theorem Characters.closing (h : Characters s v) (hq : 34 ∉ key) (hb : 92 ∉ key)
    (hp : key ++ [34, 58] <+: s ++ 34 :: rest) : key = s ∧ rest.head? = some 58 := by
  induction h generalizing key
  case nil =>
    cases key
    case nil =>
      obtain ⟨back, rfl⟩ := (List.cons_prefix_cons.mp hp).right
      exact ⟨rfl, rfl⟩
    case cons => exact absurd ((List.cons_prefix_cons.mp hp).left ▸ List.mem_cons_self) hq
  case plain c _ hc _ _ ih =>
    cases key
    case nil => exact absurd (List.cons_prefix_cons.mp hp).left.symm hc
    case cons d key =>
      have ⟨hd, hr⟩ := List.cons_prefix_cons.mp hp
      have ⟨he, hh⟩ := ih (List.not_mem_of_not_mem_cons hq) (List.not_mem_of_not_mem_cons hb) hr
      exact ⟨by rw [hd, he], hh⟩
  case escaped | unicode =>
    cases key
    case nil  => exact absurd (List.cons_prefix_cons.mp hp).left (by decide)
    case cons => exact absurd ((List.cons_prefix_cons.mp hp).left ▸ List.mem_cons_self) hb

theorem Token.length_string : (Token.string s).bytes.length = s.length + 2 := by
  simp [Token.bytes]

theorem Token.length_name : (Token.name s).bytes.length = s.length + 3 := by
  simp [Token.bytes]

theorem not_at_name (h : c ≠ 34) : ¬(Token.name key).bytes <+: c :: rest := fun hp =>
  h (List.cons_prefix_cons.mp hp).left.symm

theorem index_skip (h : c ≠ 34) :
    index (Token.name key).bytes (c :: rest) = (index (Token.name key).bytes rest).map (· + 1) :=
  index_cons (not_at_name h)

theorem index_quote (h : ¬key ++ [34, 58] <+: rest) :
    index (Token.name key).bytes (34 :: rest) = (index (Token.name key).bytes rest).map (· + 1) :=
  index_cons fun hp => h (List.cons_prefix_cons.mp hp).right

theorem hexDigit_ne_quote (h : hexDigit c = some n) : c ≠ 34 := by
  rintro rfl
  contradiction

theorem index_characters (h : Characters s v) (hq : 34 ∉ key) (hb : 92 ∉ key)
    (hs : rest.head? = some 58 → 92 ∉ s) (hg : ¬key ++ [34, 58] <+: rest) :
    index (Token.name key).bytes (s ++ 34 :: rest) =
      (index (Token.name key).bytes rest).map (s.length + 1 + ·) := by
  induction h
  case nil =>
    rw [List.nil_append, index_quote hg]
    congr 1
    funext i
    exact Nat.add_comm i _
  case plain c _ hc _ _ ih =>
    rw [List.cons_append, index_skip hc, ih fun hh hm => hs hh (.tail _ hm), Option.map_map]
    congr 1
    funext i
    simp only [Function.comp_apply, List.length_cons]
    omega
  case escaped s _ c _ _ hc ih =>
    have second : ¬(Token.name key).bytes <+: c :: (s ++ 34 :: rest) := by
      intro hp
      have ⟨_, hh⟩ := hc.closing hq hb (List.cons_prefix_cons.mp hp).right
      exact hs hh List.mem_cons_self
    rw [List.cons_append, index_skip (by decide), List.cons_append, index_cons second,
      ih fun hh hm => hs hh (.tail _ (.tail _ hm)), Option.map_map, Option.map_map]
    congr 1
    funext i
    simp only [Function.comp_apply, List.length_cons]
    omega
  case unicode ha hb hc hd _ ih =>
    simp only [List.cons_append]
    rw [index_skip (by decide), index_skip (by decide), index_skip (hexDigit_ne_quote ha),
      index_skip (hexDigit_ne_quote hb), index_skip (hexDigit_ne_quote hc),
      index_skip (hexDigit_ne_quote hd), ih fun hh hm => hs hh (by simp [hm])]
    simp only [Option.map_map]
    congr 1
    funext i
    simp only [Function.comp_apply, List.length_cons]
    omega

-- Nothing is found in a text between quotes, or across its end.
theorem index_quoted (h : Characters s v) (hq : 34 ∉ key) (hb : 92 ∉ key)
    (hs : rest.head? = some 58 → 92 ∉ s) (first : ¬key ++ [34, 58] <+: s ++ 34 :: rest)
    (last : ¬key ++ [34, 58] <+: rest) :
    index (Token.name key).bytes (34 :: (s ++ 34 :: rest)) =
      (index (Token.name key).bytes rest).map (s.length + 2 + ·) := by
  rw [index_quote first, index_characters h hq hb hs last, Option.map_map]
  congr 1
  funext i
  simp only [Function.comp_apply]
  omega

theorem Gap.cons (h : Gap key ts) : Gap key (tok :: ts) := by
  obtain ⟨front, tok', back, a, rfl, ha, hp⟩ := h
  exact ⟨tok :: front, tok', back, a, rfl, ha, hp⟩

theorem Gap.of_after (ha : tok.after = some v) (hp : key ++ [34, 58] <+: v ++ bytes ts) :
    Gap key (tok :: ts) := by
  refine ⟨[], tok, ts, v, rfl, ha, List.IsPrefix.trans ?_ hp⟩
  exact ⟨[58], by simp⟩

-- A name is found where it is, not across the quotes of other strings.
theorem index_tokens (h : Lexical (ts ++ us)) (hq : 34 ∉ key) (hb : 92 ∉ key) (hn : .name key ∉ ts)
    (hg : ¬Gap key (ts ++ us)) :
    index (Token.name key).bytes (bytes (ts ++ us)) =
      (index (Token.name key).bytes (bytes us)).map ((bytes ts).length + ·) := by
  induction ts
  case nil => simp [bytes]
  case cons tok ts ih =>
    have tail (hl : Lexical (ts ++ us)) :=
      ih hl (List.not_mem_of_not_mem_cons hn) fun hg' => hg hg'.cons
    rw [List.cons_append, bytes_cons]
    cases tok
    case raw c =>
      rw [Token.bytes, List.singleton_append, index_skip h.left, tail h.right, Option.map_map]
      congr 1
      funext i
      simp only [Function.comp_apply, bytes_cons, List.length_append, Token.bytes, List.length_singleton]
      omega
    case string s =>
      obtain ⟨v, hv⟩ := h.left
      have ends : Ends (bytes (ts ++ us)) := h.right.left
      have hc : (bytes (ts ++ us)).head? ≠ some 58 := fun hh => absurd (ends 58 hh) (by decide)
      have first : ¬key ++ [34, 58] <+: s ++ 34 :: bytes (ts ++ us) := fun hp =>
        hc (hv.closing hq hb hp).right
      have last : ¬key ++ [34, 58] <+: bytes (ts ++ us) := fun hp => hg (.of_after rfl hp)
      have split : (Token.string s).bytes ++ bytes (ts ++ us) = 34 :: (s ++ 34 :: bytes (ts ++ us)) := by
        simp [Token.bytes]
      rw [split, index_quoted hv hq hb (fun hh => absurd hh hc) first last, tail h.right.right,
        Option.map_map]
      congr 1
      funext i
      simp only [Function.comp_apply, bytes_cons, List.length_append, Token.length_string]
      omega
    case name s =>
      obtain ⟨⟨v, hv⟩, hs, hl⟩ := h
      have first : ¬key ++ [34, 58] <+: s ++ 34 :: (58 :: bytes (ts ++ us)) := fun hp =>
        hn ((hv.closing hq hb hp).left ▸ List.mem_cons_self)
      have last : ¬key ++ [34, 58] <+: 58 :: bytes (ts ++ us) := fun hp => hg (.of_after rfl hp)
      have split : (Token.name s).bytes ++ bytes (ts ++ us) = 34 :: (s ++ 34 :: (58 :: bytes (ts ++ us))) := by
        simp [Token.bytes]
      rw [split, index_quoted hv hq hb (fun _ => hs) first last, index_skip (by decide), tail hl,
        Option.map_map, Option.map_map]
      congr 1
      funext i
      simp only [Function.comp_apply, bytes_cons, List.length_append, Token.length_name]
      omega

theorem index_first (h : Lexical (ts ++ .name key :: us)) (hq : 34 ∉ key) (hb : 92 ∉ key)
    (hn : .name key ∉ ts) (hg : ¬Gap key (ts ++ .name key :: us)) :
    index (Token.name key).bytes (bytes (ts ++ .name key :: us)) = some (bytes ts).length := by
  rw [index_tokens h hq hb hn hg, bytes_cons, index_self]
  rfl

theorem index_none (h : Lexical ts) (hq : 34 ∉ key) (hb : 92 ∉ key) (hn : .name key ∉ ts)
    (hg : ¬Gap key ts) : index (Token.name key).bytes (bytes ts) = none := by
  have := @index_tokens key ts [] (by simpa using h) hq hb hn (by simpa using hg)
  simpa [bytes, index, Token.bytes] using this

-- The text in front of the next string does not depend on what the strings are.
theorem prefix_fill (h : Lexical ts) (hq : 34 ∉ key) (hp : key ++ [34] <+: bytes ts) :
    key ++ 34 :: s <+: bytes (ts.map (Token.fill s)) := by
  induction ts generalizing key
  case nil => simp [bytes] at hp
  case cons tok ts ih =>
    rw [bytes_cons] at hp
    rw [List.map_cons, bytes_cons]
    cases tok
    case raw c =>
      cases key
      case nil => exact absurd (List.cons_prefix_cons.mp hp).left.symm h.left
      case cons d key =>
        have ⟨hd, hr⟩ := List.cons_prefix_cons.mp hp
        exact List.cons_prefix_cons.mpr ⟨hd, ih h.right (List.not_mem_of_not_mem_cons hq) hr⟩
    all_goals
      cases key
      case nil  => simp [Token.fill, Token.bytes]
      case cons => exact absurd ((List.cons_prefix_cons.mp hp).left ▸ List.mem_cons_self) hq

-- The text between two strings begins with what may follow a value or a name.
theorem Gap.head (h : Gap key ts) (hl : Lexical ts) (hq : 34 ∉ key) :
    ∃ c ∈ key.head?, c ∈ [(44 : UInt8), 58, 93, 125] := by
  obtain ⟨front, tok, back, a, rfl, ha, hp⟩ := h
  have tail : Lexical (tok :: back) := hl.of_append
  cases tok
  case raw => contradiction
  case string =>
    obtain rfl := Option.some.inj ha
    have ends : Ends (bytes back) := tail.right.left
    obtain ⟨rest, hr⟩ := hp
    rw [List.nil_append] at hr
    cases key
    case nil         => exact absurd (ends 34 (by simp [← hr])) (by decide)
    case cons c key' =>
      have := ends c (by simp [← hr])
      exact ⟨c, rfl, by simp at this ⊢; tauto⟩
  case name =>
    obtain rfl := Option.some.inj ha
    cases key
    case nil         => simp at hp
    case cons c key' => exact ⟨c, rfl, by simp [(List.cons_prefix_cons.mp hp).left]⟩

theorem prefix_after (h : Lexical ts) (hq : 34 ∉ key) (ha : tok.after = some a)
    (hp : key ++ [34] <+: a ++ bytes ts) :
    key ++ 34 :: s <+: a ++ bytes (ts.map (Token.fill s)) := by
  cases tok
  case raw => contradiction
  case string =>
    obtain rfl := Option.some.inj ha
    exact prefix_fill h hq hp
  case name =>
    obtain rfl := Option.some.inj ha
    cases key
    case nil => simp at hp
    case cons d key =>
      have ⟨hd, hr⟩ := List.cons_prefix_cons.mp hp
      exact List.cons_prefix_cons.mpr ⟨hd, prefix_fill h (List.not_mem_of_not_mem_cons hq) hr⟩

-- The strings begin with a colon, so the gap looks like the name.
theorem Gap.infix_fill (h : Gap key ts) (hl : Lexical ts) (hq : 34 ∉ key) :
    (Token.name key).bytes <:+: bytes (ts.map (Token.fill (58 :: s))) := by
  obtain ⟨front, tok, back, a, rfl, ha, hp⟩ := h
  have tail : Lexical (tok :: back) := hl.of_append
  have back_lexical : Lexical back := @Lexical.of_append [tok] back tail
  obtain ⟨rest, hr⟩ := prefix_after (s := 58 :: s) back_lexical hq ha hp
  have closing : (tok.fill (58 :: s)).bytes = 34 :: 58 :: s ++ 34 :: a := by
    cases tok
    case raw => contradiction
    all_goals
      obtain rfl := Option.some.inj ha
      simp [Token.fill, Token.bytes]
  refine ⟨bytes (front.map (Token.fill (58 :: s))) ++ 34 :: 58 :: s, s ++ rest, ?_⟩
  simp only [List.map_append, bytes_append, List.map_cons, bytes_cons, closing, List.cons_append,
    List.append_assoc]
  rw [← hr]
  simp [Token.bytes]

end Search

-- The bytes of numbers and literals.
def isPlain (c : UInt8) : Bool :=
  isNumeric c || (97 ≤ c && c ≤ 122)

theorem isPlain_scalar (h : Number s ∨ s ∈ literals) : ∀ c ∈ s, isPlain c := by
  rcases h with h | h
  case inl => exact fun c hc => Bool.or_eq_true_iff.mpr (.inl (h.isNumeric c hc))
  case inr =>
    have hall : literals.all (·.all isPlain) := by decide
    exact List.all_eq_true.mp (List.all_eq_true.mp hall s h)

theorem lexical_raw (h : 34 ∉ s) : Lexical (s.map .raw) := by
  induction s
  case nil => trivial
  case cons c s ih =>
    simp only [List.mem_cons, not_or] at h
    exact ⟨Ne.symm h.left, ih h.right⟩

theorem lexical_separated (h : Lexical ts) : Lexical (Tree.separated ts) := by
  cases ts
  case nil  => trivial
  case cons => exact ⟨by decide, h⟩

theorem ends_separated : Ends (bytes (Tree.separated ts)) := by
  cases ts
  case nil  => exact nofun
  case cons => simp [Ends, Tree.separated, bytes_cons, Token.bytes]

namespace Tree

theorem WellFormed.lexical (h : t.WellFormed) : Lexical t.tokens := by
  induction t
  case scalar s => exact lexical_raw fun hm => absurd (isPlain_scalar h 34 hm) (by decide)
  case string s => exact ⟨h, nofun, trivial⟩
  case array es ih =>
    exact ⟨by decide, (ih h).append ⟨by decide, trivial⟩ (by simp [Ends, bytes, Token.bytes])⟩
  case object ms ih =>
    exact ⟨by decide, (ih h).append ⟨by decide, trivial⟩ (by simp [Ends, bytes, Token.bytes])⟩
  case noElements | noMembers => trivial
  case element v es ihv ihe =>
    exact (ihv h.left).append (lexical_separated (ihe h.right)) ends_separated
  case member n v ms ihv ihm =>
    have ⟨hc, hb, hv, hm⟩ := h
    exact ⟨hc, hb, (ihv hv).append (lexical_separated (ihm hm)) ends_separated⟩

theorem mem_separated : .name key ∈ separated ts ↔ .name key ∈ ts := by
  cases ts <;> simp [separated]

theorem removeFirst_eq_none : t.removeFirst key = none ↔ .name key ∉ t.tokens := by
  induction t
  case scalar | string | noElements | noMembers => simp [removeFirst, tokens]
  case array ih | object ih => simp [removeFirst, tokens, ih]
  case element v es ihv ihe =>
    rw [removeFirst, tokens, List.mem_append, mem_separated, not_or, ← ihv, ← ihe]
    cases v.removeFirst key <;> simp
  case member n v ms ihv ihm =>
    rw [removeFirst, tokens, List.mem_cons, List.mem_append, mem_separated, not_or, not_or, ← ihv, ← ihm]
    by_cases hn : n = key
    case pos => simp [hn]
    case neg =>
      rw [if_neg hn]
      cases v.removeFirst key <;> simp [Ne.symm hn]

theorem WellFormed.removeFirst (h : t.WellFormed) (hr : t.removeFirst key = some t') : t'.WellFormed := by
  induction t
  case scalar | string | noElements | noMembers => contradiction
  case array es ih | object es ih =>
    obtain ⟨es', he, rfl⟩ := Option.map_eq_some_iff.mp hr
    exact ih h he
  case element v es ihv ihe =>
    rw [Tree.removeFirst] at hr
    split at hr
    case h_1 v' hv =>
      obtain rfl := Option.some.inj hr
      exact ⟨ihv h.left hv, h.right⟩
    case h_2 =>
      obtain ⟨es', he, rfl⟩ := Option.map_eq_some_iff.mp hr
      exact ⟨h.left, ihe h.right he⟩
  case member n v ms ihv ihm =>
    obtain ⟨hc, hb, hw, hms⟩ := h
    rw [Tree.removeFirst] at hr
    split at hr
    case isTrue =>
      obtain rfl := Option.some.inj hr
      exact hms
    case isFalse =>
      split at hr
      case h_1 v' hv =>
        obtain rfl := Option.some.inj hr
        exact ⟨hc, hb, ihv hw hv, hms⟩
      case h_2 =>
        obtain ⟨ms', hm, rfl⟩ := Option.map_eq_some_iff.mp hr
        exact ⟨hc, hb, hw, ihm hms hm⟩

section Cut

-- The first member of a name taken out of the tokens of a text, with a comma if there is one.
inductive Cut (key : Bytes) : List Token → List Token → Prop
  | comma (front back) (v : Tree .value) :
    v.WellFormed → .name key ∉ front → back ≠ [] →
    Cut key (front ++ .name key :: (v.tokens ++ .raw 44 :: back)) (front ++ back)
  | single (front back) (v : Tree .value) :
    v.WellFormed → .name key ∉ front →
    Cut key (front ++ .raw 123 :: .name key :: (v.tokens ++ .raw 125 :: back))
      (front ++ .raw 123 :: .raw 125 :: back)
  | last (front back) (v : Tree .value) :
    v.WellFormed → .name key ∉ front →
    Cut key (front ++ .raw 44 :: .name key :: (v.tokens ++ .raw 125 :: back)) (front ++ .raw 125 :: back)

-- Members have no brace behind them.
inductive CutMembers (key : Bytes) : List Token → List Token → Prop
  | inner (h : Cut key before after) : CutMembers key before after
  | only (v : Tree .value) : v.WellFormed → CutMembers key (.name key :: v.tokens) []
  | last (front) (v : Tree .value) :
    v.WellFormed → .name key ∉ front → front ≠ [] →
    CutMembers key (front ++ .raw 44 :: .name key :: v.tokens) front

theorem not_mem_append (h : tok ∉ ts) (h' : tok ∉ us) : tok ∉ ts ++ us := by
  simp [h, h']

theorem Cut.append (h : Cut key ts us) : Cut key (ts ++ vs) (us ++ vs) := by
  cases h
  case comma front back v hv hf hb =>
    have := Cut.comma front (back ++ vs) v hv hf (by simp [hb])
    simpa using this
  case single front back v hv hf =>
    have := Cut.single front (back ++ vs) v hv hf
    simpa using this
  case last front back v hv hf =>
    have := Cut.last front (back ++ vs) v hv hf
    simpa using this

theorem Cut.prepend (vs : List Token) (h : Cut key ts us) (hn : .name key ∉ vs) : Cut key (vs ++ ts) (vs ++ us) := by
  cases h
  case comma front back v hv hf hb =>
    have := Cut.comma (vs ++ front) back v hv (not_mem_append hn hf) hb
    simpa using this
  case single front back v hv hf =>
    have := Cut.single (vs ++ front) back v hv (not_mem_append hn hf)
    simpa using this
  case last front back v hv hf =>
    have := Cut.last (vs ++ front) back v hv (not_mem_append hn hf)
    simpa using this

theorem Cut.separated (h : Cut key ts us) : Cut key (separated ts) (separated us) := by
  have comma := h.prepend [.raw 44] (by simp)
  cases h
  case comma front back v hv hf hb =>
    obtain ⟨tok, back, rfl⟩ := List.exists_cons_of_ne_nil hb
    cases front <;> exact comma
  case single front back v hv hf => cases front <;> exact comma
  case last front back v hv hf   => cases front <;> exact comma

theorem CutMembers.object (h : CutMembers key ts us) :
    Cut key (.raw 123 :: (ts ++ [.raw 125])) (.raw 123 :: (us ++ [.raw 125])) := by
  cases h
  case inner h => exact h.append.prepend [.raw 123] (by simp)
  case only v hv => exact Cut.single [] [] v hv List.not_mem_nil
  case last v hv hf _ =>
    have := Cut.last (.raw 123 :: us) [] v hv (by simpa using hf)
    simpa using this

theorem CutMembers.member (h : CutMembers key ts us) (hn : .name key ∉ vs) (hv : vs ≠ []) :
    CutMembers key (vs ++ Tree.separated ts) (vs ++ Tree.separated us) := by
  cases h
  case inner h => exact .inner (h.separated.prepend vs hn)
  case only v hw =>
    have := CutMembers.last vs v hw hn hv
    simpa [Tree.separated] using this
  case last v hw hf hu =>
    obtain ⟨tok, us, rfl⟩ := List.exists_cons_of_ne_nil hu
    have front : .name key ∉ vs ++ .raw 44 :: tok :: us := not_mem_append hn (by simpa using hf)
    have := CutMembers.last (vs ++ .raw 44 :: tok :: us) v hw front (by simp)
    simpa [Tree.separated] using this

def CutOf (key : Bytes) : Kind → List Token → List Token → Prop
  | .members => CutMembers key
  | _        => Cut key

theorem removeFirst_cut (h : t.WellFormed) (hr : t.removeFirst key = some t') :
    CutOf key k t.tokens t'.tokens := by
  induction t
  case scalar | string | noElements | noMembers => contradiction
  case array es ih =>
    obtain ⟨es', he, rfl⟩ := Option.map_eq_some_iff.mp hr
    exact (ih h he).append.prepend [.raw 91] (by simp)
  case object ms ih =>
    obtain ⟨ms', hm, rfl⟩ := Option.map_eq_some_iff.mp hr
    exact (ih h hm).object
  case element v es ihv ihe =>
    rw [removeFirst] at hr
    split at hr
    case h_1 v' hv =>
      obtain rfl := Option.some.inj hr
      exact (ihv h.left hv).append
    case h_2 hv =>
      obtain ⟨es', he, rfl⟩ := Option.map_eq_some_iff.mp hr
      exact (ihe h.right he).separated.prepend v.tokens (removeFirst_eq_none.mp hv)
  case member n v ms ihv ihm =>
    obtain ⟨-, -, hw, hms⟩ := h
    rw [removeFirst] at hr
    split at hr
    case isTrue hn =>
      obtain rfl := Option.some.inj hr
      obtain rfl := hn
      cases he : ms.tokens
      case nil =>
        have : CutMembers n (.name n :: v.tokens) [] := .only v hw
        simpa [tokens, he, separated, CutOf] using this
      case cons tok ts =>
        have : Cut n (.name n :: (v.tokens ++ .raw 44 :: tok :: ts)) (tok :: ts) :=
          .comma [] (tok :: ts) v hw List.not_mem_nil (by simp)
        simpa [tokens, he, separated, CutOf] using CutMembers.inner this
    case isFalse hn =>
      split at hr
      case h_1 v' hv =>
        obtain rfl := Option.some.inj hr
        have front : Token.name key ∉ [Token.name n] := by simpa using Ne.symm hn
        exact .inner ((ihv hw hv).append.prepend [.name n] front)
      case h_2 hv =>
        obtain ⟨ms', hm, rfl⟩ := Option.map_eq_some_iff.mp hr
        have front : Token.name key ∉ .name n :: v.tokens := by
          simpa [Ne.symm hn] using removeFirst_eq_none.mp hv
        exact (ihm hms hm).member front (by simp)

end Cut

section Render

variable {es : Tree .elements} {ms : Tree .members} {v : Tree .value}

theorem bytes_raw : bytes (s.map .raw) = s := by
  induction s
  case nil => rfl
  case cons c s ih => rw [List.map_cons, bytes_cons, ih]; rfl

theorem render_scalar : (scalar s).render = s :=
  bytes_raw

theorem render_string : (string s).render = 34 :: (s ++ [34]) := by
  simp [render, tokens, bytes, Token.bytes]

theorem render_array : (array es).render = 91 :: (es.render ++ [93]) := by
  simp [render, tokens, bytes, Token.bytes]

theorem render_object : (object ms).render = 123 :: (ms.render ++ [125]) := by
  simp [render, tokens, bytes, Token.bytes]

theorem render_element : (element v es).render = v.render ++ bytes (separated es.tokens) :=
  bytes_append

theorem render_member :
    (member s v ms).render = 34 :: (s ++ 34 :: 58 :: (v.render ++ bytes (separated ms.tokens))) := by
  simp [render, tokens, bytes, Token.bytes]

theorem bytes_separated (h : ts ≠ []) : bytes (separated ts) = 44 :: bytes ts := by
  cases ts
  case nil => contradiction
  case cons => rfl

-- A tree is written as a text of its kind, with anything behind it.
theorem WellFormed.text (h : t.WellFormed) (hn : k = .value ∨ t.tokens ≠ []) :
    Text k (t.render ++ u) u := by
  induction t generalizing u
  case scalar s =>
    rw [render_scalar]
    exact h.elim (.number u) (.literal u)
  case string s =>
    obtain ⟨v, hv⟩ := h
    simpa [render_string] using Text.string (t := u) hv
  case noElements | noMembers => simp [tokens] at hn
  case array es ih =>
    rw [render_array, List.cons_append, List.append_assoc]
    by_cases he : es.tokens = []
    case pos => exact .emptyArray (by rw [render, he]; exact skip_cons rfl)
    case neg => exact (ih h (.inr he)).to_array
  case object ms ih =>
    rw [render_object, List.cons_append, List.append_assoc]
    by_cases he : ms.tokens = []
    case pos => exact .emptyObject (by rw [render, he]; exact skip_cons rfl)
    case neg => exact (ih h (.inr he)).to_object
  case element v es ihv ihe =>
    rw [render_element, List.append_assoc]
    by_cases he : es.tokens = []
    case pos =>
      rw [he]
      exact (ihv h.left (.inl rfl)).to_element
    case neg =>
      rw [bytes_separated he]
      exact (ihv h.left (.inl rfl)).to_elements (ihe h.right (.inr he))
  case member n v ms ihv ihm =>
    obtain ⟨⟨w, hc⟩, -, hv, hm⟩ := h
    simp only [render_member, List.cons_append, List.append_assoc]
    by_cases he : ms.tokens = []
    case pos =>
      rw [he]
      exact .single ((ihv hv (.inl rfl)).to_member hc)
    case neg =>
      rw [bytes_separated he]
      exact (ihv hv (.inl rfl)).to_members hc (ihm hm (.inr he))

theorem WellFormed.document {t : Tree .value} (h : t.WellFormed) : Document t.render := by
  have text : Text .value t.render [] := by simpa using h.text (u := []) (.inl rfl)
  exact ⟨[], by rwa [text.skip_eq], rfl⟩

end Render

theorem Separates.head (h : Separates key) (hq : 34 ∉ key) :
    ∃ c ∈ key.head?, c ∈ [(44 : UInt8), 58, 93, 125] := by
  obtain ⟨t, ht, hg⟩ := h
  exact hg.head ht.lexical hq

section Fill

theorem tokens_fill : (t.fill s).tokens = t.tokens.map (Token.fill s) := by
  have separated_map (ts : List Token) :
      separated (ts.map (Token.fill s)) = (separated ts).map (Token.fill s) := by
    cases ts <;> rfl
  induction t
  case scalar s' => simp [fill, tokens, Function.comp_def, Token.fill]
  case string | noElements | noMembers => rfl
  case array ih | object ih => simp [fill, tokens, ih, Token.fill]
  case element ihv ihe => simp [fill, tokens, ihv, ihe, separated_map]
  case member ihv ihm  => simp [fill, tokens, ihv, ihm, separated_map, Token.fill]

theorem WellFormed.fill (h : t.WellFormed) (hs : Characters s u) (hb : 92 ∉ s) :
    (t.fill s).WellFormed := by
  induction t
  case scalar => exact h
  case string => exact ⟨u, hs⟩
  case noElements | noMembers => trivial
  case array ih | object ih   => exact ih h
  case element v es ihv ihe   => exact ⟨ihv h.left, ihe h.right⟩
  case member n v ms ihv ihm  => exact ⟨⟨u, hs⟩, hb, ihv h.right.right.left, ihm h.right.right.right⟩

end Fill

end Tree
end JsonText
