import DenebModel.Primitives.JsonTree
import DenebModel.Primitives.Occurrence
import DenebModel.Primitives.Theorems.JsonText

-- The texts of a tree, with white space between the tokens and escapes in the names.
namespace JsonText

-- A text starts with a text of the tree; the last argument is what follows it. The elements and
-- members may have white space in front of them.
inductive Spells : {k : Kind} → Tree k → Bytes → Bytes → Prop
  | number (t) : Number s → Spells (.scalar s) (s ++ t) t
  | literal (t) : s ∈ literals → Spells (.scalar s) (s ++ t) t
  | string (t) : Characters s v → Spells (.string s) (34 :: (s ++ 34 :: t)) t
  | array : Spells es t t₁ → skip t₁ = 93 :: t₂ → Spells (.array es) (91 :: t) t₂
  | object : Spells ms t t₁ → skip t₁ = 125 :: t₂ → Spells (.object ms) (123 :: t) t₂
  | noElements (t) : Spells .noElements t t
  | element : Spells e (skip t) t₁ → Spells (.element e .noElements) t t₁
  | elements :
    Spells e (skip t) t₁ → skip t₁ = 44 :: t₂ → Spells (.element d es) t₂ t₃ →
    Spells (.element e (.element d es)) t t₃
  | noMembers (t) : Spells .noMembers t t
  | member :
    skip t = 34 :: (s ++ 34 :: t₁) → Characters s v → skip t₁ = 58 :: t₂ → Spells e (skip t₂) t₃ →
    Spells (.member s e .noMembers) t t₃
  | members :
    skip t = 34 :: (s ++ 34 :: t₁) → Characters s v → skip t₁ = 58 :: t₂ → Spells e (skip t₂) t₃ →
    skip t₃ = 44 :: t₄ → Spells (.member n d ms) t₄ t₅ →
    Spells (.member s e (.member n d ms)) t t₅

-- A text that is an object with these members.
def ObjectText (ms : Tree .members) (json : Bytes) : Prop :=
  ∃ t, Spells (.object ms) (skip json) t ∧ skip t = []

-- The text behind a string: in front of the next one there is a comma or a colon. Without the mark
-- it need not be there.
inductive Chain : Bool → Bytes → Prop
  | last : 34 ∉ t → 92 ∉ t → Chain mark t
  | next (g) :
    34 ∉ g → 92 ∉ g → (mark = true → 44 ∈ g ∨ 58 ∈ g) → 34 ∉ s → 92 ∉ s → Chain true t →
    Chain mark (g ++ 34 :: (s ++ 34 :: t))

namespace Tree

-- The strings of a value that are not inside of an object.
def strings : {k : Kind} → Tree k → List Bytes
  | _, string s      => [s]
  | _, array es      => es.strings
  | _, element e es  => e.strings ++ es.strings
  | _, _             => []

-- The members with their names, as they are spelled.
def list : {k : Kind} → Tree k → List (Bytes × Tree .value)
  | _, member n e ms => (n, e) :: ms.list
  | _, _             => []

-- The text of a value that is a string.
def text : {k : Kind} → Tree k → Option Bytes
  | _, string s => some s
  | _, _        => none

end Tree

section

variable {t t₁ : Bytes} {k : Kind}

def HasTree : Kind → Bytes → Bytes → Prop
  | .value, t, t₁    => ∃ e : Tree .value, Spells e t t₁
  | .elements, t, t₁ => ∃ e es, Spells (.element e es) t t₁
  | .member, t, t₁   => ∃ n e, Spells (.member n e .noMembers) t t₁
  | .members, t, t₁  => ∃ n e ms, Spells (.member n e ms) t t₁

-- Every text is a text of some tree.
theorem Text.hasTree (h : Text k t t₁) : HasTree k t t₁ := by
  induction h
  case string h        => exact ⟨_, .string _ h⟩
  case number h        => exact ⟨_, .number _ h⟩
  case literal h       => exact ⟨_, .literal _ h⟩
  case emptyArray hs   => exact ⟨_, .array (.noElements _) hs⟩
  case emptyObject hs  => exact ⟨_, .object (.noMembers _) hs⟩
  case array hs ih =>
    obtain ⟨e, es, h⟩ := ih
    exact ⟨_, .array h hs⟩
  case object hs ih =>
    obtain ⟨n, e, ms, h⟩ := ih
    exact ⟨_, .object h hs⟩
  case element ih =>
    obtain ⟨e, h⟩ := ih
    exact ⟨_, _, .element h⟩
  case elements hc _ ih ih' =>
    obtain ⟨e, h⟩ := ih
    obtain ⟨d, es, h'⟩ := ih'
    exact ⟨_, _, .elements h hc h'⟩
  case member hs hk hc _ ih =>
    obtain ⟨e, h⟩ := ih
    exact ⟨_, _, .member hs hk hc h⟩
  case single ih =>
    obtain ⟨n, e, h⟩ := ih
    exact ⟨_, _, _, h⟩
  case members hc _ ih ih' =>
    obtain ⟨n, e, h⟩ := ih
    obtain ⟨m, d, ms, h'⟩ := ih'
    cases h
    case member hn hk hs h => exact ⟨_, _, _, .members hs hk hn h hc h'⟩

theorem Spells.of_brace {e : Tree .value} (h : Spells e (123 :: t) t₁) : ∃ ms, e = .object ms := by
  generalize he : 123 :: t = text at h
  cases h
  case object => exact ⟨_, rfl⟩
  case number h =>
    obtain ⟨c, s, rfl⟩ := List.exists_cons_of_ne_nil h.ne_nil
    cases he
    exact absurd (h.head 123 rfl) (by decide)
  case literal h =>
    simp only [literals, List.mem_cons, List.not_mem_nil, or_false] at h
    obtain rfl | rfl | rfl := h <;> cases he
  all_goals cases he

-- A value is a string if its text begins with a quote.
theorem Spells.quote {e : Tree .value} (h : Spells e t t₁) :
    (∃ s v, e.text = some s ∧ Characters s v ∧ t = 34 :: (s ++ 34 :: t₁)) ∨
      e.text = none ∧ t.head? ≠ some 34 := by
  cases h
  case string h => exact .inl ⟨_, _, rfl, h, rfl⟩
  case number h =>
    refine .inr ⟨rfl, fun hq => ?_⟩
    obtain ⟨c, s, rfl⟩ := List.exists_cons_of_ne_nil h.ne_nil
    obtain rfl := Option.some_inj.mp hq
    exact absurd (h.head 34 rfl) (by decide)
  case literal h =>
    refine .inr ⟨rfl, ?_⟩
    simp only [literals, List.mem_cons, List.not_mem_nil, or_false] at h
    obtain rfl | rfl | rfl := h <;> simp
  case array  => exact .inr ⟨rfl, by simp⟩
  case object => exact .inr ⟨rfl, by simp⟩

-- Every document that is an object is a text of some members.
theorem Document.objectText {json : Bytes} (h : Document json) (hb : skip json = 123 :: t) :
    ∃ ms, ObjectText ms json := by
  obtain ⟨t₁, text, blank⟩ := h
  obtain ⟨e, spells⟩ := text.hasTree
  rw [hb] at spells
  obtain ⟨ms, rfl⟩ := spells.of_brace
  exact ⟨ms, t₁, hb ▸ spells, blank⟩

end

section

variable {t t₁ u s v p : Bytes} {c : UInt8} {k : Kind} {mark : Bool}

theorem suffix_of_skip (h : skip t = c :: u) : u <:+ t :=
  (List.suffix_cons c u).trans (h ▸ List.dropWhile_suffix _)

theorem suffix_of_member {t₂ : Bytes} (hn : skip t = 34 :: (s ++ 34 :: t₁)) (hc : skip t₁ = 58 :: t₂) :
    skip t₂ <:+ t :=
  (List.dropWhile_suffix _).trans ((suffix_of_skip hc).trans
    (((List.suffix_cons 34 _).trans (List.suffix_append _ _)).trans (suffix_of_skip hn)))

theorem Spells.suffix {e : Tree k} (h : Spells e t t₁) : t₁ <:+ t := by
  induction h
  case number     => exact List.suffix_append _ _
  case literal    => exact List.suffix_append _ _
  case string          =>
    exact ((List.suffix_cons 34 _).trans (List.suffix_append _ _)).trans (List.suffix_cons 34 _)
  case array hc ih     => exact (suffix_of_skip hc).trans (ih.trans (List.suffix_cons _ _))
  case object hc ih    => exact (suffix_of_skip hc).trans (ih.trans (List.suffix_cons _ _))
  case noElements      => exact List.suffix_rfl
  case noMembers       => exact List.suffix_rfl
  case element ih      => exact ih.trans (List.dropWhile_suffix _)
  case elements hc _ ih ih' =>
    exact ih'.trans ((suffix_of_skip hc).trans (ih.trans (List.dropWhile_suffix _)))
  case member hn _ hc _ ih => exact ih.trans (suffix_of_member hn hc)
  case members hn _ hc _ hd _ ih ih' =>
    exact ih'.trans ((suffix_of_skip hd).trans (ih.trans (suffix_of_member hn hc)))

-- A string without a backslash stands for itself.
theorem Characters.eq_self (h : Characters s v) (hb : 92 ∉ s) : v = s ∧ 34 ∉ s := by
  induction h
  case nil => exact ⟨rfl, List.not_mem_nil⟩
  case plain c _ hq _ _ ih =>
    have ⟨he, hn⟩ := ih fun hm => hb (.tail _ hm)
    exact ⟨by rw [he], List.not_mem_cons_of_ne_of_not_mem (Ne.symm hq) hn⟩
  case escaped => exact absurd (.head _) hb
  case unicode => exact absurd (.head _) hb

theorem Chain.unmarked (h : Chain mark t) : Chain false t := by
  cases h
  case last hq hb           => exact .last hq hb
  case next hq hb hq' hb' hc _ => exact .next _ hq hb nofun hq' hb' hc

-- Other bytes in front change nothing, and a comma or a colon among them is the mark.
theorem Chain.prepend {mark' : Bool} (h : Chain mark t) (hq : 34 ∉ p) (hb : 92 ∉ p)
    (hm : mark' = true → mark = true ∨ 44 ∈ p ∨ 58 ∈ p) : Chain mark' (p ++ t) := by
  cases h
  case last hq' hb' => exact .last (by simp [hq, hq']) (by simp [hb, hb'])
  case next s t g hq' hb' hq₁ hb₁ hc hs =>
    rw [← List.append_assoc]
    refine .next _ (by simp [hq, hq']) (by simp [hb, hb']) (fun ht => ?_) hq₁ hb₁ hc
    simp only [List.mem_append]
    rcases hm ht with hm | hm | hm
    · exact (hs hm).imp .inr .inr
    · exact .inl (.inl hm)
    · exact .inr (.inl hm)

theorem Chain.of_skip (h : Chain mark (skip t)) : Chain mark t := by
  obtain ⟨sp, he, hs⟩ := @skip_eq t
  rw [he]
  refine h.prepend ?_ ?_ .inl
  all_goals exact fun hm => absurd (hs _ hm) (by decide)

theorem Chain.of_mark {mark' : Bool} (h : Chain mark u) (hc : skip t = c :: u) (hq : c ≠ 34) (hb : c ≠ 92)
    (hm : mark' = true → mark = true ∨ c = 44 ∨ c = 58) : Chain mark' t := by
  refine .of_skip ?_
  rw [hc]
  refine h.prepend (p := [c]) (by simpa using hq.symm) (by simpa using hb.symm) fun ht => ?_
  rcases hm ht with hm | rfl | rfl
  · exact .inl hm
  · exact .inr (.inl (.head _))
  · exact .inr (.inr (.head _))

theorem Chain.string (h : Chain true t) (hs : Characters s v) (hb : 92 ∉ s) :
    Chain false (34 :: (s ++ 34 :: t)) :=
  .next [] List.not_mem_nil List.not_mem_nil nofun (hs.eq_self hb).2 hb h

theorem notMem_suffix (hb : 92 ∉ t) (h : u <:+ t) : 92 ∉ u :=
  fun hm => hb (h.subset hm)

theorem not_escaped (hb : 92 ∉ t) (hn : skip t = 34 :: (s ++ 34 :: t₁)) : 92 ∉ s := by
  have rest := notMem_suffix hb (List.dropWhile_suffix isSpace)
  rw [← skip, hn] at rest
  exact fun hm => rest (.tail _ (List.mem_append_left _ hm))

theorem notMem_scalar (h : Number s ∨ s ∈ literals) : 34 ∉ s ∧ 92 ∉ s := by
  rcases h with h | h
  case inl => constructor <;> exact fun hm => absurd (h.isNumeric _ hm) (by decide)
  case inr =>
    have all : ∀ s ∈ literals, 34 ∉ s ∧ 92 ∉ s := by decide
    exact all s h

-- What follows a name is marked by its colon.
theorem Chain.member {t₂ : Bytes} (h : Chain false (skip t₂)) (hn : skip t = 34 :: (s ++ 34 :: t₁))
    (hs : Characters s v) (hb : 92 ∉ t) (hc : skip t₁ = 58 :: t₂) : Chain false t := by
  have behind : Chain true t₁ := h.of_skip.of_mark hc (by decide) (by decide) fun _ => .inr (.inr rfl)
  refine .of_skip ?_
  rw [hn]
  exact behind.string hs (not_escaped hb hn)

theorem Spells.chain {e : Tree k} (h : Spells e t t₁) (hb : 92 ∉ t) (hc : Chain true t₁) : Chain false t := by
  induction h
  case number h  => exact hc.prepend (notMem_scalar (.inl h)).1 (notMem_scalar (.inl h)).2 nofun
  case literal h => exact hc.prepend (notMem_scalar (.inr h)).1 (notMem_scalar (.inr h)).2 nofun
  case string h  => exact hc.string h fun hm => hb (.tail _ (List.mem_append_left _ hm))
  case noElements => exact hc.unmarked
  case noMembers  => exact hc.unmarked
  case array t _ _ _ _ hs ih =>
    have inside := ih (fun hm => hb (.tail _ hm)) (hc.of_mark hs (by decide) (by decide) fun _ => .inl rfl)
    exact inside.prepend (p := [91]) (by decide) (by decide) nofun
  case object hs ih =>
    have inside := ih (fun hm => hb (.tail _ hm)) (hc.of_mark hs (by decide) (by decide) fun _ => .inl rfl)
    exact inside.prepend (p := [123]) (by decide) (by decide) nofun
  case element ih =>
    exact (ih (notMem_suffix hb (List.dropWhile_suffix _)) hc).of_skip
  case elements he hs _ ih ih' =>
    have front := notMem_suffix hb (List.dropWhile_suffix isSpace)
    have behind := ih' (notMem_suffix front ((suffix_of_skip hs).trans he.suffix)) hc
    exact (ih front (behind.of_mark hs (by decide) (by decide) fun _ => .inr (.inl rfl))).of_skip
  case member hn hk hs _ ih =>
    exact (ih (notMem_suffix hb (suffix_of_member hn hs)) hc).member hn hk hb hs
  case members hn hk hs he hd _ ih ih' =>
    have value := notMem_suffix hb (suffix_of_member hn hs)
    have behind := ih' (notMem_suffix value ((suffix_of_skip hd).trans he.suffix)) hc
    have inside := ih value (behind.of_mark hd (by decide) (by decide) fun _ => .inr (.inl rfl))
    exact inside.member hn hk hb hs

-- The bytes from a string to the next one are no text without commas and colons.
theorem Chain.separator (h : Chain true t) (hq : 34 ∉ p) (hp : p ++ [34] <+: t) : 44 ∈ p ∨ 58 ∈ p := by
  cases h
  case last hq' _ =>
    exact absurd (hp.subset (List.mem_append_right _ (.head _))) hq'
  case next hq' _ _ _ _ hm =>
    obtain ⟨rfl, -⟩ := Occurrence.prefix_mark hq hq' hp
    exact hm rfl

theorem Spells.plain_text {e : Tree .value} (h : Spells e t t₁) (hb : 92 ∉ t) : ∀ s ∈ e.text, 92 ∉ s := by
  intro s hs
  rcases h.quote with ⟨s', _, he, _, rfl⟩ | ⟨he, _⟩
  · obtain rfl := Option.some_inj.mp (he.symm.trans hs)
    exact fun hm => hb (.tail _ (List.mem_append_left _ hm))
  · rw [he] at hs
    cases hs

-- Neither the names nor the values have escapes.
theorem Spells.plain {e : Tree k} (h : Spells e t t₁) (hb : 92 ∉ t) :
    ∀ m ∈ e.list, 92 ∉ m.1 ∧ ∀ s ∈ m.2.text, 92 ∉ s := by
  induction h
  case member hn _ hc he _ =>
    intro m hm
    rw [List.mem_singleton.mp hm]
    exact ⟨not_escaped hb hn, he.plain_text (notMem_suffix hb (suffix_of_member hn hc))⟩
  case members hn _ hc he hd _ _ ih =>
    have value := notMem_suffix hb (suffix_of_member hn hc)
    intro m hm
    rcases List.mem_cons.mp hm with rfl | hm
    · exact ⟨not_escaped hb hn, he.plain_text value⟩
    · exact ih (notMem_suffix value ((suffix_of_skip hd).trans he.suffix)) m hm
  all_goals nofun

theorem ObjectText.plain {ms : Tree .members} {json : Bytes} (h : ObjectText ms json) (hb : 92 ∉ json) :
    ∀ m ∈ ms.list, 92 ∉ m.1 ∧ ∀ s ∈ m.2.text, 92 ∉ s := by
  obtain ⟨t, ht, -⟩ := h
  have text : 92 ∉ skip json := notMem_suffix hb (List.dropWhile_suffix _)
  generalize skip json = e at ht text
  cases ht
  case object hs _ => exact hs.plain fun hb => text (.tail _ hb)

end
end JsonText
