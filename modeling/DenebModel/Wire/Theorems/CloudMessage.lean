import DenebModel.Primitives.JsonSpelling
import DenebModel.Wire.CloudMessage

namespace Deneb.CloudMessage

open CString JsonText

section

variable {opens : Bool} {n key s t t₁ u v : Bytes} {c : UInt8} {d : Nat} {k : Kind}

theorem locate_raw (hq : c ≠ 34) (ho : c ≠ 123) (hc : c ≠ 125) :
    locate opens n (c :: t) { depth := d } = locate opens n t { depth := d } := by
  rw [locate, if_neg fun h => hq h.2.1]
  simp [Scanner.next, hq, ho, hc]

-- Bytes that change nothing outside of the strings.
def Inert (s : Bytes) : Prop :=
  ∀ c ∈ s, c ≠ 34 ∧ c ≠ 123 ∧ c ≠ 125

theorem locate_inert (h : Inert s) :
    locate opens n (s ++ t) { depth := d } = locate opens n t { depth := d } := by
  induction s
  case nil => rfl
  case cons c s ih =>
    have ⟨hq, ho, hc⟩ := h c (.head _)
    exact (locate_raw hq ho hc).trans (ih fun c hm => h c (.tail _ hm))

theorem locate_skip : locate opens n t { depth := d } = locate opens n (skip t) { depth := d } := by
  obtain ⟨sp, he, hs⟩ := @skip_eq t
  have inert : Inert sp := by
    intro c hc
    have space := hs c hc
    refine ⟨?_, ?_, ?_⟩ <;> rintro rfl <;> exact absurd space (by decide)
  conv => lhs; rw [he]
  exact locate_inert inert

theorem locate_open : locate opens n (123 :: t) { depth := d } = locate opens n t { depth := d + 1 } := by
  rw [locate, if_neg fun h => absurd h.2.1 (by decide)]
  rfl

theorem locate_close : locate opens n (125 :: t) { depth := d + 1 } = locate opens n t { depth := d } := by
  rw [locate, if_neg fun h => absurd h.2.1 (by decide)]
  rfl

theorem locate_inside {e : Bool} : locate opens n (c :: t) { depth := d, inString := true, escape := e } =
    locate opens n t (Scanner.next { depth := d, inString := true, escape := e } c) := by
  rw [locate, if_neg fun h => nomatch h.1]

theorem locate_letter (hq : c ≠ 34) (hb : c ≠ 92) :
    locate opens n (c :: t) { depth := d, inString := true } =
      locate opens n t { depth := d, inString := true } := by
  rw [locate_inside]
  simp [Scanner.next, hq, hb]

theorem locate_escaped : locate opens n (92 :: c :: t) { depth := d, inString := true } =
    locate opens n t { depth := d, inString := true } := by
  rw [locate_inside]
  exact locate_inside

-- A string is passed up to its closing quote.
theorem locate_characters (h : Characters s v) :
    locate opens n (s ++ 34 :: t) { depth := d, inString := true } = locate opens n t { depth := d } := by
  have digit {x : UInt8} {m : Nat} (hx : JsonText.hexDigit x = some m) : x ≠ 34 ∧ x ≠ 92 := by
    constructor <;> rintro rfl <;> cases hx
  induction h
  case nil                    => exact locate_inside
  case plain c _ hq hb _ ih   => exact (locate_letter hq hb).trans ih
  case escaped c d _ _ ih     => exact locate_escaped.trans ih
  case unicode ha hb hc hd _ ih =>
    refine locate_escaped.trans ((locate_letter (digit ha).1 (digit ha).2).trans ?_)
    refine (locate_letter (digit hb).1 (digit hb).2).trans ?_
    refine (locate_letter (digit hc).1 (digit hc).2).trans ?_
    exact (locate_letter (digit hd).1 (digit hd).2).trans ih

-- A key that can be written without escapes, and whose text with its quotes fits.
structure Plain (key : Bytes) : Prop where
  plain  : ∀ c ∈ key, c ≠ 34 ∧ c ≠ 92 ∧ 32 ≤ c
  length : key.length ≤ 61

theorem needle_eq (h : Plain key) : needle key = 34 :: (key ++ [34]) :=
  fit_of_length_lt (by simp; have := h.length; omega)

theorem startsWith_needle (h : Characters s v) (hk : Plain key) :
    startsWith (34 :: (s ++ 34 :: t)) (needle key) ↔ s = key := by
  rw [needle_eq hk, startsWith, List.isPrefixOf_iff_prefix, List.cons_prefix_cons, and_iff_right rfl]
  constructor
  case mp =>
    rintro ⟨rest, hr⟩
    rw [List.append_assoc] at hr
    exact ((characters_of_plain hk.plain).unique h hr).1.symm
  case mpr =>
    rintro rfl
    exact ⟨t, by simp⟩

theorem drop_needle (hk : Plain key) : (34 :: (key ++ 34 :: t)).drop (needle key).length = t := by
  have split : 34 :: (key ++ 34 :: t) = needle key ++ t := by
    rw [needle_eq hk]
    simp
  rw [split, List.drop_left]

-- A string that is no name, or that is not at the top level, or that is another one.
theorem locate_string (h : Characters s v) (hk : Plain key)
    (ho : d ≠ 1 ∨ s ≠ key ∨ opens = true ∧ (skip t).head? ≠ some 58) :
    locate opens (needle key) (34 :: (s ++ 34 :: t)) { depth := d } =
      locate opens (needle key) t { depth := d } := by
  rw [locate]
  split
  case isFalse => exact locate_characters h
  case isTrue hm =>
    have same := (startsWith_needle h hk).mp hm.2.2.2
    rcases ho with hd | hs | ⟨rfl, hc⟩
    · exact absurd hm.2.2.1 hd
    · exact absurd same hs
    · rw [same, drop_needle hk, ← same]
      exact (if_neg hc).trans (locate_characters h)

theorem locate_name (hk : Plain key) (hc : skip t = 58 :: u) :
    locate opens (needle key) (34 :: (key ++ 34 :: t)) { depth := 1 } = some u := by
  have here := (@startsWith_needle key key t key (characters_of_plain hk.plain) hk).mpr rfl
  rw [locate, if_pos ⟨rfl, rfl, rfl, here⟩, drop_needle hk, hc]
  rfl

theorem inert_scalar (h : Number s ∨ s ∈ literals) : Inert s := by
  rcases h with h | h
  case inl =>
    intro c hc
    have numeric := h.isNumeric c hc
    refine ⟨?_, ?_, ?_⟩ <;> rintro rfl <;> exact absurd numeric (by decide)
  case inr =>
    have all : ∀ s ∈ literals, ∀ c ∈ s, c ≠ 34 ∧ c ≠ 123 ∧ c ≠ 125 := by decide
    exact all s h

-- A bracket, comma or colon behind white space.
theorem locate_mark (h : skip t = c :: u) (hc : c ≠ 34 ∧ c ≠ 123 ∧ c ≠ 125) :
    locate opens n t { depth := d } = locate opens n u { depth := d } := by
  rw [locate_skip, h, locate_raw hc.1 hc.2.1 hc.2.2]

theorem not_colon (h : skip t = c :: u) (hc : c ≠ 58) : (skip t).head? ≠ some 58 := by
  rw [h, List.head?_cons]
  exact fun he => hc (Option.some_inj.mp he)

-- Nothing of a value is found, unless it has the text of the key as a string that is passed wrongly.
theorem locate_tree {e : Tree k} (h : Spells e t t₁) (hk : Plain key) (hd : 1 ≤ d) (hm : k = .members → d ≠ 1)
    (hs : d = 1 → key ∉ e.strings ∨ opens = true ∧ (skip t₁).head? ≠ some 58) :
    locate opens (needle key) t { depth := d } = locate opens (needle key) t₁ { depth := d } := by
  induction h generalizing d
  case number h       => exact locate_inert (inert_scalar (.inl h))
  case literal h      => exact locate_inert (inert_scalar (.inr h))
  case noElements     => rfl
  case noMembers      => rfl
  case string h =>
    refine locate_string h hk ?_
    by_cases one : d = 1
    case neg => exact .inl one
    case pos =>
      right
      refine (hs one).imp_left fun hn he => hn ?_
      rw [he]
      exact .head _
  case array hc ih =>
    rw [locate_raw (by decide) (by decide) (by decide), ih hd nofun ?_, locate_mark hc (by decide)]
    exact fun one => (hs one).imp_right fun ho => ⟨ho.1, not_colon hc (by decide)⟩
  case object hc ih =>
    rw [locate_open, ih (by omega) (fun _ => by omega) (fun _ => by omega), locate_skip, hc, locate_close]
  case element ih =>
    rw [locate_skip, ih hd nofun fun one => ?_]
    refine (hs one).imp_left fun hn he => hn ?_
    exact List.mem_append_left _ he
  case elements hc _ ih ih' =>
    rw [locate_skip, ih hd nofun fun one => ?_, locate_mark hc (by decide), ih' hd nofun fun one => ?_]
    · exact (hs one).imp_left fun hn he => hn (List.mem_append_right _ he)
    · exact (hs one).imp (fun hn he => hn (List.mem_append_left _ he)) fun ho => ⟨ho.1, not_colon hc (by decide)⟩
  case member hn hs' hc _ ih =>
    have deep := hm rfl
    rw [locate_skip, hn, locate_string hs' hk (.inl deep), locate_mark hc (by decide), locate_skip,
      ih hd nofun fun one => absurd one deep]
  case members hn hs' hc _ he _ ih ih' =>
    have deep := hm rfl
    rw [locate_skip, hn, locate_string hs' hk (.inl deep), locate_mark hc (by decide), locate_skip,
      ih hd nofun fun one => absurd one deep, locate_mark he (by decide),
      ih' hd hm fun one => absurd one deep]

-- No string in front of the first member that is spelled like the key has the text of the key, save
-- in an object of its own.
def Undisturbed (key : Bytes) (e : Tree k) : Prop :=
  ∀ m ∈ e.list.takeWhile (·.1 ≠ key), key ∉ m.2.strings

theorem Undisturbed.tail {e : Tree .value} {ms : Tree .members} (h : Undisturbed key (.member s e ms))
    (hs : s ≠ key) : key ∉ e.strings ∧ Undisturbed key ms := by
  have split : (Tree.member s e ms).list.takeWhile (·.1 ≠ key) = (s, e) :: ms.list.takeWhile (·.1 ≠ key) :=
    List.takeWhile_cons_of_pos (by simpa using hs)
  rw [Undisturbed, split] at h
  exact ⟨h _ (.head _), fun m hm => h m (.tail _ hm)⟩

-- What is found of a list of members: nothing, or the value of the first that is spelled like the key.
structure Finds (opens : Bool) (key : Bytes) (e : Tree k) (t t₁ : Bytes) : Prop where
  absent : key ∉ e.list.map Prod.fst → locate opens (needle key) t { depth := 1 } =
    locate opens (needle key) t₁ { depth := 1 }
  found  : ∀ m, e.list.find? (·.1 = key) = some m →
    ∃ q rest, locate opens (needle key) t { depth := 1 } = some q ∧ Spells m.2 (skip q) rest

theorem finds_name {e : Tree .value} {ms : Tree .members} {t₂ t₃ : Bytes} (hk : Plain key)
    (hn : skip t = 34 :: (key ++ 34 :: t₁)) (hc : skip t₁ = 58 :: t₂) (he : Spells e (skip t₂) t₃) :
    Finds opens key (.member key e ms) t u := by
  constructor
  case absent => exact fun h => absurd (List.mem_cons_self ..) h
  case found =>
    intro m hm
    obtain rfl : (key, e) = m := by simpa [Tree.list] using hm
    refine ⟨t₂, t₃, ?_, he⟩
    rw [locate_skip, hn, locate_name hk hc]

theorem Finds.cons {e : Tree .value} {ms : Tree .members} {t₂ : Bytes} (hs : s ≠ key)
    (he : locate opens (needle key) t { depth := 1 } = locate opens (needle key) t₂ { depth := 1 })
    (h : Finds opens key ms t₂ t₁) : Finds opens key (.member s e ms) t t₁ := by
  constructor
  case absent =>
    intro hn
    exact he.trans (h.absent fun hm => hn (List.mem_cons_of_mem _ hm))
  case found =>
    intro m hm
    have rest : ms.list.find? (·.1 = key) = some m := by simpa [Tree.list, hs] using hm
    obtain ⟨q, rest, hq, hv⟩ := h.found m rest
    exact ⟨q, rest, he.trans hq, hv⟩

-- Another name is passed, and then the value.
theorem locate_value {t₂ : Bytes} (hk : Plain key) (hs : s ≠ key) (hn : skip t = 34 :: (s ++ 34 :: t₁))
    (hv : Characters s v) (hc : skip t₁ = 58 :: t₂) :
    locate opens (needle key) t { depth := 1 } = locate opens (needle key) (skip t₂) { depth := 1 } := by
  rw [locate_skip, hn, locate_string hv hk (.inr (.inl hs)), locate_mark hc (by decide), locate_skip]

theorem locate_member {e : Tree .value} {t₂ t₃ : Bytes} (hk : Plain key) (hs : s ≠ key)
    (hn : skip t = 34 :: (s ++ 34 :: t₁)) (hv : Characters s v) (hc : skip t₁ = 58 :: t₂)
    (he : Spells e (skip t₂) t₃) (ho : key ∉ e.strings ∨ opens = true ∧ (skip t₃).head? ≠ some 58) :
    locate opens (needle key) t { depth := 1 } = locate opens (needle key) t₃ { depth := 1 } :=
  (locate_value hk hs hn hv hc).trans (locate_tree he hk (Nat.le_refl 1) nofun fun _ => ho)

theorem finds {e : Tree k} (h : Spells e t t₁) (hm : k = .members) (hk : Plain key)
    (hu : opens = true ∨ Undisturbed key e) (ht : (skip t₁).head? ≠ some 58) : Finds opens key e t t₁ := by
  induction h
  case noMembers => exact ⟨fun _ => rfl, nofun⟩
  case member s _ _ _ _ _ hn hs hc he _ =>
    by_cases same : s = key
    case pos =>
      subst same
      exact finds_name hk hn hc he
    case neg =>
      refine .cons same (locate_member hk same hn hs hc he ?_) ⟨fun _ => rfl, nofun⟩
      exact (hu.imp_right fun hu => (hu.tail same).1).symm.imp_right fun ho => ⟨ho, ht⟩
  case members s _ _ _ _ _ _ _ _ _ _ hn hs hc he hd _ _ ih =>
    by_cases same : s = key
    case pos =>
      subst same
      exact finds_name hk hn hc he
    case neg =>
      have ho := (hu.imp_right fun hu => (hu.tail same).1).symm.imp_right fun ho =>
        (⟨ho, not_colon hd (by decide)⟩ : _ ∧ _)
      have rest := ih rfl (hu.imp_right fun hu => (hu.tail same).2) ht
      refine .cons same ?_ rest
      rw [locate_member hk same hn hs hc he ho, locate_mark hd (by decide)]
  all_goals cases hm

end

section

variable {opens : Bool} {key s t v json : Bytes} {c : UInt8} {ms : Tree .members} {outSize : Nat}

theorem finds_json (h : ObjectText ms json) (hk : Plain key) (hu : opens = true ∨ Undisturbed key ms) :
    (key ∉ ms.list.map Prod.fst → locate opens (needle key) json {} = none) ∧
      ∀ m, ms.list.find? (·.1 = key) = some m →
        ∃ q rest, locate opens (needle key) json {} = some q ∧ Spells m.2 (skip q) rest := by
  obtain ⟨t, ht, blank⟩ := h
  have start : locate opens (needle key) json {} = locate opens (needle key) (skip json) { depth := 0 } :=
    locate_skip
  generalize skip json = text at ht start
  cases ht
  case object t₁ t₂ hm hc =>
    have inside := finds hm rfl hk hu (not_colon hc (by decide))
    rw [locate_open] at start
    constructor
    case left =>
      intro hn
      rw [start, inside.absent hn, locate_skip, hc, locate_close, locate_skip, blank]
      rfl
    case right =>
      intro m hf
      obtain ⟨q, rest, hq, hv⟩ := inside.found m hf
      exact ⟨q, rest, start.trans hq, hv⟩

theorem notMem_of_find (h : ms.list.find? (·.1 = key) = none) : key ∉ ms.list.map Prod.fst := by
  intro hm
  obtain ⟨m, hm, he⟩ := List.mem_map.mp hm
  exact absurd he (by simpa using List.find?_eq_none.mp h m hm)

theorem hasTopLevelKey_iff (h : ObjectText ms json) (hk : Plain key) :
    jsonHasTopLevelKey json key ↔ ∃ m ∈ ms.list, m.1 = key := by
  have ⟨absent, found⟩ := @finds_json true key json ms h hk (.inl rfl)
  rw [jsonHasTopLevelKey]
  cases hf : ms.list.find? (·.1 = key)
  case none =>
    have hn := notMem_of_find hf
    rw [absent hn]
    exact iff_of_false nofun fun ⟨m, hm, he⟩ => hn (List.mem_map.mpr ⟨m, hm, he⟩)
  case some m =>
    obtain ⟨q, -, hq, -⟩ := found m hf
    rw [hq]
    exact iff_of_true rfl ⟨m, List.mem_of_find?_eq_some hf, by simpa using List.find?_some hf⟩

-- The text of a string without the backslashes; the byte behind one of them stays.
def letters : Bool → Bytes → Bytes
  | _, []          => []
  | true, c :: s   => c :: letters false s
  | false, c :: s  => if c = 92 then letters true s else c :: letters false s

-- The loop copies these bytes as far as there is room.
def Copies (q l : Bytes) : Prop :=
  ∀ room, copyValue room q = l.take room

theorem Copies.letter {q l : Bytes} (h : Copies q l) (hc : c ≠ 34 ∧ c ≠ 92) : Copies (c :: q) (c :: l) := by
  intro room
  cases room
  case zero      => rfl
  case succ room => rw [copyValue, if_neg hc.1, if_neg fun hb => hc.2 hb.1, h room, List.take_succ_cons]

theorem Copies.escaped {q l : Bytes} (h : Copies q l) : Copies (92 :: c :: q) (c :: l) := by
  intro room
  cases room
  case zero      => rfl
  case succ room =>
    rw [copyValue, if_neg (by decide), if_pos ⟨rfl, List.cons_ne_nil _ _⟩, List.tail_cons, h room]
    rfl

theorem letters_cons (h : c ≠ 92) : letters false (c :: s) = c :: letters false s :=
  if_neg h

theorem copies (h : Characters s v) : Copies (s ++ 34 :: t) (letters false s) := by
  have digit {x : UInt8} {m : Nat} (hx : JsonText.hexDigit x = some m) : x ≠ 34 ∧ x ≠ 92 := by
    constructor <;> rintro rfl <;> cases hx
  induction h
  case nil =>
    intro room
    cases room <;> rfl
  case plain c _ hq hb _ ih =>
    rw [letters_cons hb]
    exact ih.letter ⟨hq, hb⟩
  case escaped c d _ _ ih => exact ih.escaped
  case unicode ha hb hc hd _ ih =>
    have rest := ((((ih.letter (digit hd)).letter (digit hc)).letter (digit hb)).letter (digit ha))
    rw [← letters_cons (digit hd).2, ← letters_cons (digit hc).2, ← letters_cons (digit hb).2,
      ← letters_cons (digit ha).2] at rest
    exact rest.escaped

-- The text of the first member that is spelled like the key, if its value is a string.
def spelled (key : Bytes) (ms : Tree .members) : Option Bytes :=
  (ms.list.find? (·.1 = key)).bind (·.2.text)

theorem strValue_eq (h : ObjectText ms json) (hk : Plain key) (hu : Undisturbed key ms) :
    jsonTopLevelStrValue json key outSize =
      if outSize = 0 then none else (spelled key ms).map fun s => (letters false s).take (outSize - 1) := by
  have ⟨absent, found⟩ := @finds_json false key json ms h hk (.inr hu)
  rw [jsonTopLevelStrValue, spelled]
  split
  case isTrue => rfl
  case isFalse =>
    cases hf : ms.list.find? (·.1 = key)
    case none =>
      rw [absent (notMem_of_find hf)]
      rfl
    case some m =>
      obtain ⟨q, rest, hq, hv⟩ := found m hf
      rw [hq, Option.bind_some, Option.bind_some]
      rcases hv.quote with ⟨s, v, hs, hc, ht⟩ | ⟨hn, hh⟩
      · rw [hs, ht, List.head?_cons, if_pos rfl, List.tail_cons, copies hc]
        rfl
      · rw [hn, if_neg hh]
        rfl

end

section

variable {key n s t t₁ v json : Bytes} {d : Nat} {k : Kind} {ms : Tree .members} {outSize : Nat}

-- Without quotes the bytes change only the depth.
theorem locate_outside (hq : 34 ∉ s) : ∃ depth,
    locate false n (s ++ t) { depth := d } = locate false n t { depth } := by
  induction s generalizing d
  case nil => exact ⟨d, rfl⟩
  case cons c s ih =>
    have hc : c ≠ 34 := fun he => hq (he ▸ .head _)
    have next : ∃ depth, Scanner.next { depth := d } c = { depth } := by
      simp only [Scanner.next, if_neg hc, Bool.false_eq_true, if_false]
      split
      · exact ⟨_, rfl⟩
      · split <;> exact ⟨_, rfl⟩
    obtain ⟨depth, hd⟩ := next
    obtain ⟨last, hl⟩ := @ih depth fun hm => hq (.tail _ hm)
    refine ⟨last, ?_⟩
    rw [List.cons_append, locate, if_neg fun h => hc h.2.1, hd, hl]

theorem locate_within (hq : 34 ∉ s) (hb : 92 ∉ s) :
    locate false n (s ++ t) { depth := d, inString := true } =
      locate false n t { depth := d, inString := true } := by
  induction s
  case nil => rfl
  case cons c s ih =>
    refine (locate_letter (fun he => hq (he ▸ .head _)) fun he => hb (he ▸ .head _)).trans ?_
    exact ih (fun hm => hq (.tail _ hm)) fun hm => hb (.tail _ hm)

-- A key that no text between two strings can be, in a text without escapes.
structure Ordinary (key json : Bytes) : Prop where
  comma : 44 ∉ key
  colon : 58 ∉ key
  text  : 92 ∉ json

-- At the end of a string that is taken for the text between two strings.
theorem locate_end (h : Chain true t) (hk : Plain key) (ho : 44 ∉ key ∧ 58 ∉ key) :
    locate false (needle key) (34 :: t) { depth := d } =
      locate false (needle key) t { depth := d, inString := true } := by
  have hq : 34 ∉ key := fun hm => (hk.plain 34 hm).1 rfl
  rw [locate, if_neg]
  · rfl
  · rintro ⟨-, -, -, hp⟩
    rw [needle_eq hk, startsWith, List.isPrefixOf_iff_prefix, List.cons_prefix_cons] at hp
    exact (h.separator hq hp.2).elim ho.1 ho.2

-- Once the strings are taken for the texts between them, nothing is found any more.
theorem locate_inverted {mark : Bool} (h : Chain mark t) (hk : Plain key) (ho : 44 ∉ key ∧ 58 ∉ key) :
    locate false (needle key) t { depth := d, inString := true } = none := by
  induction h generalizing d
  case last t hq hb =>
    have all := @locate_within (needle key) _ [] d hq hb
    rwa [List.append_nil] at all
  case next hq hb _ hqs _ h ih =>
    obtain ⟨depth, hs⟩ := @locate_outside (needle key) _ (34 :: _) d hqs
    rw [locate_within hq hb]
    exact locate_inside.trans (hs.trans ((locate_end h hk ho).trans ih))

-- A text of the key that is no name.
theorem locate_stray (h : Chain true t) (hk : Plain key) (ho : 44 ∉ key ∧ 58 ∉ key)
    (hc : (skip t).head? ≠ some 58) :
    locate false (needle key) (34 :: (key ++ 34 :: t)) { depth := 1 } = none := by
  have hq : 34 ∉ key := fun hm => (hk.plain 34 hm).1 rfl
  have here := (@startsWith_needle key key t key (characters_of_plain hk.plain) hk).mpr rfl
  obtain ⟨depth, hs⟩ := @locate_outside (needle key) key (34 :: t) 1 hq
  rw [locate, if_pos ⟨rfl, rfl, rfl, here⟩, drop_needle hk]
  exact (if_neg hc).trans (hs.trans ((locate_end h hk ho).trans (locate_inverted h hk ho)))

theorem locate_disturbed {e : Tree k} (h : Spells e t t₁) (hk : Plain key) (ho : 44 ∉ key ∧ 58 ∉ key)
    (hb : 92 ∉ t) (hc : Chain true t₁) (hn : (skip t₁).head? ≠ some 58) (hs : key ∈ e.strings) :
    locate false (needle key) t { depth := 1 } = none := by
  induction h
  case string h =>
    obtain rfl := List.mem_singleton.mp hs
    exact locate_stray hc hk ho hn
  case array hd ih =>
    rw [locate_raw (by decide) (by decide) (by decide)]
    refine ih (fun hm => hb (.tail _ hm)) ?_ (not_colon hd (by decide)) hs
    exact hc.of_mark hd (by decide) (by decide) fun _ => .inl rfl
  case element ih =>
    rw [locate_skip]
    refine ih (notMem_suffix hb (List.dropWhile_suffix _)) hc hn ?_
    simpa [Tree.strings] using hs
  case elements he hd h' ih ih' =>
    have front := notMem_suffix hb (List.dropWhile_suffix JsonText.isSpace)
    have rest := notMem_suffix front ((suffix_of_skip hd).trans he.suffix)
    have behind : Chain true _ := (h'.chain rest hc).of_mark hd (by decide) (by decide) fun _ => .inr (.inl rfl)
    rw [locate_skip]
    rcases Decidable.em (key ∈ Tree.strings _) with first | first
    · exact ih front behind (not_colon hd (by decide)) first
    · rw [locate_tree he hk (Nat.le_refl 1) nofun fun _ => .inl first, locate_mark hd (by decide)]
      exact ih' rest hc hn ((List.mem_append.mp hs).resolve_left first)
  all_goals cases hs

theorem not_undisturbed_cons {e : Tree .value} (h : ¬Undisturbed key (.member s e ms)) :
    s ≠ key ∧ (key ∈ e.strings ∨ ¬Undisturbed key ms) := by
  have other : s ≠ key := by
    rintro rfl
    refine h fun m hm => ?_
    have empty : (Tree.member s e ms).list.takeWhile (·.1 ≠ s) = [] :=
      List.takeWhile_cons_of_neg (by simp)
    rw [empty] at hm
    cases hm
  refine ⟨other, Decidable.or_iff_not_imp_left.mpr fun hs hu => h fun m hm => ?_⟩
  have split : (Tree.member s e ms).list.takeWhile (·.1 ≠ key) = (s, e) :: ms.list.takeWhile (·.1 ≠ key) :=
    List.takeWhile_cons_of_pos (by simpa using other)
  rw [split] at hm
  rcases List.mem_cons.mp hm with rfl | hm
  · exact hs
  · exact hu m hm

theorem locate_members {e : Tree k} (h : Spells e t t₁) (hm : k = .members) (hk : Plain key)
    (ho : 44 ∉ key ∧ 58 ∉ key) (hb : 92 ∉ t) (hc : Chain true t₁) (hn : (skip t₁).head? ≠ some 58)
    (hs : ¬Undisturbed key e) : locate false (needle key) t { depth := 1 } = none := by
  induction h
  case noMembers => exact absurd (fun m hm => nomatch hm) hs
  case member hn' hv hd he _ =>
    have ⟨other, stray⟩ := not_undisturbed_cons hs
    have inside := stray.resolve_right (not_not.mpr fun m hm => nomatch hm)
    rw [locate_value hk other hn' hv hd]
    exact locate_disturbed he hk ho (notMem_suffix hb (suffix_of_member hn' hd)) hc hn inside
  case members hn' hv hd he hd' h' _ ih =>
    have ⟨other, stray⟩ := not_undisturbed_cons hs
    have value := notMem_suffix hb (suffix_of_member hn' hd)
    have rest := notMem_suffix value ((suffix_of_skip hd').trans he.suffix)
    have behind : Chain true _ := (h'.chain rest hc).of_mark hd' (by decide) (by decide) fun _ => .inr (.inl rfl)
    rcases Decidable.em (key ∈ Tree.strings _) with first | first
    · rw [locate_value hk other hn' hv hd]
      exact locate_disturbed he hk ho value behind (not_colon hd' (by decide)) first
    · rw [locate_member hk other hn' hv hd he (.inl first), locate_mark hd' (by decide)]
      exact ih rfl rest hc hn (stray.resolve_left first)
  all_goals cases hm

theorem strValue_eq_none (h : ObjectText ms json) (hk : Plain key) (ho : Ordinary key json)
    (hs : ¬Undisturbed key ms) : jsonTopLevelStrValue json key outSize = none := by
  obtain ⟨t, ht, blank⟩ := h
  have start : locate false (needle key) json {} = locate false (needle key) (skip json) { depth := 0 } :=
    locate_skip
  have text : 92 ∉ skip json := notMem_suffix ho.text (List.dropWhile_suffix _)
  have none : locate false (needle key) json {} = none := by
    rw [start]
    generalize skip json = e at ht text
    cases ht
    case object hm hd =>
      have last : Chain true t := .of_skip (by rw [blank]; exact .last List.not_mem_nil List.not_mem_nil)
      rw [locate_open]
      refine locate_members hm rfl hk ⟨ho.comma, ho.colon⟩ (fun hb => text (.tail _ hb)) ?_
        (not_colon hd (by decide)) hs
      exact last.of_mark hd (by decide) (by decide) fun _ => .inl rfl
  rw [jsonTopLevelStrValue, none]
  exact ite_self _

-- The first member of a name, with its escapes decoded.
def First (key : Bytes) (ms : Tree .members) (m : Bytes × Tree .value) : Prop :=
  ∃ front back, ms.list = front ++ m :: back ∧ Characters m.1 key ∧ ∀ x ∈ front, ¬Characters x.1 key

-- What the lookup of a key is meant to give.
structure LooksUp (ms : Tree .members) (json key : Bytes) (outSize : Nat) : Prop where
  has   : jsonHasTopLevelKey json key ↔ ∃ m ∈ ms.list, Characters m.1 key
  str   : (jsonTopLevelStrValue json key outSize).isSome ↔ ∃ m s, First key ms m ∧ m.2.text = some s
  value : ∀ m s w, First key ms m → m.2.text = some s → Characters s w → (∀ c ∈ w, c < 128) →
    w.length < outSize → jsonTopLevelStrValue json key outSize = some w

-- The first member of the name and the first one that is spelled like it tell the same: they are
-- strings or they are not, and what the one stands for is the other without its backslashes.
structure Agrees (ms : Tree .members) (key : Bytes) (outSize : Nat) : Prop where
  named : (∃ m ∈ ms.list, Characters m.1 key) → ∃ m ∈ ms.list, m.1 = key
  kind  : (0 < outSize ∧ ∃ s, spelled key ms = some s) ↔ ∃ m s, First key ms m ∧ m.2.text = some s
  value : ∀ m s w, First key ms m → m.2.text = some s → Characters s w → (∀ c ∈ w, c < 128) →
    w.length < outSize → ∃ x, spelled key ms = some x ∧ (letters false x).take (outSize - 1) = w

theorem looksUp_iff_agrees (h : ObjectText ms json) (hk : Plain key) (hu : Undisturbed key ms) :
    LooksUp ms json key outSize ↔ Agrees ms key outSize := by
  have value := @strValue_eq key json ms outSize h hk hu
  have some : (jsonTopLevelStrValue json key outSize).isSome ↔ 0 < outSize ∧ ∃ s, spelled key ms = some s := by
    rw [value]
    by_cases hz : outSize = 0
    case pos => simp [hz]
    case neg =>
      rw [if_neg hz, Option.isSome_map, Option.isSome_iff_exists, and_iff_right (Nat.pos_of_ne_zero hz)]
  have same : ∀ w : Bytes, w.length < outSize → (jsonTopLevelStrValue json key outSize = Option.some w ↔
      ∃ x, spelled key ms = Option.some x ∧ (letters false x).take (outSize - 1) = w) := by
    intro w hw
    rw [value, if_neg (by omega), Option.map_eq_some_iff]
  constructor
  case mp =>
    rintro ⟨has, str, value⟩
    refine ⟨fun hm => (hasTopLevelKey_iff h hk).mp (has.mpr hm), some.symm.trans str, ?_⟩
    exact fun m s w hf ht hw ha hl => (same w hl).mp (value m s w hf ht hw ha hl)
  case mpr =>
    rintro ⟨named, kind, value⟩
    refine ⟨(hasTopLevelKey_iff h hk).trans ⟨?_, named⟩, some.trans kind, ?_⟩
    · rintro ⟨m, hm, rfl⟩
      exact ⟨m, hm, characters_of_plain hk.plain⟩
    · exact fun m s w hf ht hw ha hl => (same w hl).mpr (value m s w hf ht hw ha hl)

-- Without escapes the names are what they are spelled.
theorem name_iff (h : ObjectText ms json) (hk : Plain key) (ho : Ordinary key json) :
    ∀ m ∈ ms.list, Characters m.1 key ↔ m.1 = key := by
  intro m hm
  constructor
  case mp  => exact fun hc => ((hc.eq_self (h.plain ho.text m hm).1).1).symm
  case mpr =>
    intro he
    rw [he]
    exact characters_of_plain hk.plain

theorem first_iff (h : ObjectText ms json) (hk : Plain key) (ho : Ordinary key json)
    {m : Bytes × Tree .value} : First key ms m ↔ ms.list.find? (·.1 = key) = some m := by
  have name := name_iff h hk ho
  rw [List.find?_eq_some_iff_append]
  constructor
  case mp =>
    rintro ⟨front, back, hl, hm, hf⟩
    have here : ∀ x ∈ front ++ m :: back, x ∈ ms.list := fun x hx => hl ▸ hx
    refine ⟨by simpa using (name m (here m (by simp))).mp hm, front, back, hl, fun x hx => ?_⟩
    simpa using mt (name x (here x (List.mem_append_left _ hx))).mpr (hf x hx)
  case mpr =>
    rintro ⟨hm, front, back, hl, hf⟩
    have here : ∀ x ∈ front ++ m :: back, x ∈ ms.list := fun x hx => hl ▸ hx
    refine ⟨front, back, hl, (name m (here m (by simp))).mpr (by simpa using hm), fun x hx hc => ?_⟩
    have same := (name x (here x (List.mem_append_left _ hx))).mp hc
    simpa [same] using hf x hx

theorem string_iff (h : ObjectText ms json) (hk : Plain key) (ho : Ordinary key json) :
    (∃ m s, First key ms m ∧ m.2.text = some s) ↔ spelled key ms ≠ none := by
  rw [Option.ne_none_iff_exists']
  constructor
  case mp =>
    rintro ⟨m, s, hf, hs⟩
    exact ⟨s, by rw [spelled, (first_iff h hk ho).mp hf, Option.bind_some, hs]⟩
  case mpr =>
    rintro ⟨s, hs⟩
    obtain ⟨m, hf, hs⟩ := Option.bind_eq_some_iff.mp hs
    exact ⟨m, s, (first_iff h hk ho).mpr hf, hs⟩

theorem letters_eq (h : 92 ∉ s) : letters false s = s := by
  induction s
  case nil => rfl
  case cons c s ih => rw [letters_cons fun he => h (he ▸ .head _), ih fun hm => h (.tail _ hm)]

theorem agrees_of_ordinary (h : ObjectText ms json) (hk : Plain key) (ho : Ordinary key json)
    (hz : 0 < outSize) : Agrees ms key outSize := by
  refine ⟨fun ⟨m, hm, he⟩ => ⟨m, hm, (name_iff h hk ho m hm).mp he⟩, ?_, ?_⟩
  · rw [string_iff h hk ho, and_iff_right hz, Option.ne_none_iff_exists']
  · intro m s w hf ht hw _ hl
    have found := (first_iff h hk ho).mp hf
    obtain ⟨rfl, -⟩ := hw.eq_self ((h.plain ho.text m (List.mem_of_find?_eq_some found)).2 s ht)
    refine ⟨w, by rw [spelled, found, Option.bind_some, ht], ?_⟩
    rw [letters_eq ((h.plain ho.text m (List.mem_of_find?_eq_some found)).2 w ht)]
    exact List.take_of_length_le (by omega)

-- The condition under which the lookup gives what it is meant to give: no text of the key misleads
-- it, or one does and there is nothing to give.
def Holds (ms : Tree .members) (json key : Bytes) (outSize : Nat) : Prop :=
  Undisturbed key ms ∧ Agrees ms key outSize ∨
    ¬Undisturbed key ms ∧ Ordinary key json ∧ spelled key ms = none

theorem looksUp_iff_disturbed (h : ObjectText ms json) (hk : Plain key) (ho : Ordinary key json)
    (hs : ¬Undisturbed key ms) : LooksUp ms json key outSize ↔ spelled key ms = none := by
  have none := @strValue_eq_none key json ms outSize h hk ho hs
  have string := string_iff h hk ho
  constructor
  case mp =>
    intro looks
    by_contra hn
    have some := looks.str.mpr (string.mpr hn)
    rw [none] at some
    cases some
  case mpr =>
    intro hn
    have absent : ¬∃ m s, First key ms m ∧ m.2.text = some s := fun he => string.mp he hn
    refine ⟨(hasTopLevelKey_iff h hk).trans ?_, ?_, ?_⟩
    · constructor
      · exact fun ⟨m, hm, he⟩ => ⟨m, hm, (name_iff h hk ho m hm).mpr he⟩
      · exact fun ⟨m, hm, he⟩ => ⟨m, hm, (name_iff h hk ho m hm).mp he⟩
    · rw [none]
      exact iff_of_false nofun absent
    · exact fun m s w hf ht => absurd ⟨m, s, hf, ht⟩ absent

-- The condition is enough for every text of an object. It is needed too wherever the lookup is not
-- misled, and for every key without commas and colons in a text without escapes.
theorem lookup_holds (h : ObjectText ms json) (hk : Plain key) :
    (Holds ms json key outSize → LooksUp ms json key outSize) ∧
      (Undisturbed key ms ∨ Ordinary key json → LooksUp ms json key outSize → Holds ms json key outSize) := by
  constructor
  case left =>
    rintro (⟨hu, agrees⟩ | ⟨hs, ho, hn⟩)
    · exact (looksUp_iff_agrees h hk hu).mpr agrees
    · exact (looksUp_iff_disturbed h hk ho hs).mpr hn
  case right =>
    intro hd looks
    by_cases hu : Undisturbed key ms
    case pos => exact .inl ⟨hu, (looksUp_iff_agrees h hk hu).mp looks⟩
    case neg =>
      have ho := hd.resolve_left hu
      exact .inr ⟨hu, ho, (looksUp_iff_disturbed h hk ho hu).mp looks⟩

theorem type_found : LooksUp (.member (ofString "type") (.string (ofString "x")) .noMembers)
    (ofString "\x7b\"type\":\"x\"\x7d") (ofString "type") 64 := by
  have text : ObjectText (.member (ofString "type") (.string (ofString "x")) .noMembers)
      (ofString "\x7b\"type\":\"x\"\x7d") :=
    ⟨[], .object (.member rfl (characters_of_plain (by decide)) rfl
      (.string _ (characters_of_plain (by decide)))) rfl, rfl⟩
  have plain : Plain (ofString "type") := ⟨by decide, by decide⟩
  have ordinary : Ordinary (ofString "type") (ofString "\x7b\"type\":\"x\"\x7d") :=
    ⟨by decide, by decide, by decide⟩
  exact (lookup_holds text plain).1 (.inl ⟨nofun, agrees_of_ordinary text plain ordinary (by decide)⟩)

-- A value with the text of the key hides the member behind it.
theorem type_hidden : ∃ ms json, ObjectText ms json ∧ Plain (ofString "type") ∧
    ¬LooksUp ms json (ofString "type") 64 := by
  refine ⟨.member (ofString "a") (.string (ofString "type"))
      (.member (ofString "type") (.string (ofString "x")) .noMembers),
    ofString "\x7b\"a\":\"type\",\"type\":\"x\"\x7d", ?_, ⟨by decide, by decide⟩, fun looks => ?_⟩
  · exact ⟨[], .object (.members rfl (characters_of_plain (by decide)) rfl
      (.string _ (characters_of_plain (by decide))) rfl
      (.member rfl (characters_of_plain (by decide)) rfl
        (.string _ (characters_of_plain (by decide))))) rfl, rfl⟩
  · have unfound : jsonTopLevelStrValue (ofString "\x7b\"a\":\"type\",\"type\":\"x\"\x7d")
        (ofString "type") 64 = none := by decide
    have found := looks.str.mpr ⟨(ofString "type", .string (ofString "x")), ofString "x",
      ⟨[(ofString "a", .string (ofString "type"))], [], rfl, characters_of_plain (by decide), ?_⟩, rfl⟩
    · rw [unfound] at found
      cases found
    · intro x hx hc
      rw [List.mem_singleton.mp hx] at hc
      exact absurd (hc.eq_self (by decide)).1 (by decide)

end
end Deneb.CloudMessage
