import DenebModel.Primitives.JsonSpelling
import DenebModel.Setup.Theorems.Locale

namespace Deneb.Locale

open CString JsonText

def White (w : CString) : Prop :=
  ∀ c ∈ w, JsonText.isSpace c

-- A member of a locale file: the name has no escapes, and name and value fit into an entry.
structure Member where
  name   : CString
  before : CString
  after  : CString
  text   : CString
  value  : CString
  plain  : ∀ c ∈ name, 32 ≤ c ∧ c ≠ 34 ∧ c ≠ 92
  short  : name.length < maxKeyLen
  white  : White (before ++ after)
  string : Unicode text value
  fits   : value.length < maxValLen

namespace Member

def entry (m : Member) : LocaleEntry :=
  ⟨m.name, m.value⟩

-- The text of a member with what follows it.
def spelled (m : Member) (t : CString) : CString :=
  34 :: (m.name ++ 34 :: (m.before ++ 58 :: (m.after ++ 34 :: (m.text ++ 34 :: t))))

-- There are only blanks and tabs around the colon, and every escape stands for itself.
def Clean (m : Member) : Prop :=
  (∀ c ∈ m.before ++ m.after, c = 32 ∨ c = 9) ∧ Single m.text

end Member

-- The text behind a member, with the members that follow.
inductive Members : List Member → CString → Prop
  | last : White w → White w' → Members [] (w ++ 125 :: w')
  | member : White w → White w' → Members ms t → Members (m :: ms) (w ++ 44 :: (w' ++ m.spelled t))

-- A text that is an object with these members.
inductive FlatObject : List Member → CString → Prop
  | empty : White w → Members [] t → FlatObject [] (w ++ 123 :: t)
  | members : White w → White w' → Members ms t → FlatObject (m :: ms) (w ++ 123 :: (w' ++ m.spelled t))

-- Behind a value there is no string after blanks and colons.
def Closed (t : CString) : Prop :=
  (t.dropWhile isFill).head? ≠ some 34

-- The members of a text, whatever else is in front of them, between them and behind them.
inductive Items : List Member → CString → Prop
  | last : 34 ∉ g → 92 ∉ g → Items [] g
  | member : 34 ∉ g → 92 ∉ g → Items ms t → Closed t → Items (m :: ms) (g ++ m.spelled t)

section

variable {ms : List Member} {m : Member} {g w k s t json : CString} {n : Nat}

theorem White.notMem (h : White w) : 34 ∉ w ∧ 92 ∉ w :=
  ⟨fun hc => absurd (h 34 hc) (by decide), fun hc => absurd (h 92 hc) (by decide)⟩

theorem closed_of_white {c : UInt8} (h : White w) (hc : c ≠ 34) (hf : isFill c = false) :
    Closed (w ++ c :: t) := by
  induction w
  case nil =>
    rw [Closed, List.nil_append, List.dropWhile_cons_of_neg (by simp [hf])]
    simpa using hc
  case cons d w ih =>
    have white : White w := fun c hc => h c (.tail _ hc)
    rw [Closed, List.cons_append]
    by_cases hd : isFill d
    case pos =>
      rw [List.dropWhile_cons_of_pos hd]
      exact ih white
    case neg =>
      rw [List.dropWhile_cons_of_neg (by simpa using hd)]
      have : d ≠ 34 := by
        rintro rfl
        exact h.notMem.1 (.head _)
      simpa using this

theorem notMem_between {a : CString} {c : UInt8} (hw : 34 ∉ w ∧ 92 ∉ w) (ha : 34 ∉ a ∧ 92 ∉ a)
    (hc : c ≠ 34 ∧ c ≠ 92) : 34 ∉ w ++ c :: a ∧ 92 ∉ w ++ c :: a := by
  constructor
  · simp [hw.1, ha.1, hc.1.symm]
  · simp [hw.2, ha.2, hc.2.symm]

theorem Members.items (h : Members ms t) : Items ms t ∧ Closed t := by
  induction h
  case last hw hw' =>
    obtain ⟨hq, hb⟩ := notMem_between hw.notMem hw'.notMem (by decide : (125 : UInt8) ≠ 34 ∧ _)
    exact ⟨.last hq hb, closed_of_white hw (by decide) rfl⟩
  case member w w' ms t m hw hw' _ ih =>
    obtain ⟨hq, hb⟩ := notMem_between hw.notMem hw'.notMem (by decide : (44 : UInt8) ≠ 34 ∧ _)
    have items : Items (m :: ms) _ := .member hq hb ih.1 ih.2
    rw [List.append_assoc] at items
    exact ⟨items, closed_of_white hw (by decide) rfl⟩

theorem FlatObject.items (h : FlatObject ms json) : Items ms json := by
  cases h
  case empty hw h =>
    cases h
    case last hw' hw'' =>
      have back := notMem_between hw'.notMem hw''.notMem (by decide : (125 : UInt8) ≠ 34 ∧ _)
      obtain ⟨hq, hb⟩ := notMem_between hw.notMem back (by decide : (123 : UInt8) ≠ 34 ∧ _)
      exact .last hq hb
  case members w w' ms t m hw hw' h =>
    obtain ⟨hq, hb⟩ := notMem_between hw.notMem hw'.notMem (by decide : (123 : UInt8) ≠ 34 ∧ _)
    have items : Items (m :: ms) _ := .member hq hb h.items.1 h.items.2
    rw [List.append_assoc] at items
    exact items

-- Every flat object of strings is one of these texts.

theorem body_of_unicode {v : CString} (h : Unicode s v) : Body s := by
  have hex {c : UInt8} {x : Nat} (h : JsonText.hexDigit c = some x) : c ≠ 34 ∧ c ≠ 92 := by
    constructor <;> (rintro rfl; cases h)
  have digits {a b c d : UInt8} {x : Nat} {s : CString} (h : codeUnit a b c d = some x) (hs : Body s) :
      Body (a :: b :: c :: d :: s) := by
    obtain ⟨_, _, _, _, ha, hb, hc, hd, _⟩ := codeUnit_eq_some h
    exact .plain a (hex ha).1 (hex ha).2 <| .plain b (hex hb).1 (hex hb).2 <|
      .plain c (hex hc).1 (hex hc).2 <| .plain d (hex hd).1 (hex hd).2 hs
  induction h
  case nil => exact .nil
  case plain c _ hq hb _ ih  => exact .plain c hq hb ih
  case escaped c _ _ _ ih    => exact .escaped c ih
  case unit hn _ _ ih        => exact .escaped 117 (digits hn ih)
  case pair hn _ _ hn' _ _ _ ih => exact .escaped 117 (digits hn (.escaped 117 (digits hn' ih)))

theorem isFill_iff {c : UInt8} (h : JsonText.isSpace c) : isFill c ↔ c = 32 ∨ c = 9 := by
  simp only [JsonText.isSpace, Bool.or_eq_true, beq_iff_eq] at h
  rcases h with ((rfl | rfl) | rfl) | rfl <;> decide

theorem Member.fill_iff (m : Member) :
    (∀ c ∈ m.before ++ 58 :: m.after, isFill c) ↔ ∀ c ∈ m.before ++ m.after, c = 32 ∨ c = 9 := by
  have white := m.white
  constructor
  case mp =>
    intro h c hc
    refine (isFill_iff (white c hc)).mp (h c ?_)
    simp only [List.mem_append, List.mem_cons] at hc ⊢
    rcases hc with hc | hc
    · exact .inl hc
    · exact .inr (.inr hc)
  case mpr =>
    intro h c hc
    simp only [List.mem_append, List.mem_cons] at hc
    rcases hc with hc | rfl | hc
    · exact (isFill_iff (white c (List.mem_append_left _ hc))).mpr (h c (List.mem_append_left _ hc))
    · rfl
    · exact (isFill_iff (white c (List.mem_append_right _ hc))).mpr (h c (List.mem_append_right _ hc))

theorem decodes_unique {v v' : CString} (h : Decodes s v) (h' : Decodes s v') : v = v' := by
  let maxLen := v.length + v'.length + 1
  have value := (decodeJsonString_eq_some (Nat.succ_pos _)).mpr ⟨h, (by omega : v.length < maxLen)⟩
  have value' := (decodeJsonString_eq_some (Nat.succ_pos _)).mpr ⟨h', (by omega : v'.length < maxLen)⟩
  exact Option.some.inj (value.symm.trans value')

-- The entry of a member is what is stored for it exactly if each of its escapes stands for itself.
theorem Member.kept_iff (m : Member) : Kept m.name m.text m.entry ↔ Single m.text := by
  obtain ⟨w, hw, hs, ht⟩ := m.string.characters
  have decodes := decodes_of_characters hw
  constructor
  case mp =>
    rintro ⟨_, v, hv, _, he⟩
    obtain rfl := decodes_unique hv decodes
    exact ht (LocaleEntry.mk.inj he).2.symm
  case mpr =>
    intro single
    obtain ⟨rfl, hz⟩ := hs single
    refine ⟨m.short, m.value, decodes, m.fits, ?_⟩
    have whole : m.value.takeWhile (· ≠ 0) = m.value := by
      rw [List.takeWhile_eq_self_iff]
      intro c hc
      rw [decide_eq_true_eq]
      rintro rfl
      exact hz hc
    rw [whole]
    rfl

theorem Member.name_plain (m : Member) : 34 ∉ m.name ∧ 92 ∉ m.name :=
  ⟨fun h => (m.plain 34 h).2.1 rfl, fun h => (m.plain 92 h).2.2 rfl⟩

theorem Member.colon_plain (m : Member) : 34 ∉ m.before ++ 58 :: m.after ∧ 92 ∉ m.before ++ 58 :: m.after := by
  have white {x : CString} (hx : x ⊆ m.before ++ m.after) : White x := fun c hc => m.white c (hx hc)
  have before : White m.before := white (List.subset_append_left _ _)
  have after : White m.after := white (List.subset_append_right _ _)
  exact notMem_between before.notMem after.notMem (by decide : (58 : UInt8) ≠ 34 ∧ _)

-- The round for a member that is clean.
theorem Member.Clean.reads (h : m.Clean) (hg : 34 ∉ g) : Reads (g ++ m.spelled t) (.store m.entry t) := by
  have value : ReadsValue m.name (34 :: (m.text ++ 34 :: t)) (.store m.entry t) :=
    .stored (body_of_unicode m.string) (m.kept_iff.mpr h.2)
  have reads := Reads.value hg m.name_plain.1 (m.fill_iff.mpr h.1) value
  rw [List.append_assoc, List.cons_append] at reads
  exact reads

-- By induction on the members, each of which takes a round.
theorem parse_of_clean (h : Items ms json) (hc : ∀ m ∈ ms, m.Clean) (hn : ms.length ≤ n) :
    parseLocaleJson n json = some (ms.map Member.entry) := by
  induction h generalizing n
  case last hg _ => exact parse_stop (Reads.noKey hg).eq
  case member g ms t m hg _ _ _ ih =>
    obtain _ | n := n
    case zero => exact absurd hn (Nat.not_succ_le_zero _)
    case succ =>
      have clean := hc m (.head _)
      rw [parse_store (clean.reads hg).eq, ih (fun x hx => hc x (.tail _ hx)) (Nat.le_of_succ_le_succ hn)]
      rfl

end

inductive Place
  | gap
  | key
  | value

-- A text from between the strings, from inside of a key or from inside of a value, with the number of
-- the quotes ahead that open or close a string.
inductive Ahead : Place → Nat → CString → Prop
  | nil : Ahead .gap 0 []
  | plain : c ≠ 34 → c ≠ 92 → Ahead p r t → Ahead p r (c :: t)
  | opening : p ≠ .gap → Ahead p r t → Ahead .gap (r + 1) (34 :: t)
  | closeKey : Ahead .gap r t → Ahead .key (r + 1) (34 :: t)
  | closeValue : Ahead .gap r t → Closed t → Ahead .value (r + 1) (34 :: t)
  | escaped : Ahead .value r t → Ahead .value r (92 :: c :: t)

section

variable {ms : List Member} {m : Member} {p : Place} {g k w s t u : CString} {r n : Nat}

theorem Ahead.prepend (h : Ahead p r t) (hq : 34 ∉ g) (hb : 92 ∉ g) : Ahead p r (g ++ t) := by
  induction g
  case nil => exact h
  case cons c g ih =>
    have rest := ih (List.not_mem_of_not_mem_cons hq) (List.not_mem_of_not_mem_cons hb)
    exact .plain (List.ne_of_not_mem_cons hq).symm (List.ne_of_not_mem_cons hb).symm rest

theorem Body.ahead (hs : Body s) (h : Ahead .value r t) : Ahead .value r (s ++ t) := by
  induction hs
  case nil => exact h
  case plain hq hb _ ih => exact .plain hq hb ih
  case escaped ih       => exact .escaped ih

theorem Items.ahead (h : Items ms t) : Ahead .gap (4 * ms.length) t := by
  induction h
  case last hq hb =>
    have ahead := Ahead.nil.prepend hq hb
    rwa [List.append_nil] at ahead
  case member g ms t m hq hb _ hc ih =>
    have value : Ahead .gap _ (34 :: (m.text ++ 34 :: t)) :=
      .opening (p := .value) nofun ((body_of_unicode m.string).ahead (.closeValue ih hc))
    have colons := value.prepend m.colon_plain.1 m.colon_plain.2
    rw [List.append_assoc, List.cons_append] at colons
    have name : Ahead .gap _ (m.spelled t) :=
      .opening (p := .key) nofun ((Ahead.closeKey colons).prepend m.name_plain.1 m.name_plain.2)
    exact name.prepend hq hb

-- The next quote opens or closes a string, or it is escaped.
theorem Ahead.quote {x : CString} (h : Ahead p r x) (he : x = g ++ 34 :: t) (hg : 34 ∉ g) :
    (∃ p' r', r = r' + 1 ∧ Ahead p' r' t ∧ (p = .value → Closed t)) ∨
    (p = .value ∧ 92 ∈ g ∧ Ahead .value r t) := by
  induction h generalizing g
  case nil => exact absurd he (by simp)
  case plain c _ _ _ hq _ h ih =>
    obtain _ | ⟨d, g⟩ := g
    case nil  => exact absurd (List.cons.inj he).1 hq
    case cons =>
      rcases ih (List.cons.inj he).2 (List.not_mem_of_not_mem_cons hg) with h | ⟨hp, hb, h⟩
      · exact .inl h
      · exact .inr ⟨hp, .tail _ hb, h⟩
  case opening hp h _ =>
    obtain _ | ⟨d, g⟩ := g
    case nil  => cases he; exact .inl ⟨_, _, rfl, h, nofun⟩
    case cons => exact absurd (List.cons.inj he).1 (List.ne_of_not_mem_cons hg)
  case closeKey h _ =>
    obtain _ | ⟨d, g⟩ := g
    case nil  => cases he; exact .inl ⟨_, _, rfl, h, nofun⟩
    case cons => exact absurd (List.cons.inj he).1 (List.ne_of_not_mem_cons hg)
  case closeValue h hc _ =>
    obtain _ | ⟨d, g⟩ := g
    case nil  => cases he; exact .inl ⟨_, _, rfl, h, fun _ => hc⟩
    case cons => exact absurd (List.cons.inj he).1 (List.ne_of_not_mem_cons hg)
  case escaped h ih =>
    obtain _ | ⟨d, _ | ⟨d', g⟩⟩ := g
    case nil      => cases he
    case cons.nil => cases he; exact .inr ⟨rfl, .head _, h⟩
    case cons.cons =>
      simp only [List.cons_append, List.cons.injEq] at he
      obtain ⟨rfl, rfl, he⟩ := he
      have hg := List.not_mem_of_not_mem_cons (List.not_mem_of_not_mem_cons hg)
      rcases ih he hg with h | ⟨hp, hb, h⟩
      · exact .inl h
      · exact .inr ⟨hp, .tail _ (.tail _ hb), h⟩

theorem Ahead.quote_le (h : Ahead p r (g ++ 34 :: t)) (hg : 34 ∉ g) :
    ∃ p' r', Ahead p' r' t ∧ r' ≤ r ∧ (p = .gap → r' < r) := by
  rcases h.quote rfl hg with ⟨p', r', rfl, h, _⟩ | ⟨rfl, _, h⟩
  · exact ⟨p', r', h, Nat.le_succ _, fun _ => Nat.lt_succ_self _⟩
  · exact ⟨.value, r, h, Nat.le_refl _, nofun⟩

theorem Ahead.of_prepend (h : Ahead p r (w ++ t)) (hq : 34 ∉ w) (hb : 92 ∉ w) : Ahead p r t := by
  induction w
  case nil => exact h
  case cons c w ih =>
    rw [List.cons_append] at h
    generalize he : w ++ t = x at h
    cases h
    case plain h => exact ih (he ▸ h) (List.not_mem_of_not_mem_cons hq) (List.not_mem_of_not_mem_cons hb)
    case opening => exact absurd (.head _) hq
    case closeKey => exact absurd (.head _) hq
    case closeValue => exact absurd (.head _) hq
    case escaped => exact absurd (.head _) hb

theorem notMem_fill (h : ∀ c ∈ w, isFill c) : 34 ∉ w ∧ 92 ∉ w :=
  ⟨fun hc => absurd (h 34 hc) (by decide), fun hc => absurd (h 92 hc) (by decide)⟩

theorem Ahead.body (h : Ahead p r (s ++ 34 :: t)) (hs : Body s) : ∃ p' r', r = r' + 1 ∧ Ahead p' r' t := by
  induction hs
  case nil =>
    cases h
    case plain h _ _   => exact absurd rfl h
    case opening _ h    => exact ⟨_, _, rfl, h⟩
    case closeKey h     => exact ⟨_, _, rfl, h⟩
    case closeValue h _ => exact ⟨_, _, rfl, h⟩
  case plain s _ hq hb _ ih =>
    rw [List.cons_append] at h
    generalize he : s ++ 34 :: t = x at h
    cases h
    case plain h => exact ih (he ▸ h)
    case opening => exact absurd rfl hq
    case closeKey => exact absurd rfl hq
    case closeValue => exact absurd rfl hq
    case escaped => exact absurd rfl hb
  case escaped ih =>
    rw [List.cons_append, List.cons_append] at h
    cases h
    case plain h _ => exact absurd rfl h
    case escaped h => exact ih h

-- No round goes back.
theorem Ahead.next (h : Ahead p r t) (hr : Reads t (.next u)) :
    ∃ p' r', Ahead p' r' u ∧ r' ≤ r ∧ (p = .gap → r' < r) := by
  cases hr
  case value hg hk hw hv =>
    obtain ⟨p₁, r₁, h₁, le₁, lt⟩ := h.quote_le hg
    obtain ⟨p₂, r₂, h₂, le₂, _⟩ := h₁.quote_le hk
    obtain ⟨hq, hb⟩ := notMem_fill hw
    cases hv
    case none => exact ⟨p₂, r₂, h₂.of_prepend hq hb, by omega, fun hp => by have := lt hp; omega⟩
    case refused hs _ =>
      obtain ⟨p₃, r₃, h₃, le₃, _⟩ := h₂.quote_le hq
      obtain ⟨p₄, r₄, rfl, h₄⟩ := h₃.body hs
      exact ⟨p₄, r₄, h₄, by omega, fun hp => by have := lt hp; omega⟩

-- An entry takes four quotes: where its key has no backslash, the key starts behind the opening quote
-- of a string.
theorem Ahead.store {entry : LocaleEntry} (h : Ahead p r t) (hr : Reads t (.store entry u))
    (hk : 92 ∉ entry.key) : ∃ p' r', Ahead p' r' u ∧ r = r' + 4 := by
  cases hr
  case value g k w _ hg hk' hw hv =>
    cases hv
    case stored s hs kept =>
      obtain ⟨_, v, _, _, rfl⟩ := kept
      obtain ⟨hq, hb⟩ := notMem_fill hw
      have opened : ¬Closed (w ++ 34 :: (s ++ 34 :: u)) := by
        rw [Closed, dropWhile_fill hw (by simp [isFill])]
        simp
      have second {p : Place} {r : Nat} (h : Ahead p r (k ++ 34 :: (w ++ 34 :: (s ++ 34 :: u)))) :
          p ≠ .value ∧ ∃ p' r', r = r' + 3 ∧ Ahead p' r' u := by
        rcases h.quote rfl hk' with ⟨p₂, r₂, rfl, h₂, hc⟩ | ⟨_, hm, _⟩
        case inr => exact absurd hm hk
        case inl =>
          rcases h₂.quote rfl hq with ⟨p₃, r₃, rfl, h₃, _⟩ | ⟨_, hm, _⟩
          case inr => exact absurd hm hb
          case inl =>
            obtain ⟨p₄, r₄, rfl, h₄⟩ := h₃.body hs
            exact ⟨fun hp => opened (hc hp), p₄, r₄, rfl, h₄⟩
      rcases h.quote rfl hg with ⟨p₁, r₁, rfl, h₁, _⟩ | ⟨_, _, h₁⟩
      case inr => exact absurd rfl (second h₁).1
      case inl =>
        obtain ⟨_, p', r', rfl, h'⟩ := second h₁
        exact ⟨p', r', h', rfl⟩

-- By induction on the length of the text: there are no more entries than that.
theorem Ahead.length_le {es : List LocaleEntry} (h : Ahead p r t) (hp : parseLocaleJson n t = some es)
    (hk : ∀ e ∈ es, 92 ∉ e.key) : 4 * es.length ≤ r := by
  induction hl : t.length using Nat.strongRecOn generalizing n p r t es
  case ind l ih =>
    subst hl
    obtain _ | n := n
    case zero =>
      rw [parse_zero] at hp
      cases hp
      exact Nat.zero_le _
    case succ =>
      have reads := reads_round t
      have shorter := reads.length
      cases ho : round t <;> rw [ho] at reads shorter
      case stop =>
        rw [parse_stop ho] at hp
        cases hp
        exact Nat.zero_le _
      case beyond =>
        rw [parse_beyond ho] at hp
        cases hp
      case next u =>
        rw [parse_next ho] at hp
        obtain ⟨p', r', h, le, _⟩ := h.next reads
        exact Nat.le_trans (ih _ (shorter u rfl) h hp hk rfl) le
      case store entry u =>
        rw [parse_store ho, Option.map_eq_some_iff] at hp
        obtain ⟨es, hp, rfl⟩ := hp
        obtain ⟨p', r', h', rfl⟩ := h.store reads (hk entry (.head _))
        have rest := ih _ (shorter u rfl) h' hp (fun e he => hk e (.tail _ he)) rfl
        rw [List.length_cons]
        omega

theorem append_quote_inj {a b x y : CString} (ha : 34 ∉ a) (hb : 34 ∉ b) (h : a ++ 34 :: x = b ++ 34 :: y) :
    a = b ∧ x = y := by
  have same := takeWhile_quote ha (t := x)
  rw [h, takeWhile_quote hb] at same
  subst same
  exact ⟨rfl, (List.cons.inj (List.append_cancel_left h)).2⟩

theorem body_inj {a b x y : CString} (ha : Body a) (hb : Body b) (h : a ++ 34 :: x = b ++ 34 :: y) :
    a = b ∧ x = y := by
  have same := scanValue_body ha (t := 34 :: x)
  rw [h, scanValue_body hb] at same
  simpa [scanValue, eq_comm] using same

-- A round in front of a member that stores an entry reads the member.
theorem clean_of_store {entry : LocaleEntry} (hr : Reads (g ++ m.spelled t) (.store entry u)) (hg : 34 ∉ g)
    (he : entry = m.entry) : m.Clean ∧ u = t := by
  generalize hx : g ++ m.spelled t = x at hr
  cases hr
  case value g' k w _ hg' hk hw hv =>
    cases hv
    case stored s hs kept =>
      obtain ⟨rfl, hx₁⟩ := append_quote_inj hg hg' hx
      obtain ⟨rfl, hx₂⟩ := append_quote_inj m.name_plain.1 hk hx₁
      rw [← List.cons_append, ← List.append_assoc] at hx₂
      obtain ⟨hw', hx₃⟩ := append_quote_inj m.colon_plain.1 (notMem_fill hw).1 hx₂
      obtain ⟨rfl, rfl⟩ := body_inj (body_of_unicode m.string) hs hx₃
      subst he
      exact ⟨⟨m.fill_iff.mp (hw' ▸ hw), m.kept_iff.mp kept⟩, rfl⟩

-- By induction on the members: with a round less for one of them, there would not be enough quotes for
-- the others.
theorem clean_of_parse (h : Items ms t) (hp : parseLocaleJson n t = some (ms.map Member.entry)) :
    ∀ m ∈ ms, m.Clean := by
  have plain {ms : List Member} : ∀ e ∈ ms.map Member.entry, 92 ∉ e.key := by
    intro e he
    obtain ⟨m, _, rfl⟩ := List.mem_map.mp he
    exact m.name_plain.2
  induction h generalizing n
  case last => exact nofun
  case member g ms t m hq hb hi hc ih =>
    have ahead := (Items.member hq hb hi hc (m := m)).ahead
    obtain _ | n := n
    case zero => rw [parse_zero] at hp; cases hp
    case succ =>
      have reads := reads_round (g ++ m.spelled t)
      cases ho : round (g ++ m.spelled t) <;> rw [ho] at reads
      case stop   => rw [parse_stop ho] at hp; cases hp
      case beyond => rw [parse_beyond ho] at hp; cases hp
      case next u =>
        rw [parse_next ho] at hp
        obtain ⟨p', r', h, _, lt⟩ := ahead.next reads
        have le := h.length_le hp plain
        have := lt rfl
        rw [List.length_map] at le
        omega
      case store entry u =>
        rw [parse_store ho, Option.map_eq_some_iff] at hp
        obtain ⟨es, hp, he⟩ := hp
        obtain ⟨he₁, rfl⟩ := List.cons.inj he
        obtain ⟨clean, rfl⟩ := clean_of_store reads hq he₁
        exact List.forall_mem_cons.mpr ⟨clean, ih hp⟩

-- What a member of any JSON object has to be like.
def Fits (x : CString × Tree .value) : Prop :=
  92 ∉ x.1 ∧ x.1.length < maxKeyLen ∧
    ∃ s v, x.2 = .string s ∧ Unicode s v ∧ v.length < maxValLen

theorem white_skip (t : CString) : ∃ w, White w ∧ t = w ++ skip t :=
  ⟨t.takeWhile JsonText.isSpace, List.all_eq_true.mp List.all_takeWhile,
    List.takeWhile_append_dropWhile.symm⟩

theorem plain_of_characters {v : CString} (h : Characters s v) (hb : 92 ∉ s) :
    ∀ c ∈ s, 32 ≤ c ∧ c ≠ 34 ∧ c ≠ 92 := by
  induction h
  case nil => exact nofun
  case plain c hc hq hb' _ ih =>
    exact List.forall_mem_cons.mpr ⟨⟨hc, hq, hb'⟩, ih (List.not_mem_of_not_mem_cons hb)⟩
  case escaped => exact absurd (.head _) hb
  case unicode => exact absurd (.head _) hb

theorem member_of_spells {e : Tree .value} {v t₁ t₂ t₃ : CString} (hn : skip t = 34 :: (s ++ 34 :: t₁))
    (hk : Characters s v) (hc : skip t₁ = 58 :: t₂) (h : Spells e (skip t₂) t₃) (hf : Fits (s, e)) :
    ∃ m w, White w ∧ t = w ++ Member.spelled m t₃ ∧ (s, e) = (m.name, .string m.text) := by
  obtain ⟨hb, short, text, value, rfl, string, fits⟩ := hf
  generalize ht : skip t₂ = u at h
  cases h
  case string =>
    obtain ⟨w, hw, he⟩ := white_skip t
    obtain ⟨before, hw₁, he₁⟩ := white_skip t₁
    obtain ⟨after, hw₂, he₂⟩ := white_skip t₂
    have white : White (before ++ after) := fun c hc => (List.mem_append.mp hc).elim (hw₁ c) (hw₂ c)
    refine ⟨⟨s, before, after, text, value, plain_of_characters hk hb, short, white, string, fits⟩, w, hw, ?_, rfl⟩
    rw [he, hn, he₁, hc, he₂, ht]
    rfl

theorem members_of_brace {t₂ : CString} (hc : skip t = 125 :: t₂) (he : skip t₂ = []) : Members [] t := by
  obtain ⟨w, hw, ht⟩ := white_skip t
  obtain ⟨w', hw', ht₂⟩ := white_skip t₂
  rw [he, List.append_nil] at ht₂
  subst ht₂
  rw [ht, hc]
  exact .last hw hw'

-- By induction on the text of the members, up to the brace.
theorem members_of_spells {t₂ : CString} (he : skip t₂ = []) :
    {tree : Tree .members} → {t t₁ : CString} → Spells tree t t₁ → (∀ x ∈ tree.list, Fits x) →
    skip t₁ = 125 :: t₂ →
    (tree.list = [] ∧ Members [] t) ∨
    ∃ m ms w u, White w ∧ t = w ++ Member.spelled m u ∧ Members ms u ∧
      tree.list = (m :: ms).map fun m => (m.name, .string m.text)
  | _, _, _, .noMembers _, _, hc => .inl ⟨rfl, members_of_brace hc he⟩
  | _, _, _, .member hn hk hc' h, hf, hc => by
    obtain ⟨m, w, hw, ht, hm⟩ := member_of_spells hn hk hc' h (hf _ (.head _))
    refine .inr ⟨m, [], w, _, hw, ht, members_of_brace hc he, ?_⟩
    rw [Tree.list, hm]
    rfl
  | _, _, _, .members hn hk hc' h hs h', hf, hc => by
    obtain ⟨m, w, hw, ht, hm⟩ := member_of_spells hn hk hc' h (hf _ (.head _))
    rcases members_of_spells he h' (fun x hx => hf x (.tail _ hx)) hc with ⟨hl, _⟩ | ⟨m', ms, w', u, hw', ht', hms, hl⟩
    case inl => cases hl
    case inr =>
      obtain ⟨w₃, hw₃, ht₃⟩ := white_skip _
      rw [hs, ht'] at ht₃
      refine .inr ⟨m, m' :: ms, w, _, hw, ht, ht₃ ▸ .member hw₃ hw' hms, ?_⟩
      rw [Tree.list, hm, hl]
      rfl

-- Every flat object of strings that fit is one of the texts above.
theorem flatObject_of_objectText {tree : Tree .members} {json : CString} (h : ObjectText tree json)
    (hf : ∀ x ∈ tree.list, Fits x) :
    ∃ ms, FlatObject ms json ∧ tree.list = ms.map fun m => (m.name, .string m.text) := by
  obtain ⟨t, hs, he⟩ := h
  obtain ⟨w, hw, ht⟩ := white_skip json
  generalize hj : skip json = j at hs ht
  cases hs
  case object hs hc =>
    rcases members_of_spells he hs hf hc with ⟨hl, h⟩ | ⟨m, ms, w', u, hw', ht', h, hl⟩
    case inl => exact ⟨[], ht ▸ .empty hw h, hl⟩
    case inr =>
      subst ht'
      exact ⟨m :: ms, ht ▸ .members hw hw' h, hl⟩

end

-- A flat object is loaded completely if and only if all of its members are clean. Whatever the text, it
-- is read behind its end if and only if it is cut behind the backslash of a value.
theorem locale_loaded_iff (n : Nat) (json : CString) :
    (∀ ms, FlatObject ms json → ms.length ≤ n →
      (parseLocaleJson n json = some (ms.map Member.entry) ↔ ∀ m ∈ ms, m.Clean)) ∧
    (parseLocaleJson n json ≠ none ↔ ¬Cut n json) := by
  refine ⟨fun ms h hn => ⟨?_, fun hc => ?_⟩, not_congr parse_eq_none⟩
  · exact fun hp => clean_of_parse h.items hp
  · exact parse_of_clean h.items hc hn

-- The member `"a":"b"` with a text in front of the value.
def sampleMember (after : CString) (white : White after) : Member where
  name   := [97]
  before := []
  after  := after
  text   := [98]
  value  := [98]
  plain  := by decide
  short  := by decide
  white  := white
  string := .plain 98 (by decide) (by decide) (by decide) .nil
  fits   := by decide

theorem flatObject_sample {after : CString} {white : White after} :
    FlatObject [sampleMember after white] (123 :: (sampleMember after white).spelled [125]) := by
  have blank : White [] := nofun
  exact .members blank blank (.last blank blank)

-- {"a": "b"}
theorem locale_loaded_sample :
    parseLocaleJson 256 [123, 34, 97, 34, 58, 32, 34, 98, 34, 125] = some [⟨[97], [98]⟩] ∧
    ¬Cut 256 [123, 34, 97, 34, 58, 32, 34, 98, 34, 125] := by
  have white : White [32] := by unfold White; decide
  have flat : FlatObject [sampleMember [32] white] [123, 34, 97, 34, 58, 32, 34, 98, 34, 125] :=
    flatObject_sample
  have clean : ∀ m ∈ [sampleMember [32] white], m.Clean := by
    refine List.forall_mem_singleton.mpr ⟨?_, ?_⟩
    · show ∀ c ∈ [32], c = 32 ∨ c = 9
      decide
    · show Single [98]
      decide
  have loaded : parseLocaleJson 256 [123, 34, 97, 34, 58, 32, 34, 98, 34, 125] = some [⟨[97], [98]⟩] :=
    ((locale_loaded_iff 256 _).1 _ flat (Nat.succ_le_succ (Nat.zero_le 255))).mpr clean
  exact ⟨loaded, (locale_loaded_iff 256 _).2.mp (by rw [loaded]; nofun)⟩

-- A line break behind the colon, and a text that ends behind a backslash.
theorem locale_line_break :
    (∃ m : Member, FlatObject [m] [123, 34, 97, 34, 58, 10, 34, 98, 34, 125] ∧
      parseLocaleJson 256 [123, 34, 97, 34, 58, 10, 34, 98, 34, 125] ≠ some [m.entry]) ∧
    parseLocaleJson 256 [123, 34, 97, 34, 58, 34, 98, 92] = none := by
  have white : White [10] := by unfold White; decide
  have flat : FlatObject [sampleMember [10] white] [123, 34, 97, 34, 58, 10, 34, 98, 34, 125] :=
    flatObject_sample
  refine ⟨⟨sampleMember [10] white, flat, fun hp => ?_⟩, ?_⟩
  · have clean : (sampleMember [10] white).Clean := clean_of_parse flat.items hp _ (.head _)
    exact absurd (clean.1 10 (.head _)) (by decide)
  · refine parse_eq_none.mpr (.value (g := [123]) (k := [97]) (w := [58]) (s := [98]) ?_ ?_ ?_ ?_)
    · decide
    · decide
    · decide
    · exact .plain 98 (by decide) (by decide) .nil

end Deneb.Locale
