import DenebModel.Primitives.JsonUnicode
import DenebModel.Setup.Locale

namespace Deneb.Locale

open CString JsonText

section

variable {n : Nat} {p q : CString} {entry : LocaleEntry}

theorem parse_zero : parseLocaleJson 0 p = some [] := by
  rw [parseLocaleJson, if_pos (.inr rfl)]

theorem parse_stop (h : round p = .stop) : parseLocaleJson n p = some [] := by
  rw [parseLocaleJson]
  split_ifs
  case pos => rfl
  case neg => split <;> simp_all

-- There is no round at the end of the text.
theorem ne_nil_of_round {o : Round} (h : round p = o) (ho : o ≠ .stop) : p ≠ [] := by
  rintro rfl
  exact ho h.symm

theorem parse_beyond (h : round p = .beyond) : parseLocaleJson (n + 1) p = none := by
  have hp := ne_nil_of_round h nofun
  rw [parseLocaleJson, if_neg (by simp [hp])]
  split <;> simp_all

theorem parse_next (h : round p = .next q) : parseLocaleJson (n + 1) p = parseLocaleJson (n + 1) q := by
  have hp := ne_nil_of_round h nofun
  rw [parseLocaleJson, if_neg (by simp [hp])]
  split <;> simp_all

theorem parse_store (h : round p = .store entry q) :
    parseLocaleJson (n + 1) p = (parseLocaleJson n q).map (entry :: ·) := by
  have hp := ne_nil_of_round h nofun
  rw [parseLocaleJson, if_neg (by simp [hp])]
  split <;> simp_all

end

-- What `decode_json_string` takes for the text of a string, with the bytes that it stands for.
inductive Decodes : CString → CString → Prop
  | nil : Decodes [] []
  | plain (c) : c ≠ 92 → Decodes s v → Decodes (c :: s) (c :: v)
  | escaped (c d) : (c, d) ∈ escapes → Decodes s v → Decodes (92 :: c :: s) (d :: v)
  | unit (a b c d) :
    codeUnit a b c d = some n → Decodes s v →
    Decodes (92 :: 117 :: a :: b :: c :: d :: s) (utf8 n ++ v)

section

variable {s v out : CString} {a b c d : UInt8} {n maxLen : Nat}

theorem hexValue_eq : hexValue c = JsonText.hexDigit c := by
  unfold hexValue JsonText.hexDigit
  simp only [UInt8.le_iff_toNat_le, UInt8.reduceToNat]
  split_ifs <;> first | rfl | (congr 1; omega)

theorem shiftLeft_or {k i x : Nat} (h : x < 2 ^ i) : k <<< i ||| x = k * 2 ^ i + x := by
  rw [← Nat.shiftLeft_add_eq_or_of_lt h, Nat.shiftLeft_eq]

theorem codePoint_eq : codePoint [a, b, c, d] = codeUnit a b c d := by
  simp only [codePoint, codeUnit, List.foldlM_cons, List.foldlM_nil, hexValue_eq, Option.bind_eq_bind,
    Option.pure_def, Option.bind_assoc, Option.bind_some]
  refine Option.bind_congr fun w hw => Option.bind_congr fun x hx => Option.bind_congr fun y hy =>
    Option.bind_congr fun z hz => ?_
  rw [shiftLeft_or (hexDigit_lt hz), shiftLeft_or (hexDigit_lt hy), shiftLeft_or (hexDigit_lt hx),
    shiftLeft_or (hexDigit_lt hw)]
  congr 1
  omega

theorem appendUtf8_eq (h : n < 0x10000) : appendUtf8 maxLen out n = append maxLen out (utf8 n) := by
  have low {k : Nat} : 0x80 ||| k &&& 0x3f = 0x80 + k % 64 := by
    rw [show 0x3f = 2 ^ 6 - 1 by rfl, Nat.and_two_pow_sub_one_eq_mod]
    exact @shiftLeft_or 2 6 (k % 64) (Nat.mod_lt k (by decide))
  have two (h : n / 64 < 64) : 0xc0 ||| n >>> 6 = 0xc0 + n / 64 := by
    rw [Nat.shiftRight_eq_div_pow]
    exact @shiftLeft_or 3 6 _ h
  have three : 0xe0 ||| n >>> 12 = 0xe0 + n / 4096 := by
    rw [Nat.shiftRight_eq_div_pow]
    exact @shiftLeft_or 14 4 _ (by omega)
  have six : n >>> 6 = n / 64 := Nat.shiftRight_eq_div_pow n 6
  unfold appendUtf8 utf8
  by_cases h₁ : n < 0x80
  case pos => rw [if_pos (by omega), if_pos h₁]
  case neg =>
    rw [if_neg (by omega), if_neg h₁]
    by_cases h₂ : n < 0x800
    case pos => rw [if_pos (by omega), if_pos h₂, two (by omega), low]
    case neg => rw [if_neg (by omega), if_neg h₂, three, six, low, low]

theorem escaped_eq : escaped c = some d ↔ (c, d) ∈ escapes := by
  unfold escaped
  constructor
  case mp =>
    intro h
    split_ifs at h with h₁ <;> cases h
    case pos => obtain rfl | rfl | rfl := h₁ <;> decide
    all_goals subst_vars; decide
  case mpr =>
    intro h
    simp only [escapes, List.mem_cons, Prod.mk.injEq, List.not_mem_nil, or_false] at h
    obtain ⟨rfl, rfl⟩ | ⟨rfl, rfl⟩ | ⟨rfl, rfl⟩ | ⟨rfl, rfl⟩ | ⟨rfl, rfl⟩ | ⟨rfl, rfl⟩ | ⟨rfl, rfl⟩ |
      ⟨rfl, rfl⟩ := h <;> rfl

theorem append_eq_some {bytes : CString} :
    append maxLen out bytes = some v ↔ (out ++ bytes).length < maxLen ∧ v = out ++ bytes := by
  rw [append, List.length_append]
  split_ifs with h
  case pos => exact ⟨nofun, fun hv => absurd hv.1 (Nat.not_lt.mpr h)⟩
  case neg => simp [Nat.lt_of_not_le h, eq_comm]

theorem decodeLoop_plain (h : c ≠ 92) :
    decodeLoop maxLen (c :: s) out = (append maxLen out [c]).bind (decodeLoop maxLen s) := by
  rw [decodeLoop]
  · rfl
  all_goals intros; simp_all

theorem decodeLoop_escaped (h : c ≠ 117) :
    decodeLoop maxLen (92 :: c :: s) out =
      (escaped c).bind fun d => (append maxLen out [d]).bind (decodeLoop maxLen s) := by
  rw [decodeLoop]
  · rfl
  all_goals intros; simp_all

theorem decodeLoop_unit :
    decodeLoop maxLen (92 :: 117 :: a :: b :: c :: d :: s) out =
      (codeUnit a b c d).bind fun n => (append maxLen out (utf8 n)).bind (decodeLoop maxLen s) := by
  rw [decodeLoop, codePoint_eq]
  refine Option.bind_congr fun n hn => ?_
  rw [appendUtf8_eq (codeUnit_lt hn)]
  rfl

-- One step of the loop, and the rest of it.
theorem append_decodeLoop {bytes : CString} (hl : (out ++ (bytes ++ v)).length < maxLen)
    (h : (out ++ bytes ++ v).length < maxLen →
      decodeLoop maxLen s (out ++ bytes) = some (out ++ bytes ++ v)) :
    (append maxLen out bytes).bind (decodeLoop maxLen s) = some (out ++ (bytes ++ v)) := by
  have room : (out ++ bytes).length < maxLen := by
    simp only [List.length_append] at hl ⊢
    omega
  rw [append_eq_some.mpr ⟨room, rfl⟩, Option.bind_some]
  rw [← List.append_assoc] at hl ⊢
  exact h hl

-- The loop goes through the text if there is room for all of it.
theorem decodeLoop_decodes (h : Decodes s v) (hl : (out ++ v).length < maxLen) :
    decodeLoop maxLen s out = some (out ++ v) := by
  induction h generalizing out
  case nil => rw [decodeLoop, List.append_nil]
  case plain s v c hc _ ih =>
    rw [decodeLoop_plain hc]
    exact append_decodeLoop hl ih
  case escaped s v c d hm _ ih =>
    rw [decodeLoop_escaped (escapes_ne hm).1, escaped_eq.mpr hm]
    exact append_decodeLoop hl ih
  case unit n s v a b c d hn _ ih =>
    rw [decodeLoop_unit, hn]
    exact append_decodeLoop hl ih

-- The bytes that were appended and what the rest of the loop appends.
theorem of_append_decodeLoop {bytes : CString}
    (h : (append maxLen out bytes).bind (decodeLoop maxLen s) = some v)
    (ih : ∀ out' {v}, decodeLoop maxLen s out' = some v → out'.length < maxLen →
      ∃ w, Decodes s w ∧ v = out' ++ w ∧ v.length < maxLen) :
    ∃ w, Decodes s w ∧ v = out ++ (bytes ++ w) ∧ v.length < maxLen := by
  obtain ⟨out', hout, h⟩ := Option.bind_eq_some_iff.mp h
  obtain ⟨room, rfl⟩ := append_eq_some.mp hout
  obtain ⟨w, hw, rfl, hv⟩ := ih _ h room
  exact ⟨w, hw, List.append_assoc _ _ _, hv⟩

theorem decodes_of_decodeLoop (h : decodeLoop maxLen s out = some v) (hl : out.length < maxLen) :
    ∃ w, Decodes s w ∧ v = out ++ w ∧ v.length < maxLen := by
  fun_induction decodeLoop generalizing v
  case case1 out => cases h; exact ⟨[], .nil, (List.append_nil _).symm, hl⟩
  case case2 => cases h
  case case3 a b c d s out ih =>
    rw [codePoint_eq] at h
    obtain ⟨n, hn, h⟩ := Option.bind_eq_some_iff.mp h
    rw [appendUtf8_eq (codeUnit_lt hn)] at h
    obtain ⟨w, hw, hv⟩ := of_append_decodeLoop h ih
    exact ⟨utf8 n ++ w, .unit a b c d hn hw, hv⟩
  case case4 c s out _ ih =>
    obtain ⟨d, hd, h⟩ := Option.bind_eq_some_iff.mp h
    obtain ⟨w, hw, hv⟩ := of_append_decodeLoop h ih
    exact ⟨d :: w, .escaped c d (escaped_eq.mp hd) hw, hv⟩
  case case5 c s out h₁ _ h₂ ih =>
    have plain : c ≠ 92 := by
      obtain _ | ⟨d, s⟩ := s
      · exact fun hc => h₁ hc rfl
      · exact fun hc => h₂ d s hc rfl
    obtain ⟨w, hw, hv⟩ := of_append_decodeLoop h ih
    exact ⟨c :: w, .plain c plain hw, hv⟩

-- `decode_json_string` in full.
theorem decodeJsonString_eq_some (h : 0 < maxLen) :
    decodeJsonString s maxLen = some v ↔ Decodes s v ∧ v.length < maxLen := by
  constructor
  case mp =>
    intro hd
    obtain ⟨w, hw, rfl, hl⟩ := decodes_of_decodeLoop hd h
    exact ⟨hw, hl⟩
  case mpr => exact fun ⟨hv, hl⟩ => decodeLoop_decodes hv hl

theorem decodes_of_characters (h : Characters s v) : Decodes s v := by
  induction h
  case nil => exact .nil
  case plain c _ _ hb _ ih => exact .plain c hb ih
  case escaped c d hm _ ih => exact .escaped c d hm ih
  case unicode a b c d ha hb hc hd _ ih =>
    refine .unit a b c d ?_ ih
    rw [codeUnit, ha, hb, hc, hd]
    rfl

end
-- The text of a value for the parser: a backslash goes with the byte behind it.
inductive Body : CString → Prop
  | nil : Body []
  | plain (c) : c ≠ 34 → c ≠ 92 → Body s → Body (c :: s)
  | escaped (c) : Body s → Body (92 :: c :: s)

-- The entry for a key and the text of a value, if it is stored.
def Kept (key text : CString) (entry : LocaleEntry) : Prop :=
  key.length < maxKeyLen ∧
    ∃ v, Decodes text v ∧ v.length < maxValLen ∧ entry = ⟨key, v.takeWhile (· ≠ 0)⟩

-- What is read behind a key and the blanks and colons behind it.
inductive ReadsValue (key : CString) : CString → Round → Prop
  | none : (∀ c ∈ t.head?, c ≠ 34 ∧ isFill c = false) → ReadsValue key t (.next t)
  | unclosed : Body s → ReadsValue key (34 :: s) .stop
  | cut : Body s → ReadsValue key (34 :: (s ++ [92])) .beyond
  | refused : Body s → (∀ entry, ¬Kept key s entry) → ReadsValue key (34 :: (s ++ 34 :: t)) (.next t)
  | stored : Body s → Kept key s entry → ReadsValue key (34 :: (s ++ 34 :: t)) (.store entry t)

inductive Reads : CString → Round → Prop
  | noKey : 34 ∉ g → Reads g .stop
  | openKey : 34 ∉ g → 34 ∉ k → Reads (g ++ 34 :: k) .stop
  | value :
    34 ∉ g → 34 ∉ k → (∀ c ∈ w, isFill c) → ReadsValue k t o →
    Reads (g ++ 34 :: (k ++ 34 :: (w ++ t))) o

section

variable {key text g k w s t p q : CString} {entry : LocaleEntry} {o : Round}

theorem storeEntry_eq_store (h : Kept key text entry) : storeEntry key text p = .store entry p := by
  obtain ⟨short, v, hv, hl, rfl⟩ := h
  rw [storeEntry, if_pos short, (decodeJsonString_eq_some (by decide)).mpr ⟨hv, hl⟩]

theorem storeEntry_eq_next (h : ∀ entry, ¬Kept key text entry) : storeEntry key text p = .next p := by
  unfold storeEntry
  split_ifs with short
  case neg => rfl
  case pos =>
    split
    case h_1 => rfl
    case h_2 v hv =>
      obtain ⟨hv, hl⟩ := (decodeJsonString_eq_some (by decide)).mp hv
      exact absurd ⟨short, v, hv, hl, rfl⟩ (h _)

theorem scanValue_plain {c : UInt8} (hq : c ≠ 34) (hb : c ≠ 92) :
    scanValue (c :: p) = (scanValue p).map fun (text, rest) => (c :: text, rest) := by
  rw [scanValue]
  · rw [if_neg hq]
    cases scanValue p <;> rfl
  all_goals intros; contradiction

theorem scanValue_escaped {c : UInt8} :
    scanValue (92 :: c :: p) = (scanValue p).map fun (text, rest) => (92 :: c :: text, rest) := by
  rw [scanValue]
  cases scanValue p <;> rfl

theorem scanValue_body (h : Body s) :
    scanValue (s ++ t) = (scanValue t).map fun (text, rest) => (s ++ text, rest) := by
  induction h
  case nil => simp
  case plain s c hq hb _ ih =>
    rw [List.cons_append, scanValue_plain hq hb, ih, Option.map_map]
    rfl
  case escaped s c _ ih =>
    rw [List.cons_append, List.cons_append, scanValue_escaped, ih, Option.map_map]
    rfl

-- How a text goes on behind the opening quote of a value.
theorem body_cases (p : CString) :
    Body p ∨ (∃ s, Body s ∧ p = s ++ [92]) ∨ ∃ s t, Body s ∧ p = s ++ 34 :: t := by
  fun_induction scanValue p
  case case1 => exact .inl .nil
  case case2 => exact .inr (.inl ⟨[], .nil, rfl⟩)
  case case3 c p ih =>
    rcases ih with h | ⟨s, h, rfl⟩ | ⟨s, t, h, rfl⟩
    · exact .inl (.escaped c h)
    · exact .inr (.inl ⟨_, .escaped c h, rfl⟩)
    · exact .inr (.inr ⟨_, t, .escaped c h, rfl⟩)
  case case4 p _ _ => exact .inr (.inr ⟨[], p, .nil, rfl⟩)
  case case5 c p h₁ h₂ hq ih =>
    have hb : c ≠ 92 := by
      obtain _ | ⟨d, p⟩ := p
      · exact fun hc => h₁ hc rfl
      · exact fun hc => h₂ d p hc rfl
    rcases ih with h | ⟨s, h, rfl⟩ | ⟨s, t, h, rfl⟩
    · exact .inl (.plain c hq hb h)
    · exact .inr (.inl ⟨_, .plain c hq hb h, rfl⟩)
    · exact .inr (.inr ⟨_, t, .plain c hq hb h, rfl⟩)

theorem dropWhile_fill (h : ∀ c ∈ w, isFill c) (ht : ∀ c ∈ t.head?, isFill c = false) :
    (w ++ t).dropWhile isFill = t := by
  rw [List.dropWhile_append_of_pos h]
  cases t
  case nil => rfl
  case cons c t => exact List.dropWhile_cons_of_neg (by simp [ht c rfl])

theorem readValue_quote (hw : ∀ c ∈ w, isFill c) :
    readValue key (w ++ 34 :: s) =
      match scanValue s with
      | none                => .beyond
      | some (_, [])        => .stop
      | some (text, _ :: p) => storeEntry key text p := by
  rw [readValue, dropWhile_fill hw]
  · rfl
  · rintro _ ⟨⟩
    rfl

theorem ReadsValue.eq (h : ReadsValue key t o) (hw : ∀ c ∈ w, isFill c) : readValue key (w ++ t) = o := by
  cases h
  case none h =>
    rw [readValue, dropWhile_fill hw fun c hc => (h c hc).2]
    split
    case h_1 => exact absurd rfl (h 34 rfl).1
    case h_2 => rfl
  case unclosed h =>
    have scan := @scanValue_body _ [] h
    rw [List.append_nil] at scan
    rw [readValue_quote hw, scan]
    rfl
  case cut h =>
    rw [readValue_quote hw, scanValue_body h]
    rfl
  case refused h hk =>
    rw [readValue_quote hw, scanValue_body h]
    exact storeEntry_eq_next (by simpa using hk)
  case stored h hk =>
    rw [readValue_quote hw, scanValue_body h]
    exact storeEntry_eq_store (by simpa using hk)

theorem readsValue : ReadsValue key (p.dropWhile isFill) (readValue key p) := by
  unfold readValue
  split
  case h_1 t ht =>
    rw [ht]
    rcases body_cases t with h | ⟨s, h, rfl⟩ | ⟨s, t, h, rfl⟩
    · have scan := @scanValue_body _ [] h
      rw [List.append_nil] at scan
      rw [scan]
      simpa [scanValue] using ReadsValue.unclosed h
    · rw [scanValue_body h]
      exact .cut h
    · rw [scanValue_body h]
      show ReadsValue key _ (storeEntry key (s ++ []) t)
      rw [List.append_nil]
      by_cases hk : ∃ entry, Kept key s entry
      case pos =>
        obtain ⟨entry, hk⟩ := hk
        rw [storeEntry_eq_store hk]
        exact .stored h hk
      case neg =>
        have refused := not_exists.mp hk
        rw [storeEntry_eq_next refused]
        exact .refused h refused
  case h_2 h =>
    refine .none fun c hc => ?_
    obtain ⟨u, hu⟩ := List.head?_eq_some_iff.mp hc
    refine ⟨?_, ?_⟩
    · rintro rfl
      exact h u hu
    · have := List.head?_dropWhile_not isFill p
      rw [hu] at this
      simpa using this

theorem strchr_append {c : UInt8} (h : c ∉ g) : strchr (g ++ c :: t) c = some (c :: t) := by
  induction g
  case nil => rw [List.nil_append, strchr, if_pos (beq_self_eq_true c)]
  case cons d g ih =>
    have hd := List.ne_of_not_mem_cons h
    rw [List.cons_append, strchr, if_neg (by simpa using hd.symm), ih (List.not_mem_of_not_mem_cons h)]

theorem strchr_of_notMem {c : UInt8} (h : c ∉ g) : strchr g c = none := by
  induction g
  case nil => rfl
  case cons d g ih =>
    have hd := List.ne_of_not_mem_cons h
    rw [strchr, if_neg (by simpa using hd.symm), ih (List.not_mem_of_not_mem_cons h)]

theorem ne_quote (h : 34 ∉ k) : ∀ c ∈ k, decide (c ≠ 34) = true := by
  intro c hc
  rw [decide_eq_true_eq]
  rintro rfl
  exact h hc

theorem takeWhile_quote (h : 34 ∉ k) : (k ++ 34 :: t).takeWhile (· ≠ 34) = k := by
  rw [List.takeWhile_append_of_pos (ne_quote h), List.takeWhile_cons_of_neg (by decide), List.append_nil]

theorem dropWhile_quote (h : 34 ∉ k) : (k ++ 34 :: t).dropWhile (· ≠ 34) = 34 :: t := by
  rw [List.dropWhile_append_of_pos (ne_quote h), List.dropWhile_cons_of_neg (by decide)]

theorem dropWhile_of_notMem (h : 34 ∉ k) : k.dropWhile (· ≠ 34) = [] := by
  have drop : (k ++ []).dropWhile (· ≠ 34) = [] := List.dropWhile_append_of_pos (ne_quote h)
  rwa [List.append_nil] at drop

theorem round_quote (hg : 34 ∉ g) :
    round (g ++ 34 :: k) =
      match k.dropWhile (· ≠ 34) with
      | []     => .stop
      | _ :: p => readValue (k.takeWhile (· ≠ 34)) p := by
  rw [round, strchr_append hg]
  rfl

theorem Reads.eq (h : Reads p o) : round p = o := by
  cases h
  case noKey hg       => rw [round, strchr_of_notMem hg]
  case openKey hg hk  => rw [round_quote hg, dropWhile_of_notMem hk]
  case value hg hk hw hv =>
    rw [round_quote hg, dropWhile_quote hk, takeWhile_quote hk]
    exact hv.eq hw

theorem quote_cases (p : CString) : 34 ∉ p ∨ ∃ g t, 34 ∉ g ∧ p = g ++ 34 :: t := by
  by_cases h : 34 ∈ p
  case neg => exact .inl h
  case pos =>
    obtain ⟨g, t, rfl, hg⟩ := List.eq_append_cons_of_mem h
    exact .inr ⟨g, t, hg, rfl⟩

theorem reads_round (p : CString) : Reads p (round p) := by
  rcases quote_cases p with h | ⟨g, p, hg, rfl⟩
  case inl => exact (Reads.noKey h).eq ▸ .noKey h
  case inr =>
    rcases quote_cases p with h | ⟨k, p, hk, rfl⟩
    case inl => exact (Reads.openKey hg h).eq ▸ .openKey hg h
    case inr =>
      have fill : ∀ c ∈ p.takeWhile isFill, isFill c := List.all_eq_true.mp List.all_takeWhile
      have read : Reads _ _ := .value hg hk fill (@readsValue k p)
      rw [List.takeWhile_append_dropWhile] at read
      exact read.eq ▸ read

theorem Reads.length (h : Reads p o) : ∀ q ∈ o.rest, q.length < p.length :=
  h.eq ▸ round_length

end

-- The text is cut directly behind the backslash of a value that is reached while there is room for
-- that many entries.
inductive Cut : Nat → CString → Prop
  | value :
    34 ∉ g → 34 ∉ k → (∀ c ∈ w, isFill c) → Body s →
    Cut (n + 1) (g ++ 34 :: (k ++ 34 :: (w ++ 34 :: (s ++ [92]))))
  | next : Reads p (.next q) → Cut (n + 1) q → Cut (n + 1) p
  | store : Reads p (.store entry q) → Cut n q → Cut (n + 1) p

-- By induction on the length of the text, of which each round takes a part.
theorem parse_eq_none {n : Nat} {p : CString} : parseLocaleJson n p = none ↔ Cut n p := by
  constructor
  case mp =>
    intro h
    induction hl : p.length using Nat.strongRecOn generalizing n p
    case ind l ih =>
      subst hl
      cases n
      case zero => rw [parse_zero] at h; cases h
      case succ n =>
        have reads := reads_round p
        have shorter := reads.length
        cases ho : round p <;> rw [ho] at reads shorter
        case stop   => rw [parse_stop ho] at h; cases h
        case beyond =>
          cases reads
          case value hg hk hw hv =>
            cases hv
            case cut hs => exact .value hg hk hw hs
        case next q =>
          rw [parse_next ho] at h
          exact .next reads (ih _ (shorter q rfl) h rfl)
        case store entry q =>
          rw [parse_store ho, Option.map_eq_none_iff] at h
          exact .store reads (ih _ (shorter q rfl) h rfl)
  case mpr =>
    intro h
    induction h
    case value hg hk hw hs     => exact parse_beyond (Reads.value hg hk hw (.cut hs)).eq
    case next reads _ ih  => rw [parse_next reads.eq, ih]
    case store reads _ ih => rw [parse_store reads.eq, ih, Option.map_none]

end Deneb.Locale
