import DenebModel.Primitives.JsonText

-- The text in UTF-8 that a string of JSON stands for: two surrogates are one character.
namespace JsonText

def IsSurrogate (n : Nat) : Prop :=
  0xd800 ≤ n ∧ n < 0xe000

-- The code unit of the four digits of an escape.
def codeUnit (a b c d : UInt8) : Option Nat := do
  let w ← hexDigit a
  let x ← hexDigit b
  let y ← hexDigit c
  let z ← hexDigit d
  return 4096 * w + 256 * x + 16 * y + z

-- The UTF-8 bytes of the character that two surrogates stand for.
def utf8Pair (hi lo : Nat) : Bytes :=
  let n := 0x10000 + 0x400 * (hi - 0xd800) + (lo - 0xdc00)
  [(0xf0 + n / 262144).toUInt8, (0x80 + n / 4096 % 64).toUInt8, (0x80 + n / 64 % 64).toUInt8,
    (0x80 + n % 64).toUInt8]

-- The text between the quotes of a string, with the bytes that it stands for. There is no surrogate
-- without the other one.
inductive Unicode : Bytes → Bytes → Prop
  | nil : Unicode [] []
  | plain (c) : 32 ≤ c → c ≠ 34 → c ≠ 92 → Unicode s v → Unicode (c :: s) (c :: v)
  | escaped (c d) : (c, d) ∈ escapes → Unicode s v → Unicode (92 :: c :: s) (d :: v)
  | unit (a b c d) :
    codeUnit a b c d = some n → ¬IsSurrogate n → Unicode s v →
    Unicode (92 :: 117 :: a :: b :: c :: d :: s) (utf8 n ++ v)
  | pair (a b c d a' b' c' d') :
    codeUnit a b c d = some hi → 0xd800 ≤ hi → hi < 0xdc00 →
    codeUnit a' b' c' d' = some lo → 0xdc00 ≤ lo → lo < 0xe000 → Unicode s v →
    Unicode (92 :: 117 :: a :: b :: c :: d :: 92 :: 117 :: a' :: b' :: c' :: d' :: s)
      (utf8Pair hi lo ++ v)

-- The code units of the escapes.
def units : Bytes → List Nat
  | 92 :: 117 :: a :: b :: c :: d :: s => (codeUnit a b c d).toList ++ units s
  | 92 :: _ :: s                       => units s
  | _ :: s                             => units s
  | []                                 => []

-- None of the escapes stands for a NUL or needs another one.
def Single (s : Bytes) : Prop :=
  ∀ n ∈ units s, n ≠ 0 ∧ ¬IsSurrogate n

instance {n : Nat} : Decidable (IsSurrogate n) :=
  inferInstanceAs (Decidable (_ ∧ _))

instance {s : Bytes} : Decidable (Single s) :=
  inferInstanceAs (Decidable (∀ n ∈ units s, n ≠ 0 ∧ ¬IsSurrogate n))

section

variable {s v : Bytes} {a b c d : UInt8} {n : Nat}

theorem hexDigit_lt (h : hexDigit c = some n) : n < 16 := by
  have bound := c.toNat_lt
  unfold hexDigit at h
  split_ifs at h with h₁ h₂ h₃
  case pos =>
    have := UInt8.le_iff_toNat_le.mp h₁.2
    have : (57 : UInt8).toNat = 57 := rfl
    cases h; omega
  case pos =>
    have := UInt8.le_iff_toNat_le.mp h₂.2
    have : (70 : UInt8).toNat = 70 := rfl
    cases h; omega
  case pos =>
    have := UInt8.le_iff_toNat_le.mp h₃.2
    have : (102 : UInt8).toNat = 102 := rfl
    cases h; omega

theorem codeUnit_eq_some (h : codeUnit a b c d = some n) :
    ∃ w x y z, hexDigit a = some w ∧ hexDigit b = some x ∧ hexDigit c = some y ∧ hexDigit d = some z ∧
      n = 4096 * w + 256 * x + 16 * y + z := by
  simp only [codeUnit, Option.bind_eq_bind, Option.bind_eq_some_iff, Option.pure_def] at h
  obtain ⟨w, ha, x, hb, y, hc, z, hd, he⟩ := h
  exact ⟨w, x, y, z, ha, hb, hc, hd, (Option.some.inj he).symm⟩

theorem codeUnit_lt (h : codeUnit a b c d = some n) : n < 0x10000 := by
  obtain ⟨w, x, y, z, ha, hb, hc, hd, rfl⟩ := codeUnit_eq_some h
  have := hexDigit_lt ha
  have := hexDigit_lt hb
  have := hexDigit_lt hc
  have := hexDigit_lt hd
  omega

theorem Characters.unit (hn : codeUnit a b c d = some n) (h : Characters s v) :
    Characters (92 :: 117 :: a :: b :: c :: d :: s) (utf8 n ++ v) := by
  obtain ⟨w, x, y, z, ha, hb, hc, hd, rfl⟩ := codeUnit_eq_some hn
  exact .unicode a b c d ha hb hc hd h

theorem zero_notMem_utf8 (h : n ≠ 0) (hn : n < 0x10000) : 0 ∉ utf8 n := by
  have byte {k : Nat} (hk : 0 < k) (hk' : k < 256) : k.toUInt8 ≠ 0 := by
    intro he
    have := congrArg UInt8.toNat he
    rw [Nat.toUInt8_eq, UInt8.toNat_ofNat', Nat.mod_eq_of_lt hk'] at this
    have : (0 : UInt8).toNat = 0 := rfl
    omega
  unfold utf8
  split_ifs <;> simp only [List.mem_cons, List.not_mem_nil, or_false, not_or]
  · exact (byte (by omega) (by omega)).symm
  · exact ⟨(byte (by omega) (by omega)).symm, (byte (by omega) (by omega)).symm⟩
  · exact ⟨(byte (by omega) (by omega)).symm, (byte (by omega) (by omega)).symm,
      (byte (by omega) (by omega)).symm⟩

theorem units_plain (h : c ≠ 92) : units (c :: s) = units s := by
  rw [units]
  · rintro _ _ _ _ _ rfl; contradiction
  · rintro _ _ rfl; contradiction

theorem units_escaped (h : c ≠ 117) : units (92 :: c :: s) = units s := by
  rw [units]
  rintro _ _ _ _ _ rfl
  contradiction

theorem escapes_ne (h : (c, d) ∈ escapes) : c ≠ 117 ∧ d ≠ 0 := by
  simp only [escapes, List.mem_cons, Prod.mk.injEq, List.not_mem_nil, or_false] at h
  obtain ⟨rfl, rfl⟩ | ⟨rfl, rfl⟩ | ⟨rfl, rfl⟩ | ⟨rfl, rfl⟩ | ⟨rfl, rfl⟩ | ⟨rfl, rfl⟩ | ⟨rfl, rfl⟩ |
    ⟨rfl, rfl⟩ := h <;> decide

-- A surrogate by itself starts with another byte than the character of two.
theorem utf8Pair_ne {hi lo : Nat} {w : Bytes} (h : 0xd800 ≤ hi) (h' : hi < 0xdc00) (hl : 0xdc00 ≤ lo)
    (hl' : lo < 0xe000) : (utf8 hi ++ w).takeWhile (· ≠ 0) ≠ utf8Pair hi lo ++ v := by
  have high : hi / 4096 = 13 := by omega
  have first : utf8 hi = 0xed :: (utf8 hi).tail := by
    rw [utf8, if_neg (by omega), if_neg (by omega), high]
    rfl
  have top : (0x10000 + 0x400 * (hi - 0xd800) + (lo - 0xdc00)) / 262144 ≤ 4 := by omega
  rw [first, List.cons_append, List.takeWhile_cons_of_pos (by decide), utf8Pair, List.cons_append]
  intro he
  have head := congrArg UInt8.toNat (List.cons.inj he).1
  rw [Nat.toUInt8_eq, UInt8.toNat_ofNat', Nat.mod_eq_of_lt (by omega)] at head
  have : (0xed : UInt8).toNat = 237 := rfl
  omega

-- By induction on the text: read escape by escape, it is the same text up to the first NUL only if its
-- escapes stand by themselves.
theorem Unicode.characters (h : Unicode s v) :
    ∃ w, Characters s w ∧ (Single s → w = v ∧ 0 ∉ v) ∧ (w.takeWhile (· ≠ 0) = v → Single s) := by
  induction h
  case nil => exact ⟨[], .nil, fun _ => ⟨rfl, List.not_mem_nil⟩, fun _ => nofun⟩
  case plain s v c h hq hb _ ih =>
    obtain ⟨w, hw, hs, ht⟩ := ih
    have pos : c ≠ 0 := by rintro rfl; exact absurd h (by decide)
    refine ⟨c :: w, .plain c h hq hb hw, ?_, ?_⟩
    all_goals rw [Single, units_plain hb, ← Single]
    · intro single
      obtain ⟨rfl, hz⟩ := hs single
      exact ⟨rfl, List.not_mem_cons_of_ne_of_not_mem pos.symm hz⟩
    · intro he
      rw [List.takeWhile_cons_of_pos (by simpa using pos)] at he
      exact ht (List.cons.inj he).2
  case escaped s v c d hm _ ih =>
    obtain ⟨w, hw, hs, ht⟩ := ih
    obtain ⟨hc, pos⟩ := escapes_ne hm
    refine ⟨d :: w, .escaped c d hm hw, ?_, ?_⟩
    all_goals rw [Single, units_escaped hc, ← Single]
    · intro single
      obtain ⟨rfl, hz⟩ := hs single
      exact ⟨rfl, List.not_mem_cons_of_ne_of_not_mem pos.symm hz⟩
    · intro he
      rw [List.takeWhile_cons_of_pos (by simpa using pos)] at he
      exact ht (List.cons.inj he).2
  case unit n s v a b c d hn hsur _ ih =>
    obtain ⟨w, hw, hs, ht⟩ := ih
    refine ⟨utf8 n ++ w, .unit hn hw, ?_, ?_⟩
    all_goals rw [Single, units, hn, Option.toList_some, List.singleton_append, List.forall_mem_cons, ← Single]
    · rintro ⟨⟨pos, _⟩, single⟩
      obtain ⟨rfl, hz⟩ := hs single
      exact ⟨rfl, List.not_mem_append (zero_notMem_utf8 pos (codeUnit_lt hn)) hz⟩
    · intro he
      by_cases pos : n = 0
      case pos =>
        rw [pos] at he
        have : (0 :: w).takeWhile (· ≠ 0) = 0 :: v := he
        rw [List.takeWhile_cons_of_neg (by decide)] at this
        cases this
      case neg =>
        have hz := zero_notMem_utf8 pos (codeUnit_lt hn)
        rw [List.takeWhile_append_of_pos (fun x hx => by
          rw [decide_eq_true_eq]
          rintro rfl
          exact hz hx)] at he
        exact ⟨⟨pos, hsur⟩, ht (List.append_cancel_left he)⟩
  case pair hi lo s v a b c d a' b' c' d' hn h h' hn' hl hl' _ ih =>
    obtain ⟨w, hw, _, _⟩ := ih
    refine ⟨utf8 hi ++ (utf8 lo ++ w), .unit hn (.unit hn' hw), ?_, ?_⟩
    · intro single
      have unit : hi ∈ units (92 :: 117 :: a :: b :: c :: d :: 92 :: 117 :: a' :: b' :: c' :: d' :: s) := by
        rw [units, hn]
        exact .head _
      exact absurd ⟨h, by omega⟩ (single hi unit).2
    · exact fun he => absurd he (utf8Pair_ne h h' hl hl')

end
end JsonText
