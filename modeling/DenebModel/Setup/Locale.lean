import DenebModel.Primitives.CString

open CString

-- `ui/src/locale.c`
namespace Deneb.Locale

-- `MAX_KEY_LEN`, `MAX_VAL_LEN`
def maxKeyLen : Nat := 48
def maxValLen : Nat := 128

-- `locale_entry_t`
structure LocaleEntry where
  key : CString
  val : CString
  deriving DecidableEq

-- Less than zero is `none`.
def hexValue (c : UInt8) : Option Nat :=
  if 48 ≤ c ∧ c ≤ 57 then some (c.toNat - 48)
  else if 97 ≤ c ∧ c ≤ 102 then some (c.toNat - 97 + 10)
  else if 65 ≤ c ∧ c ≤ 70 then some (c.toNat - 65 + 10)
  else none

-- The bytes go behind `out` if there is room for them and the terminator.
def append (maxLen : Nat) (out bytes : CString) : Option CString :=
  if maxLen ≤ out.length + bytes.length then none else some (out ++ bytes)

def appendUtf8 (maxLen : Nat) (out : CString) (cp : Nat) : Option CString :=
  if cp ≤ 0x7f then append maxLen out [cp.toUInt8]
  else if cp ≤ 0x7ff then append maxLen out [(0xc0 ||| cp >>> 6).toUInt8, (0x80 ||| cp &&& 0x3f).toUInt8]
  else append maxLen out
    [(0xe0 ||| cp >>> 12).toUInt8, (0x80 ||| cp >>> 6 &&& 0x3f).toUInt8, (0x80 ||| cp &&& 0x3f).toUInt8]

-- The four digits of an escape.
def codePoint (digits : List UInt8) : Option Nat :=
  digits.foldlM (fun cp c => do return cp <<< 4 ||| (← hexValue c)) 0

-- The byte for an escape other than `\u`.
def escaped (c : UInt8) : Option UInt8 :=
  if c = 34 ∨ c = 92 ∨ c = 47 then some c
  else if c = 98 then some 8
  else if c = 102 then some 12
  else if c = 110 then some 10
  else if c = 114 then some 13
  else if c = 116 then some 9
  else none

-- The loop of `decode_json_string`, with `out` in front of it. A `\u` with less than four bytes
-- behind it is none of the escapes.
def decodeLoop (maxLen : Nat) : CString → CString → Option CString
  | [], out      => some out
  | [92], _      => none
  | 92 :: 117 :: a :: b :: c :: d :: s, out => do
    let cp ← codePoint [a, b, c, d]
    decodeLoop maxLen s (← appendUtf8 maxLen out cp)
  | 92 :: c :: s, out => do
    let c ← escaped c
    decodeLoop maxLen s (← append maxLen out [c])
  | c :: s, out  => do
    decodeLoop maxLen s (← append maxLen out [c])

def decodeJsonString (text : CString) (maxLen : Nat) : Option CString :=
  decodeLoop maxLen text []

-- The text up to the closing quote, and the text from there on. It is `none` if the terminator is
-- skipped: the loop goes on behind the end of the text.
def scanValue : CString → Option (CString × CString)
  | []           => some ([], [])
  | [92]         => none
  | 92 :: c :: p => do
    let (text, rest) ← scanValue p
    return (92 :: c :: text, rest)
  | c :: p       => do
    if c = 34 then return ([], c :: p)
    let (text, rest) ← scanValue p
    return (c :: text, rest)

-- What one round of the loop of `parse_locale_json` comes to.
inductive Round
  | stop                                       -- `break`
  | next (p : CString)                         -- `continue`, also for a key that is too long
  | store (entry : LocaleEntry) (p : CString)
  | beyond                                     -- reads behind the end of the text
  deriving DecidableEq

def storeEntry (key text p : CString) : Round :=
  if key.length < maxKeyLen then
    match decodeJsonString text maxValLen with
    | none     => .next p
    | some val => .store ⟨key, val.takeWhile (· ≠ 0)⟩ p
  else .next p

def isFill (c : UInt8) : Bool :=
  c == 32 || c == 9 || c == 58

def readValue (key p : CString) : Round :=
  match p.dropWhile isFill with
  | 34 :: p =>
    match scanValue p with
    | none               => .beyond
    | some (_, [])       => .stop
    | some (text, _ :: p) => storeEntry key text p
  | p       => .next p

def round (p : CString) : Round :=
  match strchr p 34 with
  | none   => .stop
  | some p =>
    let keyStart := p.drop 1
    match keyStart.dropWhile (· ≠ 34) with
    | []     => .stop
    | _ :: p => readValue (keyStart.takeWhile (· ≠ 34)) p

-- Where the next round starts.
def Round.rest : Round → Option CString
  | next p | store _ p => some p
  | stop | beyond      => none

section

variable {p q key text rest : CString} {c : UInt8}

theorem strchr_length (h : strchr p c = some q) : q ≠ [] ∧ q.length ≤ p.length := by
  induction p
  case nil => cases h
  case cons d p ih =>
    rw [strchr] at h
    split_ifs at h
    case pos => cases h; exact ⟨List.cons_ne_nil _ _, Nat.le_refl _⟩
    case neg => exact ⟨(ih h).1, Nat.le_succ_of_le (ih h).2⟩

theorem scanValue_length (h : scanValue p = some (text, rest)) : rest.length ≤ p.length := by
  fun_induction scanValue generalizing text rest
  case case1 => cases h; exact Nat.le_refl _
  case case2 => cases h
  case case3 c p ih =>
    simp only [Option.bind_eq_bind, Option.bind_eq_some_iff, Prod.exists, Option.pure_def] at h
    obtain ⟨text, rest, h, he⟩ := h
    cases he
    exact Nat.le_succ_of_le (Nat.le_succ_of_le (ih h))
  case case4 => cases h; exact Nat.le_refl _
  case case5 c p _ _ hc ih =>
    simp only [Option.bind_eq_bind, Option.bind_eq_some_iff, Prod.exists, Option.pure_def] at h
    obtain ⟨text, rest, h, he⟩ := h
    cases he
    exact Nat.le_succ_of_le (ih h)

theorem storeEntry_rest : (storeEntry key text p).rest = some p := by
  unfold storeEntry
  split
  · split <;> rfl
  · rfl

theorem readValue_length : ∀ q ∈ (readValue key p).rest, q.length ≤ p.length := by
  have drop := (List.dropWhile_sublist (p := isFill) (l := p)).length_le
  intro q hq
  unfold readValue at hq
  split at hq
  case h_1 p' hp =>
    rw [hp, List.length_cons] at drop
    split at hq
    case h_1 => cases hq
    case h_2 => cases hq
    case h_3 text c rest hs =>
      have scan := scanValue_length hs
      rw [List.length_cons] at scan
      rw [storeEntry_rest] at hq
      cases hq
      omega
  case h_2 => cases hq; exact drop

theorem round_length : ∀ q ∈ (round p).rest, q.length < p.length := by
  intro q hq
  unfold round at hq
  split at hq
  case h_1 => cases hq
  case h_2 p' hp =>
    obtain ⟨hne, found⟩ := strchr_length hp
    have pos := List.length_pos_iff.mpr hne
    dsimp only at hq
    split at hq
    case h_1 => cases hq
    case h_2 c rest hr =>
      have drop := (List.dropWhile_sublist (p := (· ≠ 34)) (l := p'.drop 1)).length_le
      rw [hr, List.length_cons, List.length_drop] at drop
      have := readValue_length q hq
      omega

end

-- The entries that are stored, up to the number of them that there is room for. It is `none` if the
-- text is read behind its end.
def parseLocaleJson (maxEntries : Nat) (p : CString) : Option (List LocaleEntry) :=
  if p = [] ∨ maxEntries = 0 then some []
  else
    match h : round p with
    | .stop          => some []
    | .beyond        => none
    | .next q        => parseLocaleJson maxEntries q
    | .store entry q => (entry :: ·) <$> parseLocaleJson (maxEntries - 1) q
termination_by p.length
decreasing_by
  · exact round_length q (by rw [h]; rfl)
  · exact round_length q (by rw [h]; rfl)

end Deneb.Locale
