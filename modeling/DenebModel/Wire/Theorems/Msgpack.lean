import DenebModel.Wire.Msgpack
import Mathlib.Data.List.TakeWhile

namespace Deneb.Msgpack

open CString

variable {s : CString} {size : Nat} {sender receiver : Program} {rest : List UInt8}

section Strings

-- `mp_read_str` after `mp_put_str` returns the string, as far as it fits the buffer, and leaves what
-- follows it.
def Arrives (sender : Program) (size : Nat) (s : CString) : Prop :=
  ∃ bytes, sender.putStr s = some bytes ∧ ∀ rest, readStr size (bytes ++ rest) = some (fit size s, rest)

-- `mp_skip_value` after `mp_put_str` leaves what follows the string.
def Passes (sender receiver : Program) (s : CString) : Prop :=
  ∃ bytes, sender.putStr s = some bytes ∧ ∀ rest, receiver.skip (bytes ++ rest) = some rest

-- The strings that are written without `mp_put_u16`.
def Program.maxStr : Program → Nat
  | .dfsvc  => 31
  | .bridge => 255

-- The one length for which the misplaced tag of `mp_put_u16` leads to the right number of bytes.
def luckyLen : Nat := 0xcdcd - 1

-- In front of a string of that length, the lower byte of its length is read as a part of it.
def Lucky (size : Nat) (s : CString) : Prop :=
  s.length = luckyLen ∧ size ≤ s.length + 1 ∧ ∀ b ∈ s.take (size - 1), b = 0xcc

theorem fixStr_spec : ∀ n ≤ 31,
    0xa0 ≤ fixStr n ∧ fixStr n ≤ 0xbf ∧ (fixStr n &&& 0x1f).toNat = n := by
  decide

theorem fixStr_not_byte : ∀ n ≤ 31, ¬(fixStr n ≤ 0x7f ∨ 0xe0 ≤ fixStr n ∨ fixStr n = 0xc0 ∨
    fixStr n = 0xc2 ∨ fixStr n = 0xc3) := by
  decide

theorem readStrLen_fixStr {n : Nat} (h : n ≤ 31) : readStrLen (fixStr n :: rest) = some (n, rest) := by
  have ⟨hlo, hhi, hn⟩ := fixStr_spec n h
  simp only [readStrLen, readU8, Option.bind_eq_bind, Option.bind_some]
  rw [if_pos ⟨hlo, hhi⟩, hn]

theorem readStrLen_byte {n : Nat} (h : n ≤ 255) :
    readStrLen (0xd9 :: n.toUInt8 :: rest) = some (n, rest) := by
  have hn : n.toUInt8.toNat = n := by
    simp
    omega
  simp [readStrLen, readU8, hn]

theorem toNat_upper {n : Nat} (h : n ≤ 65535) : (n / 2 ^ 8).toUInt8.toNat = n / 256 := by
  simp
  omega

theorem bigEndian_upper {n : Nat} (h : n ≤ 65535) :
    bigEndian [0xcd, (n / 2 ^ 8).toUInt8] = 0xcd00 + n / 256 := by
  simp only [bigEndian, List.foldl_cons, List.foldl_nil, toNat_upper h]
  rfl

-- The tag that `mp_put_u16` writes is read as the upper byte of the length.
theorem readStrLen_putU16 {n : Nat} (h : n ≤ 65535) :
    readStrLen (0xda :: putU16 n ++ rest) = some (0xcd00 + n / 256, n.toUInt8 :: rest) := by
  rw [← bigEndian_upper h]
  rfl

theorem takeWhile_ne_zero (hs : 0 ∉ s) : s.takeWhile (· ≠ 0) = s := by
  rw [List.takeWhile_eq_self_iff]
  intro b hb
  have : b ≠ 0 := fun h => hs (h ▸ hb)
  simpa using this

theorem readStr_of_len {r : List UInt8} (hr : readStrLen r = some (s.length, s ++ rest))
    (hs : 0 ∉ s) (hz : 0 < size) : readStr size r = some (fit size s, rest) := by
  have ht : (s ++ rest).take (min s.length (size - 1)) = s.take (size - 1) := by
    rw [List.take_append_of_le_length (Nat.min_le_left _ _), List.take_eq_take_iff]
    omega
  have hn : (s.take (size - 1)).takeWhile (· ≠ 0) = s.take (size - 1) :=
    takeWhile_ne_zero fun h => hs (List.mem_of_mem_take h)
  simp only [readStr, hr, Option.bind_eq_bind, Option.bind_some]
  rw [if_neg (by simp; omega), ht, hn, List.drop_left, fit]

theorem putStr_short (h : s.length ≤ 31) : sender.putStr s = some (fixStr s.length :: s) := by
  cases sender <;> simp [Program.putStr, h]

theorem putStr_byte (h : 31 < s.length) (h' : s.length ≤ 255) :
    Program.bridge.putStr s = some (0xd9 :: s.length.toUInt8 :: s) := by
  simp [Program.putStr, Nat.not_le.mpr h, h']

theorem putStr_wide (h : sender.maxStr < s.length) (h' : s.length ≤ 65535) :
    sender.putStr s = some (0xda :: putU16 s.length ++ s) := by
  cases sender
  case dfsvc  => simp [Program.putStr, Nat.not_le.mpr (show 31 < s.length from h), h']
  case bridge =>
    have : ¬s.length ≤ 31 := by
      have : 255 < s.length := h
      omega
    simp [Program.putStr, this, Nat.not_le.mpr (show 255 < s.length from h), h']

-- What is read of a string whose length is written by `mp_put_u16`.
theorem readStr_wide (h : s.length ≤ 65535) (hz : 0 < size) :
    readStr size (0xda :: putU16 s.length ++ s ++ rest) =
      if (s.length.toUInt8 :: s ++ rest).length < 0xcd00 + s.length / 256 then none
      else some (((s.length.toUInt8 :: s ++ rest).take (min (0xcd00 + s.length / 256) (size - 1))).takeWhile (· ≠ 0),
        (s.length.toUInt8 :: s ++ rest).drop (0xcd00 + s.length / 256)) := by
  have hl := @readStrLen_putU16 (s ++ rest) s.length h
  rw [← List.append_assoc] at hl
  simp only [readStr, hl, Option.bind_eq_bind, Option.bind_some]
  have : size ≠ 0 := by omega
  simp only [this, or_false]
  rfl

-- A string with a byte in front of it is the same up to some length.
theorem take_cons_eq_take_iff {b : UInt8} {k : Nat} (hk : k ≤ s.length) :
    (b :: s).take k = s.take k ↔ ∀ x ∈ s.take k, x = b := by
  induction k generalizing b s
  case zero => simp
  case succ k ih =>
    cases s
    case nil => simp at hk
    case cons c s =>
      have hk : k ≤ s.length := by simpa using hk
      rw [List.take_succ_cons, List.take_succ_cons, List.cons_eq_cons, ih hk, List.forall_mem_cons]
      constructor
      case mp  => rintro ⟨rfl, h⟩; exact ⟨rfl, h⟩
      case mpr => rintro ⟨rfl, h⟩; exact ⟨rfl, h⟩

theorem luckyLen_of_eq {n : Nat} (h : n + 1 = 0xcd00 + n / 256) : n = luckyLen := by
  unfold luckyLen
  omega

theorem readStr_lucky (hl : s.length = luckyLen) (hs : 0 ∉ s) (hz : 0 < size) :
    readStr size (0xda :: putU16 s.length ++ s ++ rest) =
      some ((0xcc :: s).take (min 0xcdcd (size - 1)), rest) := by
  rw [readStr_wide (by rw [hl]; decide) hz]
  have hb : s.length.toUInt8 = 0xcc := by rw [hl]; rfl
  have hn : 0xcd00 + s.length / 256 = (0xcc :: s).length := by rw [List.length_cons, hl]; rfl
  have hc : (0xcc :: s).length = 0xcdcd := by rw [List.length_cons, hl]; rfl
  have hz : 0 ∉ (0xcc :: s).take (min 0xcdcd (size - 1)) := by
    intro h
    have := List.mem_of_mem_take h
    simp [hs] at this
  rw [hb, hn, if_neg (by simp), List.drop_left, List.take_append_of_le_length (Nat.min_le_left _ _), hc,
    takeWhile_ne_zero hz]

theorem arrives_iff (hl : s.length ≤ 65535) (hs : 0 ∉ s) (hz : 0 < size) :
    Arrives sender size s ↔ s.length ≤ sender.maxStr ∨ Lucky size s := by
  constructor
  case mp =>
    intro ⟨bytes, hp, hr⟩
    refine or_iff_not_imp_left.mpr fun hw => ?_
    rw [putStr_wide (Nat.not_le.mp hw) hl, Option.some_inj] at hp
    subst hp
    have read := hr []
    rw [readStr_wide hl hz] at read
    split at read
    case isTrue => contradiction
    case isFalse hlen =>
      have hd : (s.length.toUInt8 :: s ++ []).drop (0xcd00 + s.length / 256) = [] :=
        congrArg Prod.snd (Option.some_inj.mp read)
      rw [List.drop_eq_nil_iff] at hd
      simp only [List.append_nil, List.length_cons] at hd hlen
      have lucky : s.length = luckyLen := luckyLen_of_eq (by omega)
      have read := hr []
      rw [readStr_lucky lucky hs hz] at read
      have text : (0xcc :: s).take (min 0xcdcd (size - 1)) = s.take (size - 1) :=
        congrArg Prod.fst (Option.some_inj.mp read)
      have hsize : size ≤ s.length + 1 := by
        have := congrArg List.length text
        simp only [List.length_take, List.length_cons] at this
        unfold luckyLen at lucky
        omega
      rw [Nat.min_eq_right (by unfold luckyLen at lucky; omega),
        take_cons_eq_take_iff (by omega)] at text
      exact ⟨lucky, hsize, text⟩
  case mpr =>
    intro h
    by_cases hw : s.length ≤ sender.maxStr
    case pos =>
      by_cases hshort : s.length ≤ 31
      case pos =>
        refine ⟨_, putStr_short hshort, fun rest => readStr_of_len ?_ hs hz⟩
        exact readStrLen_fixStr hshort
      case neg =>
        cases sender
        case dfsvc => contradiction
        case bridge =>
          refine ⟨_, putStr_byte (Nat.not_le.mp hshort) hw, fun rest => readStr_of_len ?_ hs hz⟩
          exact readStrLen_byte hw
    case neg =>
      obtain ⟨lucky, hsize, text⟩ := h.resolve_left hw
      refine ⟨_, putStr_wide (Nat.not_le.mp hw) hl, fun rest => ?_⟩
      rw [readStr_lucky lucky hs hz, Nat.min_eq_right (by unfold luckyLen at lucky; omega),
        (take_cons_eq_take_iff (by omega)).mpr text, fit]

-- A value that is skipped has at least one byte.
theorem skip_cons {tag : UInt8} {r : List UInt8} :
    receiver.skip (tag :: r) = receiver.skipValue (r.length + 1) (tag :: r) := rfl

theorem skip_fixStr {n : Nat} (h : n ≤ 31) {r : List UInt8} :
    receiver.skip (fixStr n :: r) = skipBytes n r := by
  have ⟨hlo, hhi, hn⟩ := fixStr_spec n h
  have notByte := fixStr_not_byte n h
  simp only [skip_cons, Program.skipValue, readU8, Option.bind_eq_bind, Option.bind_some]
  rw [if_neg notByte, if_pos ⟨hlo, hhi⟩, hn]

theorem skip_byte {n : UInt8} {r : List UInt8} :
    receiver.skip (0xd9 :: n :: r) = skipBytes n.toNat r := by
  simp [skip_cons, Program.skipValue, readU8]

theorem skip_wide {n : Nat} (h : n ≤ 65535) {r : List UInt8} :
    receiver.skip (0xda :: putU16 n ++ r) = skipBytes (0xcd00 + n / 256) (n.toUInt8 :: r) := by
  simp only [putU16, List.cons_append, List.nil_append, skip_cons]
  simp [Program.skipValue, readU8, readBytes, ← bigEndian_upper h]

theorem skipBytes_append : skipBytes s.length (s ++ rest) = some rest := by
  simp [skipBytes]

theorem passes_iff (hl : s.length ≤ 65535) :
    Passes sender receiver s ↔ s.length ≤ sender.maxStr ∨ s.length = luckyLen := by
  constructor
  case mp =>
    intro ⟨bytes, hp, hr⟩
    refine or_iff_not_imp_left.mpr fun hw => ?_
    rw [putStr_wide (Nat.not_le.mp hw) hl, Option.some_inj] at hp
    subst hp
    have skipped := hr []
    rw [List.append_assoc, skip_wide hl, skipBytes] at skipped
    split at skipped
    case isTrue hlen =>
      have hd := Option.some_inj.mp skipped
      rw [List.drop_eq_nil_iff] at hd
      simp only [List.append_nil, List.length_cons] at hd hlen
      exact luckyLen_of_eq (by omega)
    case isFalse => contradiction
  case mpr =>
    intro h
    by_cases hw : s.length ≤ sender.maxStr
    case pos =>
      by_cases hshort : s.length ≤ 31
      case pos =>
        refine ⟨_, putStr_short hshort, fun rest => ?_⟩
        rw [List.cons_append, skip_fixStr hshort, skipBytes_append]
      case neg =>
        cases sender
        case dfsvc => contradiction
        case bridge =>
          have hn : s.length.toUInt8.toNat = s.length := by
            have : s.length ≤ 255 := hw
            simp
            omega
          refine ⟨_, putStr_byte (Nat.not_le.mp hshort) hw, fun rest => ?_⟩
          rw [List.cons_append, List.cons_append, skip_byte, hn, skipBytes_append]
    case neg =>
      have lucky := h.resolve_left hw
      refine ⟨_, putStr_wide (Nat.not_le.mp hw) hl, fun rest => ?_⟩
      have hn : 0xcd00 + s.length / 256 = (s.length.toUInt8 :: s).length := by
        rw [List.length_cons, lucky]
        rfl
      rw [List.append_assoc, skip_wide hl, hn, ← List.cons_append, skipBytes_append]

end Strings

section Fields

variable {fields : List Field} {field : Field} {bytes : List UInt8} {parts : KeyParts}

-- The receiver of a key reads the value of the field into its buffer, or skips it, and leaves what
-- follows.
def Field.Taken (sender receiver : Program) (field : Field) : Prop :=
  match receiver.keyBuffer field.name, field.value with
  | some (size, _), .str s => Arrives sender size s
  | some _, _              => False
  | none, .str s           => Passes sender receiver s
  | none, .byte v          => ∀ rest, receiver.skip (v :: rest) = some rest
  | none, .i64 _           => True

-- A name of a field, which both programs write as a short string.
structure Field.Named (field : Field) : Prop where
  short : field.name.length ≤ 31
  text  : 0 ∉ field.name

-- What the receiver of a key has in its buffers after the fields.
def Program.collect (receiver : Program) : List Field → KeyParts → KeyParts
  | [], parts              => parts
  | field :: fields, parts => receiver.collect fields <|
    match receiver.keyBuffer field.name, field.value with
    | some (size, store), .str s => store parts (fit size s)
    | _, _                       => parts

theorem Field.Named.read (named : field.Named) {name : List UInt8}
    (hn : sender.putStr field.name = some name) :
    readStr 32 (name ++ rest) = some (field.name, rest) := by
  rw [putStr_short named.short, Option.some_inj] at hn
  subst hn
  rw [List.cons_append, readStr_of_len (readStrLen_fixStr named.short) named.text (by decide),
    fit_of_length_lt (Nat.lt_succ_of_le named.short)]

theorem skip_i64 {v : Int64} : receiver.skip (putI64 v ++ rest) = some rest := by
  simp only [putI64, List.map_cons, List.map_nil, List.cons_append, List.nil_append, skip_cons,
    Program.skipValue, readU8, Option.bind_eq_bind, Option.bind_some]
  iterate 7 rw [if_neg (by decide)]
  rw [if_pos (by decide)]
  simp [skipBytes]

theorem putField_eq_some (h : sender.putField field = some bytes) :
    ∃ name value, sender.putStr field.name = some name ∧ sender.putValue field.value = some value ∧
      bytes = name ++ value := by
  simp only [Program.putField, Option.bind_eq_bind, Option.bind_eq_some_iff] at h
  obtain ⟨name, hn, value, hv, hb⟩ := h
  exact ⟨name, value, hn, hv, (Option.some_inj.mp hb).symm⟩

theorem putFields_cons_eq_some (h : sender.putFields (field :: fields) = some bytes) :
    ∃ first others, sender.putField field = some first ∧ sender.putFields fields = some others ∧
      bytes = first ++ others := by
  simp only [Program.putFields, Option.bind_eq_bind, Option.bind_eq_some_iff] at h
  obtain ⟨first, hf, others, ho, hb⟩ := h
  exact ⟨first, others, hf, ho, (Option.some_inj.mp hb).symm⟩

-- One round of `read_key_parts`.
theorem keyLoop_field {count : Nat} (named : field.Named) (taken : field.Taken sender receiver)
    (h : sender.putField field = some bytes) :
    receiver.keyLoop (count + 1) parts (bytes ++ rest) =
      receiver.keyLoop count (receiver.collect [field] parts) rest := by
  obtain ⟨name, value, hn, hv, rfl⟩ := putField_eq_some h
  rw [List.append_assoc, Program.keyLoop, named.read hn]
  simp only [Option.bind_eq_bind, Option.bind_some, Program.collect]
  unfold Field.Taken at taken
  cases hk : receiver.keyBuffer field.name
  case some buffer =>
    obtain ⟨size, store⟩ := buffer
    cases hf : field.value
    case str s =>
      rw [hk, hf] at taken
      rw [hf, Program.putValue] at hv
      obtain ⟨_, hp, hr⟩ := taken
      rw [hv, Option.some_inj] at hp
      subst hp
      simp only [hr, Option.bind_some]
    case byte => rw [hk, hf] at taken; contradiction
    case i64  => rw [hk, hf] at taken; contradiction
  case none =>
    cases hf : field.value
    case str s =>
      rw [hk, hf] at taken
      rw [hf, Program.putValue] at hv
      obtain ⟨_, hp, hr⟩ := taken
      rw [hv, Option.some_inj] at hp
      subst hp
      simp only [hr, Option.bind_some]
    case byte v =>
      rw [hk, hf] at taken
      rw [hf, Program.putValue, Option.some_inj] at hv
      subst hv
      simp only [List.cons_append, List.nil_append, taken, Option.bind_some]
    case i64 v =>
      rw [hf, Program.putValue, Option.some_inj] at hv
      subst hv
      simp only [skip_i64, Option.bind_some]

theorem keyLoop_fields (named : ∀ f ∈ fields, f.Named) (taken : ∀ f ∈ fields, f.Taken sender receiver)
    (h : sender.putFields fields = some bytes) :
    receiver.keyLoop fields.length parts bytes = some (receiver.collect fields parts) := by
  induction fields generalizing bytes parts
  case nil => rfl
  case cons field fields ih =>
    obtain ⟨first, others, hf, ho, rfl⟩ := putFields_cons_eq_some h
    have ⟨hn, hns⟩ := List.forall_mem_cons.mp named
    have ⟨ht, hts⟩ := List.forall_mem_cons.mp taken
    rw [List.length_cons, keyLoop_field hn ht hf, ih hns hts ho]
    rfl

theorem readMapLen_fields (n : Nat) (hn : n ≤ 15) {r : List UInt8} :
    readMapLen ((0x80 ||| n.toUInt8) :: r) = some (n, r) := by
  have tag : ∀ n ≤ 15, ((0x80 : UInt8) ||| n.toUInt8) &&& (0xf0 : UInt8) = (0x80 : UInt8) ∧
      (((0x80 : UInt8) ||| n.toUInt8) &&& (0x0f : UInt8)).toNat = n := by decide
  have ⟨hm, hl⟩ := tag n hn
  simp only [readMapLen, readU8, Option.bind_eq_bind, Option.bind_some]
  rw [if_pos hm, hl]

theorem putMap_eq_some (h : sender.putFields fields = some bytes) :
    sender.putMap fields = some ((0x80 ||| fields.length.toUInt8) :: bytes) := by
  simp [Program.putMap, h]

-- `read_key_parts` on a key of which every field is taken.
theorem readKeyParts_putMap (hl : fields.length ≤ 15) (named : ∀ f ∈ fields, f.Named)
    (taken : ∀ f ∈ fields, f.Taken sender receiver) (h : sender.putFields fields = some bytes) :
    ∃ msg, sender.putMap fields = some msg ∧
      receiver.readKeyParts msg = some (receiver.collect fields {}) := by
  refine ⟨_, putMap_eq_some h, ?_⟩
  rw [Program.readKeyParts, readMapLen_fields _ hl]
  exact keyLoop_fields named taken h

-- One round of `read_map_value` for another field.
theorem mapLoop_other {key : CString} {count : Nat} {v : UInt8} (named : field.Named)
    (hne : field.name ≠ key) (hv : field.value = .byte v) (hb : v ≤ 0x7f)
    (h : sender.putField field = some bytes) :
    mapLoop key (count + 1) (bytes ++ rest) = mapLoop key count rest := by
  obtain ⟨name, value, hn, hp, rfl⟩ := putField_eq_some h
  rw [hv, Program.putValue, Option.some_inj] at hp
  subst hp
  rw [List.append_assoc, mapLoop, named.read hn]
  have skipped : Program.bridge.skip (v :: rest) = some rest := by
    simp [skip_cons, Program.skipValue, readU8, hb]
  simp only [Option.bind_eq_bind, Option.bind_some, if_neg hne, List.cons_append, List.nil_append, skipped]

-- The round for the field itself.
theorem mapLoop_found {count : Nat} {value : List UInt8} (named : field.Named)
    (hv : sender.putValue field.value = some value) (h : sender.putField field = some bytes) :
    mapLoop field.name (count + 1) (bytes ++ rest) = some (value ++ rest) := by
  obtain ⟨name, _, hn, hp, rfl⟩ := putField_eq_some h
  rw [hv, Option.some_inj] at hp
  subst hp
  rw [List.append_assoc, mapLoop, named.read hn]
  simp

theorem mapLoop_fields {before after : List Field} {first : List UInt8}
    (named : ∀ f ∈ before, f.Named)
    (others : ∀ f ∈ before, f.name ≠ field.name ∧ ∃ v ≤ 0x7f, f.value = .byte v)
    (found : mapLoop field.name (after.length + 1) rest = some first)
    (h : sender.putFields before = some bytes) :
    mapLoop field.name (before ++ field :: after).length (bytes ++ rest) = some first := by
  induction before generalizing bytes
  case nil =>
    rw [Program.putFields, Option.some_inj] at h
    subst h
    exact found
  case cons f before ih =>
    obtain ⟨head, others', hf, ho, rfl⟩ := putFields_cons_eq_some h
    have ⟨hn, hns⟩ := List.forall_mem_cons.mp named
    have ⟨⟨hne, v, hb, hv⟩, hos⟩ := List.forall_mem_cons.mp others
    rw [List.append_assoc, List.cons_append, List.length_cons, mapLoop_other hn hne hv hb hf]
    exact ih hns hos ho

theorem putFields_append {before after : List Field} {b a : List UInt8}
    (hb : sender.putFields before = some b) (ha : sender.putFields after = some a) :
    sender.putFields (before ++ after) = some (b ++ a) := by
  induction before generalizing b
  case nil =>
    rw [Program.putFields, Option.some_inj] at hb
    subst hb
    exact ha
  case cons f before ih =>
    obtain ⟨head, others, hf, ho, rfl⟩ := putFields_cons_eq_some hb
    simp [Program.putFields, hf, ih ho]

-- `read_map_value` on a data message in which only single bytes stand before the field.
theorem readMapValue_putMap {before after : List Field} {b value following : List UInt8}
    (hl : (before ++ field :: after).length ≤ 15) (named : ∀ f ∈ before, f.Named)
    (hn : field.Named)
    (others : ∀ f ∈ before, f.name ≠ field.name ∧ ∃ v ≤ 0x7f, f.value = .byte v)
    (hb : sender.putFields before = some b) (hv : sender.putValue field.value = some value)
    (ha : sender.putFields after = some following) :
    ∃ msg, sender.putMap (before ++ field :: after) = some msg ∧
      readMapValue msg field.name = some (value ++ following) := by
  have hf : sender.putField field = some (fixStr field.name.length :: field.name ++ value) := by
    simp [Program.putField, putStr_short hn.short, hv]
  have hfa : sender.putFields (field :: after) =
      some ((fixStr field.name.length :: field.name ++ value) ++ following) := by
    simp [Program.putFields, hf, ha]
  refine ⟨_, putMap_eq_some (putFields_append hb hfa), ?_⟩
  rw [readMapValue, readMapLen_fields _ hl]
  exact mapLoop_fields named others (mapLoop_found hn hv hf) hb

end Fields

section Messages

-- A key arrives: `read_key_parts` finds the parts in it, and it reads or skips each of its fields for
-- exactly the bytes that were written.
def KeyAgrees (sender receiver : Program) (fields : List Field) (parts : KeyParts) : Prop :=
  (∃ msg, sender.putMap fields = some msg ∧ receiver.readKeyParts msg = some parts) ∧
  ∀ field ∈ fields, field.Taken sender receiver

-- The value of a field is read by the bridge as it was written, with what follows left.
def ValueAgrees (sender : Program) (size : Nat) : Value → Prop
  | .str s  => Arrives sender size s
  | .byte v => ∀ rest, readInt (v :: rest) = some ((v.toNat : Int), rest)
  | .i64 v  => ∀ rest, readInt (putI64 v ++ rest) = some (v.toInt, rest)

-- A field of a data message arrives: `read_map_value` leaves a reader at its value, which is read as
-- it was written.
def FieldAgrees (sender : Program) (size : Nat) (before : List Field) (field : Field)
    (after : List Field) : Prop :=
  (∃ msg value following, sender.putMap (before ++ field :: after) = some msg ∧
    sender.putValue field.value = some value ∧ sender.putFields after = some following ∧
    readMapValue msg field.name = some (value ++ following)) ∧
  ValueAgrees sender size field.value

-- The fields of the data of `publish_status`.
inductive StatusField
  | tracker
  | state
  | pin
  | pinTimestamp

-- What one program sends, and what the other one looks for in it.
inductive Sent
  | statusKey (ts : Int64)
  | statusData (state : State) (pin : CString) (ts : Int64) (field : StatusField)
  | rpcKey (ts : Int64) (source target : CString)
  | bridgeKey (ts : Int64) (action source target : CString)
  | request (instruction : Instruction)

namespace Sent

-- The strings of a message as the callers of the encoders pass them.
def Valid : Sent → Prop
  | statusKey _                      => True
  | statusData _ pin _ _             => pin.length ≤ 65535 ∧ 0 ∉ pin
  | rpcKey _ source target           => ∀ s ∈ [source, target], s.length ≤ 65535 ∧ 0 ∉ s
  | bridgeKey _ action source target => ∀ s ∈ [action, source, target], s.length ≤ 65535 ∧ 0 ∉ s
  | request _                        => True

-- The other program decodes the message to the values that were encoded.
def Agrees : Sent → Prop
  | statusKey ts =>
    KeyAgrees .dfsvc .bridge (Msgpack.statusKey ts)
      { action := "drop", target := "coordinator::digitalfactory::status" }
  | statusData state pin ts field =>
    let i := match field with
      | .tracker      => 0
      | .state        => 1
      | .pin          => 2
      | .pinTimestamp => 3
    ∃ f, (Msgpack.statusData state pin ts)[i]? = some f ∧
      FieldAgrees .dfsvc 64 ((Msgpack.statusData state pin ts).take i) f
        ((Msgpack.statusData state pin ts).drop (i + 1))
  | rpcKey ts source target =>
    KeyAgrees .dfsvc .bridge (Msgpack.rpcKey ts source target)
      { action := "rpc-request", target := fit 128 target }
  | bridgeKey ts action source target =>
    KeyAgrees .bridge .dfsvc (Msgpack.bridgeKey ts action source target)
      { action := fit 32 action, source := fit 128 source, target := fit 160 target }
  -- `dfsvc` has no reader for numbers.
  | request instruction =>
    ∀ field ∈ Msgpack.request instruction, field.Taken .bridge .dfsvc

-- Strings whose length is not written by `mp_put_u16`, or whose length happens to be read right.
def Fits : Sent → Prop
  | statusKey _ => False
  | statusData _ pin _ field =>
    match field with
    | .tracker | .state => True
    | .pin              => pin.length ≤ 31 ∨ Lucky 64 pin
    | .pinTimestamp     => False
  | rpcKey _ source target =>
    (source.length ≤ 31 ∨ source.length = luckyLen) ∧ (target.length ≤ 31 ∨ Lucky 128 target)
  | bridgeKey _ action source target =>
    (action.length ≤ 255 ∨ Lucky 32 action) ∧ (source.length ≤ 255 ∨ Lucky 128 source) ∧
      (target.length ≤ 255 ∨ Lucky 160 target)
  | request _ => True

end Sent

variable {fields : List Field} {parts : KeyParts}

theorem putValue_isSome_of_taken {field : Field} (taken : field.Taken sender receiver) :
    ∃ value, sender.putValue field.value = some value := by
  unfold Field.Taken at taken
  cases hv : field.value
  case str s =>
    rw [hv] at taken
    cases hk : receiver.keyBuffer field.name
    case some => rw [hk] at taken; exact ⟨_, taken.choose_spec.1⟩
    case none => rw [hk] at taken; exact ⟨_, taken.choose_spec.1⟩
  case byte v => exact ⟨_, rfl⟩
  case i64 v  => exact ⟨_, rfl⟩

theorem putFields_isSome_of_taken (named : ∀ f ∈ fields, f.Named)
    (taken : ∀ f ∈ fields, f.Taken sender receiver) : ∃ bytes, sender.putFields fields = some bytes := by
  induction fields
  case nil => exact ⟨_, rfl⟩
  case cons field fields ih =>
    have ⟨hn, hns⟩ := List.forall_mem_cons.mp named
    have ⟨ht, hts⟩ := List.forall_mem_cons.mp taken
    obtain ⟨value, hv⟩ := putValue_isSome_of_taken ht
    obtain ⟨bytes, hb⟩ := ih hns hts
    simp [Program.putFields, Program.putField, putStr_short hn.short, hv, hb]

-- A key arrives as soon as each of its fields is taken.
theorem keyAgrees_iff (hl : fields.length ≤ 15) (named : ∀ f ∈ fields, f.Named)
    (hp : receiver.collect fields {} = parts) :
    KeyAgrees sender receiver fields parts ↔ ∀ f ∈ fields, f.Taken sender receiver := by
  constructor
  case mp  => exact And.right
  case mpr =>
    intro taken
    obtain ⟨bytes, hb⟩ := putFields_isSome_of_taken named taken
    exact ⟨hp ▸ readKeyParts_putMap hl named taken hb, taken⟩

-- The names of the fields of all messages are short.
theorem named_of_mem {names : List CString} (hn : ∀ name ∈ names, name.length ≤ 31 ∧ 0 ∉ name)
    (hf : fields.map Field.name = names) : ∀ f ∈ fields, f.Named := by
  intro f hm
  have := hn f.name (hf ▸ List.mem_map_of_mem hm)
  exact ⟨this.1, this.2⟩

theorem taken_i64 {name : CString} {v : Int64} (h : receiver.keyBuffer name = none) :
    Field.Taken sender receiver ⟨name, .i64 v⟩ := by
  simp [Field.Taken, h]

theorem taken_str_iff {name : CString} {store : KeyParts → CString → KeyParts}
    (h : receiver.keyBuffer name = some (size, store)) :
    Field.Taken sender receiver ⟨name, .str s⟩ ↔ Arrives sender size s := by
  simp [Field.Taken, h]

theorem taken_skipped_iff {name : CString} (h : receiver.keyBuffer name = none) :
    Field.Taken sender receiver ⟨name, .str s⟩ ↔ Passes sender receiver s := by
  simp [Field.Taken, h]

theorem statusKey_not_agrees (ts : Int64) : ¬(Sent.statusKey ts).Agrees := by
  intro ⟨_, taken⟩
  have target := taken ⟨"target", .str "coordinator::digitalfactory::status"⟩ (by simp [statusKey])
  rw [taken_str_iff (show Program.bridge.keyBuffer "target" = _ from rfl),
    arrives_iff (by decide) (by decide) (by decide)] at target
  cases target
  case inl h => exact absurd h (by decide)
  case inr h => exact absurd h.1 (by decide)

theorem rpcKey_agrees_iff (ts : Int64) (source target : CString)
    (h : (Sent.rpcKey ts source target).Valid) :
    (Sent.rpcKey ts source target).Agrees ↔ (Sent.rpcKey ts source target).Fits := by
  have ⟨hs, ht⟩ : (source.length ≤ 65535 ∧ 0 ∉ source) ∧ target.length ≤ 65535 ∧ 0 ∉ target := by
    simpa [Sent.Valid] using h
  have named : ∀ f ∈ rpcKey ts source target, f.Named :=
    @named_of_mem _ ["ts", "action", "source", "target"] (by decide) rfl
  have action : Arrives .dfsvc 32 "rpc-request" :=
    (arrives_iff (by decide) (by decide) (by decide)).mpr (.inl (by decide))
  refine (keyAgrees_iff (by simp [rpcKey]) named rfl).trans ?_
  simp only [rpcKey, List.forall_mem_cons, List.not_mem_nil, false_imp_iff, implies_true, and_true]
  rw [taken_str_iff (show Program.bridge.keyBuffer "action" = _ from rfl),
    taken_skipped_iff (show Program.bridge.keyBuffer "source" = none from rfl),
    taken_str_iff (show Program.bridge.keyBuffer "target" = _ from rfl),
    passes_iff hs.1, arrives_iff ht.1 ht.2 (by decide)]
  have ts : Field.Taken .dfsvc .bridge ⟨"ts", .i64 ts⟩ := taken_i64 rfl
  simp only [ts, action, true_and]
  rfl

theorem bridgeKey_agrees_iff (ts : Int64) (action source target : CString)
    (h : (Sent.bridgeKey ts action source target).Valid) :
    (Sent.bridgeKey ts action source target).Agrees ↔
      (Sent.bridgeKey ts action source target).Fits := by
  have ⟨ha, hs, ht⟩ : (action.length ≤ 65535 ∧ 0 ∉ action) ∧
      (source.length ≤ 65535 ∧ 0 ∉ source) ∧ target.length ≤ 65535 ∧ 0 ∉ target := by
    simpa [Sent.Valid] using h
  have named : ∀ f ∈ bridgeKey ts action source target, f.Named :=
    @named_of_mem _ ["ts", "action", "source", "target"] (by decide) rfl
  refine (keyAgrees_iff (by simp [bridgeKey]) named rfl).trans ?_
  simp only [bridgeKey, List.forall_mem_cons, List.not_mem_nil, false_imp_iff, implies_true, and_true]
  rw [taken_str_iff (show Program.dfsvc.keyBuffer "action" = _ from rfl),
    taken_str_iff (show Program.dfsvc.keyBuffer "source" = _ from rfl),
    taken_str_iff (show Program.dfsvc.keyBuffer "target" = _ from rfl),
    arrives_iff ha.1 ha.2 (by decide), arrives_iff hs.1 hs.2 (by decide),
    arrives_iff ht.1 ht.2 (by decide)]
  have ts : Field.Taken .bridge .dfsvc ⟨"ts", .i64 ts⟩ := taken_i64 rfl
  simp only [ts, true_and]
  rfl

theorem request_agrees (instruction : Instruction) : (Sent.request instruction).Agrees := by
  have passes : Passes .bridge .dfsvc "DigitalFactoryRequest" :=
    (passes_iff (by decide)).mpr (.inl (by decide))
  have byte {v : UInt8} {name : CString} (hk : Program.dfsvc.keyBuffer name = none)
      (hv : v ≤ 0x7f ∨ v = 0xc0) : Field.Taken .bridge .dfsvc ⟨name, .byte v⟩ := by
    obtain hv | rfl := hv
    case inl => simp [Field.Taken, hk, skip_cons, Program.skipValue, readU8, hv]
    case inr => simp [Field.Taken, hk, skip_cons, Program.skipValue, readU8]
  simp only [Sent.Agrees, request, List.forall_mem_cons]
  refine ⟨byte rfl (.inl (by decide)), byte rfl (.inl ?_), byte rfl (.inr rfl),
    (taken_skipped_iff rfl).mpr passes, List.forall_mem_nil _⟩
  cases instruction <;> decide

theorem putStr_isSome (h : s.length ≤ 65535) : ∃ bytes, sender.putStr s = some bytes := by
  by_cases hw : s.length ≤ sender.maxStr
  case pos =>
    cases sender
    case dfsvc  => exact ⟨_, putStr_short hw⟩
    case bridge =>
      by_cases hshort : s.length ≤ 31
      case pos => exact ⟨_, putStr_short hshort⟩
      case neg => exact ⟨_, putStr_byte (Nat.not_le.mp hshort) hw⟩
  case neg => exact ⟨_, putStr_wide (Nat.not_le.mp hw) h⟩

theorem readInt_byte {v : UInt8} (h : v ≤ 0x7f) : readInt (v :: rest) = some ((v.toNat : Int), rest) := by
  simp [readInt, readU8, h]

theorem readInt_i64 {v : Int64} : readInt (putI64 v ++ rest) = none := by
  simp [readInt, readU8, putI64]

theorem statusData_agrees_iff (state : State) (pin : CString) (ts : Int64) (field : StatusField)
    (h : (Sent.statusData state pin ts field).Valid) :
    (Sent.statusData state pin ts field).Agrees ↔ (Sent.statusData state pin ts field).Fits := by
  have code : state.code ≤ 0x7f := by cases state <;> decide
  obtain ⟨text, ht⟩ := @putStr_isSome pin .dfsvc h.1
  have named : ∀ f ∈ statusData state pin ts, f.Named :=
    @named_of_mem _ ["tracker", "state", "pin", "pin_timestamp"] (by decide) rfl
  have located {before after : List Field} {f : Field} {b value following : List UInt8}
      (he : statusData state pin ts = before ++ f :: after)
      (others : ∀ g ∈ before, g.name ≠ f.name ∧ ∃ v ≤ 0x7f, g.value = .byte v)
      (hb : Program.dfsvc.putFields before = some b)
      (hv : Program.dfsvc.putValue f.value = some value)
      (ha : Program.dfsvc.putFields after = some following) :
      ∃ msg value following, Program.dfsvc.putMap (before ++ f :: after) = some msg ∧
        Program.dfsvc.putValue f.value = some value ∧
        Program.dfsvc.putFields after = some following ∧
        readMapValue msg f.name = some (value ++ following) := by
    rw [he] at named
    have hl : (before ++ f :: after).length ≤ 15 := by rw [← he]; exact (by decide : 4 ≤ 15)
    have ⟨msg, hm, hr⟩ := readMapValue_putMap hl (fun g hg => named g (List.mem_append_left _ hg))
      (named f (by simp)) others hb hv ha
    exact ⟨msg, value, following, hm, hv, ha, hr⟩
  have stamp : Program.dfsvc.putFields [⟨"pin_timestamp", .i64 ts⟩] =
      some (fixStr 13 :: "pin_timestamp" ++ putI64 ts ++ []) := rfl
  have fromPin : Program.dfsvc.putFields [⟨"pin", .str pin⟩, ⟨"pin_timestamp", .i64 ts⟩] =
      some ((fixStr 3 :: "pin" ++ text) ++ (fixStr 13 :: "pin_timestamp" ++ putI64 ts ++ [])) := by
    simp only [Program.putFields, Program.putField, Program.putValue, ht]
    rfl
  have fromState : ∃ bytes, Program.dfsvc.putFields
      [⟨"state", .byte state.code⟩, ⟨"pin", .str pin⟩, ⟨"pin_timestamp", .i64 ts⟩] = some bytes := by
    rw [Program.putFields, fromPin]
    exact ⟨_, rfl⟩
  cases field
  case tracker =>
    refine ⟨fun _ => trivial, fun _ => ⟨_, rfl, ?_, fun _ => readInt_byte (by decide)⟩⟩
    exact located rfl (List.forall_mem_nil _) rfl rfl fromState.choose_spec
  case state =>
    refine ⟨fun _ => trivial, fun _ => ⟨_, rfl, ?_, fun _ => readInt_byte code⟩⟩
    refine located rfl ?_ rfl rfl fromPin
    simp [statusData]
    decide
  case pin =>
    have value : ValueAgrees .dfsvc 64 (.str pin) ↔ pin.length ≤ 31 ∨ Lucky 64 pin :=
      arrives_iff h.1 h.2 (by decide)
    constructor
    case mp =>
      intro ⟨f, hf, agrees⟩
      cases hf
      exact value.mp agrees.2
    case mpr =>
      intro fits
      refine ⟨_, rfl, ?_, value.mpr fits⟩
      refine located rfl ?_ rfl ht stamp
      simp [statusData, code]
      decide
  case pinTimestamp =>
    refine ⟨fun ⟨f, hf, agrees⟩ => ?_, False.elim⟩
    cases hf
    have := agrees.2 []
    rw [readInt_i64] at this
    contradiction

-- A message arrives at the other program if and only if its strings are short enough, and never if it
-- has the fixed target of the status or a timestamp that is looked for.
theorem agrees_iff_fits (sent : Sent) (h : sent.Valid) : sent.Agrees ↔ sent.Fits := by
  cases sent
  case statusKey ts => exact ⟨fun agrees => statusKey_not_agrees ts agrees, False.elim⟩
  case statusData state pin ts field => exact statusData_agrees_iff state pin ts field h
  case rpcKey ts source target => exact rpcKey_agrees_iff ts source target h
  case bridgeKey ts action source target => exact bridgeKey_agrees_iff ts action source target h
  case request instruction => exact ⟨fun _ => trivial, fun _ => request_agrees instruction⟩

theorem agrees_iff_fits_connect :
    (Sent.bridgeKey 0 "rpc-request" "deneb/df-bridge"
      "digitalfactory::connector::connect@execute|D1").Valid ∧
    (Sent.bridgeKey 0 "rpc-request" "deneb/df-bridge"
      "digitalfactory::connector::connect@execute|D1").Agrees := by
  have valid : (Sent.bridgeKey 0 "rpc-request" "deneb/df-bridge"
      "digitalfactory::connector::connect@execute|D1").Valid := by
    unfold Sent.Valid
    decide
  refine ⟨valid, (agrees_iff_fits _ valid).mpr ⟨.inl ?_, .inl ?_, .inl ?_⟩⟩
  all_goals decide

-- A PIN of 32 bytes does not arrive.
theorem statusData_pin_not_agrees : ¬∀ sent : Sent, sent.Valid → sent.Agrees := by
  intro h
  have agrees := h (.statusData .enterPin (List.replicate 32 49) 0 .pin) (by unfold Sent.Valid; decide)
  obtain ⟨f, hf, agrees⟩ := agrees
  cases hf
  obtain ⟨bytes, hp, hr⟩ := agrees.2
  have written : bytes = 0xda :: putU16 32 ++ List.replicate 32 49 := (Option.some_inj.mp hp).symm
  have read := hr []
  rw [written] at read
  exact absurd read (by decide)

end Messages

end Deneb.Msgpack
