import DenebModel.Wire.Theorems.CommandFormat

-- A field is found by its quoted name alone. The quotes of a text cut it into segments, and the name
-- is found at the first segment between two quotes that is equal to it.
namespace Deneb.Json

open CString

-- The text behind the first occurrence of the quoted name.
def find (key text : CString) : Option CString :=
  (strstr text (34 :: key ++ [34])).map (·.drop (key.length + 2))

-- The same, when the byte in front of the text is a quote.
def seek (key text : CString) : Option CString :=
  if (key ++ [34]) <+: text then some (text.drop (key.length + 1)) else find key text

theorem strstr_cons {c : UInt8} {s p : CString} :
    strstr (c :: s) p = if p <+: c :: s then some (c :: s) else strstr s p := by
  simp only [strstr, startsWith, List.isPrefixOf_iff_prefix]

theorem find_quote {key text : CString} : find key (34 :: text) = seek key text := by
  have h : 34 :: key ++ [34] <+: 34 :: text ↔ key ++ [34] <+: text := by
    rw [List.cons_append, List.cons_prefix_cons]
    simp
  simp only [find, seek, strstr_cons, h]
  split_ifs <;> rfl

theorem find_skip {key text : CString} {c : UInt8} (h : c ≠ 34) :
    find key (c :: text) = find key text := by
  have hp : ¬ 34 :: key ++ [34] <+: c :: text := by
    rw [List.cons_append, List.cons_prefix_cons]
    exact fun hp => h hp.left.symm
  rw [find, strstr_cons, if_neg hp, find]

theorem find_append {key s text : CString} (h : 34 ∉ s) : find key (s ++ text) = find key text := by
  induction s
  case nil => rfl
  case cons c s hi =>
    simp only [List.mem_cons, not_or] at h
    rw [List.cons_append, find_skip (Ne.symm h.left), hi h.right]

theorem find_nil {key : CString} : find key [] = none := rfl

theorem find_cons {key text : CString} {c : UInt8} :
    find key (c :: text) =
      if 34 :: key ++ [34] <+: c :: text then some ((c :: text).drop (key.length + 2))
      else find key text := by
  rw [find, strstr_cons]
  split_ifs <;> rfl

theorem find_start {key text : CString} : find key (34 :: key ++ [34] ++ text) = some text := by
  have hp : 34 :: key ++ [34] <+: 34 :: (key ++ [34] ++ text) := ⟨text, rfl⟩
  rw [List.cons_append, List.cons_append, find_cons, if_pos hp]
  simp

theorem find_of_short {key text : CString} (h : text.length < key.length + 2) :
    find key text = none := by
  induction text
  case nil => rfl
  case cons c text hi =>
    have hp : ¬ 34 :: key ++ [34] <+: c :: text := by
      intro hp
      have hle := hp.length_le
      simp only [List.length_append, List.length_cons, List.length_nil] at hle h
      omega
    rw [find_cons, if_neg hp, hi (by simp only [List.length_cons] at h; omega)]

-- A text that is cut off somewhere.
theorem find_take_of_none {key text : CString} (h : find key text = none) (cut : Nat) :
    find key (text.take cut) = none := by
  induction text generalizing cut
  case nil => rw [List.take_nil, find_nil]
  case cons c text hi =>
    rw [find_cons] at h
    split_ifs at h with hp
    cases cut
    case zero => rfl
    case succ cut =>
      have hp' : ¬ 34 :: key ++ [34] <+: c :: text.take cut := fun h =>
        hp (h.trans (List.take_prefix (cut + 1) (c :: text)))
      rw [List.take_succ_cons, find_cons, if_neg hp', hi h]

theorem find_take {key text rest : CString} (h : find key text = some rest) :
    ∃ front, text = front ++ rest ∧ ∀ cut, find key (text.take cut) =
      if front.length ≤ cut then some (rest.take (cut - front.length)) else none := by
  induction text
  case nil => contradiction
  case cons c text hi =>
    rw [find_cons] at h
    split_ifs at h with hp
    · injection h with h
      obtain ⟨w, hw⟩ := hp
      have hlen : (34 :: key ++ [34]).length = key.length + 2 := by simp
      have hrest : rest = w := by
        rw [← h, ← hw, ← hlen, List.drop_left]
      refine ⟨34 :: key ++ [34], by rw [hrest, hw], fun cut => ?_⟩
      rw [hlen, ← hw, hrest]
      split_ifs with hcut
      · have ht : (34 :: key ++ [34] ++ w).take cut =
            34 :: key ++ [34] ++ w.take (cut - (key.length + 2)) := by
          rw [List.take_append, List.take_of_length_le (by omega), hlen]
        rw [ht, find_start]
      · exact find_of_short (by rw [List.length_take]; omega)
    · obtain ⟨front, rfl, hcut⟩ := hi h
      refine ⟨c :: front, rfl, fun cut => ?_⟩
      cases cut
      case zero => rfl
      case succ cut =>
        have hp' : ¬ 34 :: key ++ [34] <+: c :: (front ++ rest).take cut := fun h =>
          hp (h.trans (List.take_prefix (cut + 1) (c :: (front ++ rest))))
        rw [List.take_succ_cons, find_cons, if_neg hp', hcut]
        simp only [List.length_cons, Nat.add_le_add_iff_right, Nat.add_sub_add_right]

theorem seek_segment {key s text : CString} (hkey : 34 ∉ key) (h : 34 ∉ s) :
    seek key (s ++ 34 :: text) = if s = key then some text else seek key text := by
  by_cases hs : s = key
  · subst hs
    have hp : s ++ [34] <+: s ++ 34 :: text := ⟨text, by simp⟩
    rw [seek, if_pos hp, if_pos rfl, List.drop_append]
    simp
  · have hp : ¬ key ++ [34] <+: s ++ 34 :: text := by
      rintro ⟨w, hw⟩
      rw [List.append_assoc] at hw
      exact hs (first_quote hkey h hw).left.symm
    rw [seek, if_neg hp, if_neg hs, find_append h, find_quote]

theorem seek_of_head {key text : CString} {c : UInt8} (h : c ∉ key) (hc : c ≠ 34) :
    seek key (c :: text) = find key (c :: text) := by
  rw [seek, if_neg]
  intro hp
  rcases key with _ | ⟨d, key⟩
  · exact hc (List.cons_prefix_cons.mp hp).left.symm
  · exact h ((List.cons_prefix_cons.mp hp).left ▸ List.mem_cons_self)

-- Whether a value is taken for the name: it is equal to it, or ends with a quote and the name.
def hides (value key : CString) : Bool :=
  (34 :: key).isSuffixOf (34 :: value)

theorem hides_iff {value key : CString} : hides value key ↔ 34 :: key <:+ 34 :: value :=
  List.isSuffixOf_iff_suffix

theorem hides_of_notMem {value key : CString} (h : 34 ∉ value) :
    hides value key ↔ value = key := by
  rw [hides_iff]
  refine ⟨fun hs => ?_, fun he => he ▸ List.suffix_refl _⟩
  rcases List.suffix_cons_iff.mp hs with heq | hs
  · exact (List.cons.inj heq).right.symm
  · exact absurd (hs.subset List.mem_cons_self) h

theorem hides_split {u v key : CString} (hkey : 34 ∉ key) :
    hides (u ++ 34 :: v) key ↔ hides v key := by
  rw [hides_iff, hides_iff, ← List.cons_append]
  refine ⟨fun hs => ?_, fun hs => hs.trans (List.suffix_append _ _)⟩
  rcases List.suffix_or_suffix_of_suffix hs (List.suffix_append (34 :: u) (34 :: v)) with hs | hs
  · exact hs
  · rcases List.suffix_cons_iff.mp hs with heq | hs
    · exact heq ▸ List.suffix_refl _
    · exact absurd (hs.subset List.mem_cons_self) hkey

-- A name of a field.
structure IsName (key : CString) : Prop where
  no_quote     : 34 ∉ key
  no_backslash : 92 ∉ key
  no_comma     : 44 ∉ key
  no_colon     : 58 ∉ key

instance (key : CString) : Decidable (IsName key) :=
  decidable_of_iff (34 ∉ key ∧ 92 ∉ key ∧ 44 ∉ key ∧ 58 ∉ key)
    ⟨fun ⟨h₁, h₂, h₃, h₄⟩ => ⟨h₁, h₂, h₃, h₄⟩, fun ⟨h₁, h₂, h₃, h₄⟩ => ⟨h₁, h₂, h₃, h₄⟩⟩

theorem escape_eq_name {s key : CString} (hp : Visible s) (hkey : IsName key) :
    escape s = key ↔ s = key := by
  by_cases h : Plain s
  · rw [h.escape_eq hp]
  · simp only [Plain, not_forall] at h
    obtain ⟨c, hc, hs⟩ := h
    have hs' : c = 34 ∨ c = 92 := by
      by_contra hn
      exact hs (not_or.mp hn)
    constructor
    · rintro rfl
      have hb : 92 ∈ escape s := List.mem_flatMap.mpr ⟨c, hc, by simp [escapeByte_special hs']⟩
      exact absurd hb hkey.no_backslash
    · rintro rfl
      rcases hs' with rfl | rfl
      · exact absurd hc hkey.no_quote
      · exact absurd hc hkey.no_backslash

-- By induction on the quotes of the value: the segments in front of them end with a backslash.
theorem seek_escape {key s text : CString} (hp : Visible s) (hkey : IsName key) :
    seek key (escape s ++ 34 :: text) = if hides s key then some text else seek key text := by
  induction hn : s.length using Nat.strongRecOn generalizing s
  case ind n hi =>
    by_cases hq : 34 ∈ s
    · obtain ⟨u, v, rfl, hu⟩ := List.eq_append_cons_of_mem hq
      have hne : escape u ++ [92] ≠ key := by
        rintro rfl
        exact hkey.no_backslash (by simp)
      have hlt : v.length < n := by
        rw [← hn, List.length_append, List.length_cons]
        omega
      rw [escape_split, List.append_assoc (_ ++ _), List.cons_append,
        seek_segment hkey.no_quote (quote_notMem_escape_snoc hu), if_neg hne,
        hi _ hlt hp.suffix.tail rfl]
      simp only [hides_split hkey.no_quote]
    · rw [seek_segment hkey.no_quote (quote_mem_escape.not.mpr hq)]
      simp only [escape_eq_name hp hkey, hides_of_notMem hq]

-- A value of an object: a quoted text, or something that stands there as it is.
inductive Value
  | text (s : CString)
  | bare (s : CString)
  deriving DecidableEq

def Value.render : Value → CString
  | text s => 34 :: escape s ++ [34]
  | bare s => s

def Value.hides : Value → CString → Bool
  | text s, key => Json.hides s key
  | bare _, _   => false

inductive Value.IsValid : Value → Prop
  | text {s : CString} : Visible s → IsValid (text s)
  | bare {s : CString} : 34 ∉ s → IsValid (bare s)

abbrev Member := CString × Value

def Member.render : Member → CString
  | (key, value) => 44 :: 34 :: key ++ 34 :: 58 :: value.render

-- The members of an object, each with the comma in front of it, up to the closing brace.
def members (ms : List Member) : CString :=
  ms.flatMap Member.render ++ [125]

@[simp] theorem members_nil : members [] = [125] := rfl

theorem members_cons {key : CString} {value : Value} {ms : List Member} :
    members ((key, value) :: ms) = 44 :: 34 :: key ++ 34 :: 58 :: (value.render ++ members ms) := by
  simp [members, Member.render]

structure Member.IsValid (m : Member) : Prop where
  name  : IsName m.1
  value : m.2.IsValid

theorem seek_members {key : CString} {ms : List Member} (hkey : IsName key) :
    seek key (members ms) = find key (members ms) := by
  rcases ms with _ | ⟨⟨name, value⟩, ms⟩
  · rw [seek, if_neg]
    intro hp
    exact absurd (hp.subset (List.mem_append_right key List.mem_cons_self)) (by decide)
  · rw [members_cons, List.cons_append]
    exact seek_of_head hkey.no_comma (by decide)

theorem find_members_cons {key name : CString} {value : Value} {ms : List Member}
    (hkey : IsName key) (hm : Member.IsValid (name, value)) :
    find key (members ((name, value) :: ms)) =
      if name = key then some (58 :: (value.render ++ members ms))
      else if value.hides key then some (members ms)
      else find key (members ms) := by
  rw [members_cons, List.cons_append, List.cons_append, find_skip (by decide), find_quote,
    seek_segment hkey.no_quote hm.name.no_quote]
  split_ifs with hn hh <;> try rfl
  all_goals
    rw [seek_of_head hkey.no_colon (by decide), find_skip (by decide)]
    obtain ⟨-, hv⟩ := hm
    cases hv
  case pos.text s hs =>
    rw [Value.render, List.cons_append, List.cons_append, List.append_assoc, find_quote,
      List.cons_append, List.nil_append, seek_escape hs hkey]
    exact if_pos hh
  case pos.bare => contradiction
  case neg.text s hs =>
    rw [Value.render, List.cons_append, List.cons_append, List.append_assoc, find_quote,
      List.cons_append, List.nil_append, seek_escape hs hkey, seek_members hkey]
    exact if_neg hh
  case neg.bare s hs => rw [Value.render, find_append hs]

-- Behind what is taken for a name in a value there is no value to read.
theorem readValue_members {ms : List Member} {cut size : Nat} :
    readValue ((members ms).take cut) size = (0, []) := by
  have hcomma : isSpace 44 = false ∧ isBare 44 = false := by decide
  have hbrace : isSpace 125 = false ∧ isBare 125 = false := by decide
  rcases cut with _ | cut
  · simp [readValue]
  · rcases ms with _ | ⟨⟨name, value⟩, ms⟩
    · simp [readValue, hbrace]
    · simp [members_cons, readValue, hcomma]

theorem find_members_absent {key : CString} {ms : List Member} (hkey : IsName key)
    (hms : ∀ m ∈ ms, m.IsValid) (h : ∀ m ∈ ms, m.1 ≠ key) :
    find key (members ms) = none ∨ ∃ rest, find key (members ms) = some (members rest) := by
  induction ms
  case nil => exact .inl rfl
  case cons m ms hi =>
    obtain ⟨name, value⟩ := m
    rw [find_members_cons hkey (hms _ List.mem_cons_self), if_neg (h _ List.mem_cons_self)]
    split_ifs
    · exact .inr ⟨ms, rfl⟩
    · exact hi (fun m hm => hms m (.tail _ hm)) (fun m hm => h m (.tail _ hm))

theorem find_members_hidden {key : CString} {front back : List Member} (hkey : IsName key)
    (hms : ∀ m ∈ front, m.IsValid) (h : ∀ m ∈ front, m.1 ≠ key)
    (hh : ∃ m ∈ front, m.2.hides key) :
    ∃ rest, find key (members (front ++ back)) = some (members rest) := by
  induction front
  case nil => simp at hh
  case cons m ms hi =>
    obtain ⟨name, value⟩ := m
    rw [List.cons_append, find_members_cons hkey (hms _ List.mem_cons_self),
      if_neg (h _ List.mem_cons_self)]
    split_ifs with hv
    · exact ⟨ms ++ back, rfl⟩
    · refine hi (fun m hm => hms m (.tail _ hm)) (fun m hm => h m (.tail _ hm)) ?_
      obtain ⟨m, hm, hmv⟩ := hh
      rcases List.mem_cons.mp hm with rfl | hm
      · exact absurd hmv hv
      · exact ⟨m, hm, hmv⟩

theorem find_members {key : CString} {value : Value} {front back : List Member} (hkey : IsName key)
    (hms : ∀ m ∈ front, m.IsValid) (hv : value.IsValid) (h : ∀ m ∈ front, m.1 ≠ key)
    (hh : ∀ m ∈ front, m.2.hides key = false) :
    find key (members (front ++ (key, value) :: back)) =
      some (58 :: (value.render ++ members back)) := by
  induction front
  case nil => rw [List.nil_append, find_members_cons hkey ⟨hkey, hv⟩, if_pos rfl]
  case cons m ms hi =>
    obtain ⟨name, v⟩ := m
    rw [List.cons_append, find_members_cons hkey (hms _ List.mem_cons_self),
      if_neg (h _ List.mem_cons_self), hh _ List.mem_cons_self]
    exact hi (fun m hm => hms m (.tail _ hm)) (fun m hm => h m (.tail _ hm))
      fun m hm => hh m (.tail _ hm)

@[simp] theorem stringLoop_nil {room : Nat} : stringLoop room [] = ([], []) := by
  cases room <;> rfl

-- The bytes of a quoted value, up to where the text is cut off.
theorem stringLoop_escape {s text : CString} {room : Nat} (hp : Visible s)
    (hr : s.length ≤ room) :
    stringLoop room (escape s ++ text) =
      ((s ++ (stringLoop (room - s.length) text).1), (stringLoop (room - s.length) text).2) := by
  induction s generalizing room
  case nil => simp
  case cons c s hi =>
    obtain ⟨room, rfl⟩ : ∃ r, room = r + 1 := ⟨room - 1, by simp only [List.length_cons] at hr; omega⟩
    have hs := @hi room hp.tail (by simpa using hr)
    by_cases hc : c = 34 ∨ c = 92
    · rw [escape_cons, escapeByte_special hc]
      simp [stringLoop, hs]
    · simp only [not_or] at hc
      rw [escape_cons, escapeByte_plain hc.left hc.right hp.head]
      simp [stringLoop, hs, hc]

-- How many of its last bytes a quoted value can lose: of two backslashes one is enough.
def spare (s : CString) : Nat :=
  if s.getLast? = some 92 then 1 else 0

theorem spare_cons {c : UInt8} {s : CString} (h : s ≠ []) : spare (c :: s) = spare s := by
  obtain ⟨d, s, rfl⟩ := List.exists_cons_of_ne_nil h
  rw [spare, spare, List.getLast?_cons_cons]

theorem spare_le {s : CString} : spare s ≤ 1 := by
  unfold spare
  split_ifs <;> decide

theorem zero_one_or (n : Nat) : n = 0 ∨ n = 1 ∨ ∃ k, n = k + 2 := by
  cases n
  case zero => exact .inl rfl
  case succ n =>
    cases n
    case zero   => exact .inr (.inl rfl)
    case succ n => exact .inr (.inr ⟨n, rfl⟩)

theorem stringLoop_escape_take {s : CString} {room cut : Nat} (hp : Visible s)
    (hr : s.length ≤ room) :
    (stringLoop room ((escape s).take cut)).1 = s ↔ (escape s).length ≤ cut + spare s := by
  induction s generalizing room cut
  case nil => simp
  case cons c s hi =>
    obtain ⟨room, rfl⟩ : ∃ r, room = r + 1 := ⟨room - 1, by simp only [List.length_cons] at hr; omega⟩
    have hs := fun cut => @hi room cut hp.tail (by simpa using hr)
    have hle := @spare_le s
    have hlen := length_le_length_escape hp.tail
    -- The rest of the value decides once a byte of it is kept.
    have hrest : ∀ cut k, (escape s).length ≤ cut + spare s ↔
        (escape s).length + k ≤ cut + k + spare (c :: s) := by
      intro cut k
      by_cases hnil : s = []
      · simp [hnil]
        omega
      · rw [spare_cons hnil]
        omega
    by_cases hc : c = 34 ∨ c = 92
    · rw [escape_cons, escapeByte_special hc]
      obtain rfl | rfl | ⟨cut, rfl⟩ := zero_one_or cut
      case inl =>
        have := @spare_le (c :: s)
        simp [stringLoop]
        omega
      case inr.inl =>
        by_cases hnil : s = []
        · rcases hc with rfl | rfl <;> simp [stringLoop, hnil, spare]
        · have hpos := List.length_pos_iff.mpr hnil
          have := @spare_le (c :: s)
          simp [stringLoop, Ne.symm hnil]
          omega
      case inr.inr =>
        have h := hrest cut 2
        simp [stringLoop, hs]
        omega
    · simp only [not_or] at hc
      rw [escape_cons, escapeByte_plain hc.left hc.right hp.head]
      cases cut
      case zero =>
        by_cases hnil : s = []
        · simp [hnil, spare, hc]
        · have hpos := List.length_pos_iff.mpr hnil
          have := @spare_le (c :: s)
          simp
          omega
      case succ cut =>
        have h := hrest cut 1
        simp [stringLoop, hs, hc]
        omega

theorem stringLoop_escape_take_rest {s : CString} {room cut : Nat} (hp : Visible s)
    (hr : s.length ≤ room) : (stringLoop room ((escape s).take cut)).2 = [] := by
  induction s generalizing room cut
  case nil => simp
  case cons c s hi =>
    obtain ⟨room, rfl⟩ : ∃ r, room = r + 1 := ⟨room - 1, by simp only [List.length_cons] at hr; omega⟩
    have hs := fun cut => @hi room cut hp.tail (by simpa using hr)
    by_cases hc : c = 34 ∨ c = 92
    · rw [escape_cons, escapeByte_special hc]
      match cut with
      | 0       => simp
      | 1       => simp [stringLoop]
      | cut + 2 => simp [stringLoop, hs]
    · simp only [not_or] at hc
      rw [escape_cons, escapeByte_plain hc.left hc.right hp.head]
      match cut with
      | 0       => simp
      | cut + 1 => simp [stringLoop, hs, hc]

-- The text of an object of which `cut` bytes are left.
def object (ms : List Member) : CString :=
  123 :: (members ms).drop 1

theorem find_object {key : CString} {ms : List Member} {cut : Nat} :
    find key ((object ms).take cut) = find key ((members ms).take cut) := by
  rcases cut with _ | cut
  · rfl
  · rcases ms with _ | ⟨⟨name, value⟩, ms⟩
    · rw [object, members_nil, List.take_succ_cons, List.take_succ_cons, find_skip (by decide),
        find_skip (by decide)]
      rfl
    · rw [object, members_cons, List.take_succ_cons, find_skip (by decide), List.cons_append,
        List.take_succ_cons, find_skip (by decide)]
      rfl

theorem getValue_eq {json key : CString} {size : Nat} (h : key.length < 126) :
    getValue json key size =
      match find key json with
      | none   => (-1, [])
      | some p => readValue p size := by
  have hq : quoted key = 34 :: key ++ [34] := fit_of_length_lt (by simp; omega)
  rw [getValue, hq, find]
  cases strstr json (34 :: key ++ [34])
  case none => rfl
  case some p => simp

section

variable {key : CString} {cut size : Nat} (hkey : IsName key) (hlen : key.length < 126)

include hlen in
theorem getValue_nothing {ms : List Member}
    (h : find key (members ms) = none ∨ ∃ rest, find key (members ms) = some (members rest)) :
    (getValue ((object ms).take cut) key size).2 = [] := by
  rw [getValue_eq hlen, find_object]
  rcases h with hn | ⟨rest, hr⟩
  · rw [find_take_of_none hn]
  · obtain ⟨front, -, hcut⟩ := find_take hr
    rw [hcut]
    split_ifs
    · exact congrArg Prod.snd readValue_members
    · rfl

include hkey hlen in
-- A field that is not there has no value, even if a value is taken for its name.
theorem getValue_absent {ms : List Member} (hms : ∀ m ∈ ms, m.IsValid)
    (h : ∀ m ∈ ms, m.1 ≠ key) : (getValue ((object ms).take cut) key size).2 = [] :=
  getValue_nothing hlen (find_members_absent hkey hms h)

variable {front back : List Member} (hms : ∀ m ∈ front, m.IsValid) (hne : ∀ m ∈ front, m.1 ≠ key)

include hkey hlen hms hne in
theorem getValue_hidden {value : Value} (hh : ∃ m ∈ front, m.2.hides key) :
    (getValue ((object (front ++ (key, value) :: back)).take cut) key size).2 = [] :=
  getValue_nothing hlen (.inr (find_members_hidden hkey hms hne hh))

-- Where the value of a field begins: behind its name.
def valueAt (front : List Member) (key : CString) : Nat :=
  (front.flatMap Member.render).length + key.length + 3

include hkey hlen hms hne in
theorem getValue_member {value : Value} (hv : value.IsValid)
    (hh : ∀ m ∈ front, m.2.hides key = false) :
    getValue ((object (front ++ (key, value) :: back)).take cut) key size =
      if valueAt front key ≤ cut then
        readValue ((58 :: (value.render ++ members back)).take (cut - valueAt front key)) size
      else (-1, []) := by
  obtain ⟨f, hf, hcut⟩ := find_take (@find_members key value front back hkey hms hv hne hh)
  have hsplit : members (front ++ (key, value) :: back) =
      (front.flatMap Member.render ++ 44 :: 34 :: key ++ [34]) ++
        58 :: (value.render ++ members back) := by
    simp [members, Member.render]
  have hfl : f.length = valueAt front key := by
    rw [List.append_cancel_right (hf.symm.trans hsplit)]
    simp [valueAt]
    omega
  rw [getValue_eq hlen, find_object, hcut, hfl]
  split_ifs <;> rfl

end

theorem readValue_text {s text : CString} {cut size : Nat} (hs : s ≠ []) (hp : Visible s)
    (hl : s.length < size) :
    (readValue ((58 :: 34 :: (escape s ++ 34 :: text)).take cut) size).2 = s ↔
      (escape s).length + 2 ≤ cut + spare s := by
  have hpos := List.length_pos_iff.mpr hs
  have hle := length_le_length_escape hp
  have hspare := @spare_le s
  obtain rfl | rfl | ⟨cut, rfl⟩ := zero_one_or cut
  case inl =>
    simp [readValue, Ne.symm hs]
    omega
  case inr.inl =>
    simp [readValue, Ne.symm hs]
    omega
  case inr.inr =>
    have hr : readValue ((58 :: 34 :: (escape s ++ 34 :: text)).take (cut + 2)) size =
        let p := stringLoop (size - 1) ((escape s ++ 34 :: text).take cut)
        (if p.2.head? = some 34 then 0 else -1, p.1) := rfl
    rw [hr]
    by_cases hcut : cut ≤ (escape s).length
    · rw [List.take_append_of_le_length hcut]
      refine (stringLoop_escape_take hp (by omega)).trans ?_
      omega
    · rw [List.take_append, List.take_of_length_le (by omega), stringLoop_escape hp (by omega)]
      obtain ⟨k, hk⟩ : ∃ k, cut - (escape s).length = k + 1 := ⟨cut - (escape s).length - 1, by omega⟩
      have hq : ∀ room text, (stringLoop room (34 :: text)).1 = [] := by
        intro room text
        cases room <;> rfl
      simp [hk, hq]
      omega

theorem readValue_text_closed {s text : CString} {cut size : Nat} (hp : Visible s)
    (hl : s.length < size) (hcut : (escape s).length + 3 ≤ cut) :
    readValue ((58 :: 34 :: (escape s ++ 34 :: text)).take cut) size = (0, s) := by
  obtain ⟨k, rfl⟩ := Nat.exists_eq_add_of_le hcut
  have hk : (escape s).length + 3 + k = ((escape s).length + (k + 1)) + 2 := by omega
  have hr : ∀ c, readValue ((58 :: 34 :: (escape s ++ 34 :: text)).take (c + 2)) size =
      let p := stringLoop (size - 1) ((escape s ++ 34 :: text).take c)
      (if p.2.head? = some 34 then 0 else -1, p.1) := fun _ => rfl
  have hq : ∀ room text, stringLoop room (34 :: text) = ([], 34 :: text) := by
    intro room text
    cases room <;> rfl
  rw [hk, hr, List.take_length_add_append, List.take_succ_cons, stringLoop_escape hp (by omega)]
  simp [hq]

theorem readValue_text_open {s text : CString} {cut size : Nat} (hp : Visible s)
    (hl : s.length < size) (hcut : cut ≤ (escape s).length) :
    (readValue ((58 :: 34 :: (escape s ++ 34 :: text)).take (cut + 2)) size).1 = -1 := by
  have hr : readValue ((58 :: 34 :: (escape s ++ 34 :: text)).take (cut + 2)) size =
      let p := stringLoop (size - 1) ((escape s ++ 34 :: text).take cut)
      (if p.2.head? = some 34 then 0 else -1, p.1) := rfl
  rw [hr, List.take_append_of_le_length hcut]
  have hrest := @stringLoop_escape_take_rest s (size - 1) cut hp (by omega)
  simp [hrest]

-- A value that stands without quotes, such as a number.
def IsToken (s : CString) : Prop :=
  ∀ c ∈ s, isBare c ∧ c ≠ 58 ∧ c ≠ 34

theorem members_head {ms : List Member} : (members ms).head? = some 44 ∨ (members ms).head? = some 125 := by
  rcases ms with _ | ⟨⟨name, value⟩, ms⟩
  · exact .inr rfl
  · rw [members_cons]
    exact .inl rfl

theorem takeWhile_members {ms : List Member} {cut : Nat} :
    ((members ms).take cut).takeWhile isBare = [] := by
  have hcomma : isBare 44 = false := by decide
  have hbrace : isBare 125 = false := by decide
  rcases cut with _ | cut
  · rfl
  · rcases h : members ms with _ | ⟨c, text⟩
    · rfl
    · have hc := @members_head ms
      rw [h, List.head?_cons, Option.some.injEq, Option.some.injEq] at hc
      rcases hc with rfl | rfl <;> simp [hcomma, hbrace]

theorem readValue_bare {s : CString} {ms : List Member} {cut size : Nat} (h : IsToken s)
    (hl : s.length < size) :
    readValue ((58 :: (s ++ members ms)).take cut) size = (0, s.take (cut - 1)) := by
  rcases cut with _ | cut
  · simp [readValue]
  have hbare : ((s ++ members ms).take cut).takeWhile isBare = s.take cut := by
    rw [List.take_append, List.takeWhile_append_of_pos, takeWhile_members, List.append_nil]
    exact fun c hc => (h c (List.mem_of_mem_take hc)).left
  -- The text behind the colon begins with the value, or with what follows an empty one.
  have hhead : ∀ c ∈ ((s ++ members ms).take cut).head?,
      (isSpace c || c == 58) = false ∧ c ≠ 34 := by
    intro c hc
    rcases cut with _ | cut
    · contradiction
    · rcases s with _ | ⟨d, s⟩
      · rcases hm : members ms with _ | ⟨d, text⟩
        · simp [hm] at hc
        · have hd := @members_head ms
          simp only [hm, List.nil_append, List.take_succ_cons, List.head?_cons, Option.mem_def,
            Option.some.injEq] at hc hd
          subst hc
          rcases hd with rfl | rfl <;> decide
      · simp only [List.cons_append, List.take_succ_cons, List.head?_cons, Option.mem_def,
          Option.some.injEq] at hc
        subst hc
        have hd := h d List.mem_cons_self
        simp_all [isBare]
  have hcolon : (isSpace 58 || (58 : UInt8) == 58) = true := by decide
  rw [readValue, List.take_succ_cons, List.dropWhile_cons, hcolon, if_pos rfl]
  rcases ht : (s ++ members ms).take cut with _ | ⟨c, text⟩
  · rw [ht] at hbare
    simp [← hbare]
  · have hc := hhead c (by rw [ht]; rfl)
    have hlen : (s.take cut).length ≤ size - 1 := by
      rw [List.length_take]
      omega
    have hdrop : (c :: text).dropWhile (fun c => isSpace c || c == 58) = c :: text := by
      rw [List.dropWhile_cons, hc.left]
      rfl
    rw [hdrop]
    dsimp only
    split
    · simp_all
    · rw [← ht, hbare, List.take_of_length_le hlen, Nat.add_sub_cancel]

-- A text in general is a sequence of quoted tokens, each behind some text without quotes: names that
-- need no escape, and escaped values.
inductive Token
  | name (s : CString)
  | value (s : CString)
  deriving DecidableEq

def Token.render : Token → CString
  | name s  => s
  | value s => escape s

-- Whether a token is taken for a name.
def Token.hides : Token → CString → Bool
  | name s, key  => s = key
  | value s, key => Json.hides s key

def tokens : List (CString × Token) → CString → CString
  | [], tail               => tail
  | (glue, token) :: ts, tail => glue ++ 34 :: token.render ++ 34 :: tokens ts tail

theorem tokens_append {ts us : List (CString × Token)} {tail : CString} :
    tokens (ts ++ us) tail = tokens ts (tokens us tail) := by
  induction ts
  case nil           => rfl
  case cons t ts hi => simp [tokens, hi]

-- The text in front of a token, which is never taken for a name.
structure IsGlue (key glue : CString) : Prop where
  no_quote : 34 ∉ glue
  head     : ∃ c ∈ glue.head?, c ∉ key

inductive Token.IsValid : Token → Prop
  | name {s : CString} : 34 ∉ s → IsValid (name s)
  | value {s : CString} : Visible s → IsValid (value s)

structure IsTokens (key : CString) (ts : List (CString × Token)) : Prop where
  glue  : ∀ t ∈ ts, IsGlue key t.1
  valid : ∀ t ∈ ts, t.2.IsValid

theorem IsTokens.tail {key : CString} {t : CString × Token} {ts : List (CString × Token)}
    (h : IsTokens key (t :: ts)) : IsTokens key ts :=
  ⟨fun u hu => h.glue u (.tail _ hu), fun u hu => h.valid u (.tail _ hu)⟩

section

variable {key tail : CString} {ts : List (CString × Token)} (hkey : IsName key)

theorem seek_glue {glue text : CString} (h : IsGlue key glue) :
    seek key (glue ++ 34 :: text) = seek key text := by
  obtain ⟨c, hc, hk⟩ := h.head
  obtain ⟨d, glue, rfl⟩ : ∃ d g, glue = d :: g := by
    cases glue
    case nil  => contradiction
    case cons => exact ⟨_, _, rfl⟩
  simp only [List.head?_cons, Option.mem_def, Option.some.injEq] at hc
  subst hc
  have hd : d ≠ 34 := fun he => h.no_quote (he ▸ List.mem_cons_self)
  rw [List.cons_append, seek_of_head hk hd, ← List.cons_append, find_append h.no_quote, find_quote]

include hkey in
theorem seek_token {token : Token} {text : CString} (h : token.IsValid) :
    seek key (token.render ++ 34 :: text) =
      if token.hides key then some text else seek key text := by
  cases h
  case name s hs =>
    rw [Token.render, seek_segment hkey.no_quote hs]
    simp [Token.hides]
  case value s hs => rw [Token.render, Token.hides, seek_escape hs hkey]

-- Behind the tokens in front of it, the first one that is taken for the name counts.
include hkey in
theorem seek_tokens_cons {glue : CString} {token : Token} (h : IsTokens key ((glue, token) :: ts)) :
    seek key (tokens ((glue, token) :: ts) tail) =
      if token.hides key then some (tokens ts tail) else seek key (tokens ts tail) := by
  rw [tokens, List.append_assoc, List.cons_append, seek_glue (h.glue _ List.mem_cons_self),
    seek_token hkey (h.valid _ List.mem_cons_self)]

include hkey in
theorem find_tokens_cons {glue : CString} {token : Token} (h : IsTokens key ((glue, token) :: ts)) :
    find key (tokens ((glue, token) :: ts) tail) =
      if token.hides key then some (tokens ts tail) else seek key (tokens ts tail) := by
  have hg := h.glue _ List.mem_cons_self
  rw [tokens, List.append_assoc, List.cons_append, find_append hg.no_quote, find_quote,
    seek_token hkey (h.valid _ List.mem_cons_self)]

-- The tokens behind the first one that is taken for a name.
def behind (key : CString) : List (CString × Token) → Option (List (CString × Token))
  | []      => none
  | t :: ts => if t.2.hides key then some ts else behind key ts

theorem behind_append {us : List (CString × Token)} :
    behind key (ts ++ us) = ((behind key ts).map (· ++ us)).or (behind key us) := by
  induction ts
  case nil => rfl
  case cons t ts hi =>
    rw [List.cons_append, behind, behind, hi]
    split_ifs <;> rfl

theorem behind_of_not_hides (h : ∀ t ∈ ts, t.2.hides key = false) : behind key ts = none := by
  induction ts
  case nil => rfl
  case cons t ts hi =>
    rw [behind, h t List.mem_cons_self]
    exact hi fun u hu => h u (.tail _ hu)

theorem behind_isSome : (behind key ts).isSome ↔ ∃ t ∈ ts, t.2.hides key := by
  induction ts
  case nil => simp [behind]
  case cons t ts hi =>
    rw [behind, List.exists_mem_cons_iff]
    split_ifs with h
    · simp [h]
    · simp [h, hi]

def names (ts : List (CString × Token)) : List CString :=
  ts.filterMap fun t => match t.2 with
    | .name s  => some s
    | .value _ => none

def values (ts : List (CString × Token)) : List CString :=
  ts.filterMap fun t => match t.2 with
    | .name _  => none
    | .value s => some s

theorem names_append {us : List (CString × Token)} : names (ts ++ us) = names ts ++ names us :=
  List.filterMap_append

theorem values_append {us : List (CString × Token)} : values (ts ++ us) = values ts ++ values us :=
  List.filterMap_append

theorem behind_isSome_iff :
    (behind key ts).isSome ↔ key ∈ names ts ∨ ∃ s ∈ values ts, hides s key := by
  rw [behind_isSome]
  induction ts
  case nil => simp [names, values]
  case cons t ts hi =>
    obtain ⟨glue, s | s⟩ := t
    · have hn : names ((glue, .name s) :: ts) = s :: names ts := rfl
      have hv : values ((glue, .name s) :: ts) = values ts := rfl
      rw [List.exists_mem_cons_iff, hi, hn, hv, List.mem_cons, or_assoc, Token.hides,
        decide_eq_true_eq, eq_comm]
    · have hn : names ((glue, .value s) :: ts) = names ts := rfl
      have hv : values ((glue, .value s) :: ts) = s :: values ts := rfl
      rw [List.exists_mem_cons_iff, hi, hn, hv, List.exists_mem_cons_iff, or_left_comm]
      rfl

include hkey in
theorem seek_tokens (h : IsTokens key ts) (ht : 34 ∉ tail) :
    seek key (tokens ts tail) = (behind key ts).map (tokens · tail) := by
  induction ts
  case nil =>
    rw [tokens, seek, if_neg]
    · have hf := @find_append key tail [] ht
      rw [List.append_nil] at hf
      exact hf
    · exact fun hp => ht (hp.subset (by simp))
  case cons t ts hi =>
    obtain ⟨glue, token⟩ := t
    rw [seek_tokens_cons hkey h, behind, hi h.tail]
    split_ifs <;> rfl

include hkey in
theorem find_tokens (h : IsTokens key ts) (ht : 34 ∉ tail) :
    find key (tokens ts tail) = (behind key ts).map (tokens · tail) := by
  rcases ts with _ | ⟨⟨glue, token⟩, ts⟩
  · have hf := @find_append key tail [] ht
    rw [List.append_nil] at hf
    exact hf
  · rw [find_tokens_cons hkey h, behind, seek_tokens hkey h.tail ht]
    split_ifs <;> rfl

end

-- A text at the end of a value: a comma, or the end of an object.
def IsEnd (text : CString) : Prop :=
  text.head? = some 44 ∨ text.head? = some 125

theorem readValue_end {text : CString} {size : Nat} (h : IsEnd text) :
    readValue text size = (0, []) := by
  have hcomma : isSpace 44 = false ∧ isBare 44 = false := by decide
  have hbrace : isSpace 125 = false ∧ isBare 125 = false := by decide
  rcases text with _ | ⟨c, text⟩
  · simp [IsEnd] at h
  · simp only [IsEnd, List.head?_cons, Option.some.injEq] at h
    rcases h with rfl | rfl
    · simp [readValue, hcomma]
    · simp [readValue, hbrace]

-- A value without quotes, in front of the end of it.
theorem readValue_token_take {s text : CString} {size : Nat} (h : IsToken s) (hs : s ≠ [])
    (ht : IsEnd text) : readValue (58 :: (s ++ text)) size = (0, s.take (size - 1)) := by
  obtain ⟨c, s, rfl⟩ := List.exists_cons_of_ne_nil hs
  have hc := h c List.mem_cons_self
  have hcolon : (isSpace 58 || (58 : UInt8) == 58) = true := by decide
  have hspace : (isSpace c || c == 58) = false := by
    have hb := hc.left
    simp only [isBare, Bool.and_eq_true, bne_iff_ne, Bool.not_eq_true'] at hb
    simp [hb, hc.right.left]
  have hbare : ((c :: s) ++ text).takeWhile isBare = c :: s := by
    have hend : text.takeWhile isBare = [] := by
      rcases text with _ | ⟨d, text⟩
      · rfl
      · simp only [IsEnd, List.head?_cons, Option.some.injEq] at ht
        have hcomma : isBare 44 = false := by decide
        have hbrace : isBare 125 = false := by decide
        rcases ht with rfl | rfl <;> simp [hcomma, hbrace]
    rw [List.takeWhile_append_of_pos fun d hd => (h d hd).left, hend, List.append_nil]
  rw [readValue, List.dropWhile_cons, hcolon, if_pos rfl, List.cons_append, List.dropWhile_cons,
    hspace, if_neg (by decide)]
  dsimp only
  split
  · simp_all
  · rw [← List.cons_append, hbare]

theorem readValue_token {s text : CString} {size : Nat} (h : IsToken s) (hs : s ≠ [])
    (ht : IsEnd text) (hl : s.length < size) : readValue (58 :: (s ++ text)) size = (0, s) := by
  rw [readValue_token_take h hs ht, List.take_of_length_le (by omega)]

-- Every value is followed by the end of it.
def Separated : List (CString × Token) → CString → Prop
  | [], _                     => True
  | (_, .name _) :: ts, tail  => Separated ts tail
  | (_, .value _) :: ts, tail => IsEnd (tokens ts tail) ∧ Separated ts tail

theorem Separated.append {ts us : List (CString × Token)} {tail : CString}
    (ht : Separated ts (tokens us tail)) (hu : Separated us tail) : Separated (ts ++ us) tail := by
  induction ts
  case nil => exact hu
  case cons t ts hi =>
    obtain ⟨glue, _ | _⟩ := t
    · exact hi ht
    · rw [List.cons_append, Separated, tokens_append]
      exact ⟨ht.left, hi ht.right⟩

theorem Separated.behind {key tail : CString} {ts rest : List (CString × Token)}
    (h : Separated ts tail) (hn : key ∉ names ts) (hb : Json.behind key ts = some rest) :
    IsEnd (tokens rest tail) := by
  induction ts
  case nil => contradiction
  case cons t ts hi =>
    obtain ⟨glue, s | s⟩ := t
    · have hc : names ((glue, .name s) :: ts) = s :: names ts := rfl
      rw [hc, List.mem_cons, not_or] at hn
      simp only [Json.behind, Token.hides, Ne.symm hn.left, decide_false, Bool.false_eq_true,
        if_false] at hb
      exact hi h hn.right hb
    · rw [Json.behind] at hb
      split_ifs at hb
      · injection hb with hb
        exact hb ▸ h.left
      · exact hi h.right hn hb

theorem readValue_value {s : CString} {ts : List (CString × Token)} {tail : CString} {size : Nat}
    (hp : Visible s) (hl : s.length < size) :
    readValue (tokens ((ofString ":", .value s) :: ts) tail) size = (0, s) := by
  have h := @readValue_text_closed s (tokens ts tail)
    (58 :: 34 :: (escape s ++ 34 :: tokens ts tail)).length size hp hl (by simp)
  rw [List.take_length] at h
  have ht : tokens ((ofString ":", .value s) :: ts) tail = 58 :: 34 :: (escape s ++ 34 :: tokens ts tail) := by
    simp only [tokens, Token.render, List.append_assoc, List.cons_append]
    rfl
  rw [ht, h]

theorem getValue_tokens {key tail : CString} {ts : List (CString × Token)} {size : Nat}
    (hkey : IsName key) (hl : key.length < 126) (h : IsTokens key ts) (ht : 34 ∉ tail) :
    getValue (tokens ts tail) key size =
      match behind key ts with
      | none    => (-1, [])
      | some us => readValue (tokens us tail) size := by
  rw [getValue_eq hl, find_tokens hkey h ht]
  cases behind key ts <;> rfl

-- Escaping into a buffer with room for two bytes in place of each.
theorem escapeString_eq {s : CString} {size : Nat} (h : 2 * s.length < size) :
    escapeString s size = escape s := by
  suffices ∀ room, 2 * s.length ≤ room → escapeLoop room s = escape s from this _ (by omega)
  clear h
  induction s
  case nil => exact fun room _ => by cases room <;> rfl
  case cons c s hi =>
    intro room hr
    rw [List.length_cons] at hr
    obtain ⟨room, rfl⟩ : ∃ r, room = r + 2 := ⟨room - 2, by omega⟩
    rw [escape_cons, escapeByte]
    simp only [escapeLoop, hi room (by omega), hi (room + 1) (by omega), hi (room + 2) (by omega)]
    split_ifs <;> rfl

-- The bytes that are not dropped.
def visible (s : CString) : CString :=
  s.filter (32 ≤ ·)

theorem visible_visible {s : CString} : Visible (visible s) :=
  fun c hc => by simpa using (List.mem_filter.mp hc).right

theorem escape_visible {s : CString} : escape (visible s) = escape s := by
  induction s
  case nil => rfl
  case cons c s hi =>
    by_cases hc : 32 ≤ c
    · have hv : visible (c :: s) = c :: visible s := List.filter_cons_of_pos (by simpa using hc)
      rw [hv, escape_cons, escape_cons, hi]
    · have hv : visible (c :: s) = visible s := List.filter_cons_of_neg (by simpa using hc)
      have hb : escapeByte c = [] := by
        have hq : c ≠ 34 := fun he => hc (he ▸ by decide)
        have hbs : c ≠ 92 := fun he => hc (he ▸ by decide)
        simp [escapeByte, hq, hbs, hc]
      rw [hv, escape_cons, hb, hi, List.nil_append]

theorem Visible.visible_eq {s : CString} (h : Visible s) : visible s = s :=
  List.filter_eq_self.mpr fun c hc => by simpa using h c hc

end Deneb.Json
