import DenebModel.Primitives.Theorems.JsonNumber
import DenebModel.Web.Theorems.JsonWriter

namespace Deneb.JsonWriter

open CString Scan JsonText BinaryFloat

-- A string without control bytes other than those that have a short escape.
def ClearText (s : CString) : Prop :=
  ∀ c ∈ s, 32 ≤ c ∨ c ∈ [9, 10, 13]

instance {s : CString} : Decidable (ClearText s) :=
  inferInstanceAs (Decidable (∀ c ∈ s, 32 ≤ c ∨ c ∈ [9, 10, 13]))

-- A number whose text fits into the buffer of the writer, or is cut directly in front of its point
-- and a zero behind it.
def FitsText (x : BinaryFloat) : Prop :=
  (x ≠ .nan ∧ ∀ negative, x ≠ .inf negative) ∧
  ((formatF 1 x).length ≤ 47 ∨ (formatF 1 x).length = 49 ∧ (formatF 1 x).getLast? = some 48)

namespace Written

-- The value that is written; `json_float` writes one decimal.
inductive Means : {k : Kind} → Written k → Value k → Prop
  | str (s) : Means (.str s) (.string s)
  | int (n) : Means (.int n) (.number n.toInt)
  | float (negative m e) :
    Means (.float (.fin negative m e)) (.number (signed negative (tenthsOf m e / 10)))
  | bool (b) : Means (.bool b) (.bool b)
  | null : Means .null .null
  | raw (t v valid) : Means (.raw t v valid) v
  | arr : Means es vs → Means (.arr es) (.array vs)
  | obj : Means ms vs → Means (.obj ms) (.object vs)
  | noElements : Means .noElements .noElements
  | element : Means x v → Means es vs → Means (.element x es) (.element v vs)
  | noMembers : Means .noMembers .noMembers
  | member (key) : Means x v → Means ms vs → Means (.member key x ms) (.member key v vs)

def Printable : {k : Kind} → Written k → Prop
  | _, str s           => ClearText s
  | _, float x         => FitsText x
  | _, arr es          => es.Printable
  | _, obj ms          => ms.Printable
  | _, element x es    => x.Printable ∧ es.Printable
  | _, member key x ms => ClearText key ∧ x.Printable ∧ ms.Printable
  | _, _               => True

end Written

section

variable {s t t₁ v e rest : CString} {c : UInt8}

theorem characters_escaped (h : 32 ≤ c ∨ c ∈ [9, 10, 13]) : Characters (escaped c) [c] := by
  unfold escaped
  split_ifs with hs hn hr ht
  case pos =>
    obtain rfl | rfl := hs
    · exact .escaped 34 34 (by decide) .nil
    · exact .escaped 92 92 (by decide) .nil
  case pos => exact hn ▸ .escaped 110 10 (by decide) .nil
  case pos => exact hr ▸ .escaped 114 13 (by decide) .nil
  case pos => exact ht ▸ .escaped 116 9 (by decide) .nil
  case neg =>
    obtain ⟨hq, hb⟩ := not_or.mp hs
    have hc : 32 ≤ c := h.resolve_right (by simp [hn, hr, ht])
    exact .plain c hc hq hb .nil

theorem characters_quote (h : ClearText s) : Characters (s.flatMap escaped) s := by
  induction s
  case nil => exact .nil
  case cons c s ih =>
    have rest := ih fun d hd => h d (.tail _ hd)
    exact (characters_escaped (h c (.head _))).append rest

theorem escaped_form :
    (escaped c = [c] ∧ c ≠ 34 ∧ c ≠ 92) ∨
    ((32 ≤ c ∨ c ∈ [9, 10, 13]) ∧ ∃ d, escaped c = [92, d] ∧ d ≠ 117) := by
  unfold escaped
  split_ifs with hs hn hr ht
  case pos => obtain rfl | rfl := hs <;> exact .inr ⟨.inl (by decide), _, rfl, by decide⟩
  case pos => exact .inr ⟨.inr (by simp [hn]), _, rfl, by decide⟩
  case pos => exact .inr ⟨.inr (by simp [hr]), _, rfl, by decide⟩
  case pos => exact .inr ⟨.inr (by simp [ht]), _, rfl, by decide⟩
  case neg => exact .inl ⟨rfl, not_or.mp hs⟩

-- By induction on the string: what is written for its bytes is a JSON string only if they are clear.
theorem characters_clear (h : Characters e v) (he : e ++ 34 :: t₁ = s.flatMap escaped ++ 34 :: rest) :
    ClearText s := by
  induction s generalizing e v
  case nil => exact List.forall_mem_nil _
  case cons c s ih =>
    rw [List.flatMap_cons, List.append_assoc] at he
    rcases @escaped_form c with ⟨hc, hq, hb⟩ | ⟨clear, d, hc, hd⟩
    case inl =>
      rw [hc, List.singleton_append] at he
      obtain _ | ⟨a, e⟩ := e
      case nil => exact absurd (List.cons.inj he).1.symm hq
      case cons =>
        simp only [List.cons_append, List.cons.injEq] at he
        obtain ⟨rfl, he⟩ := he
        cases h
        case plain h32 _ _ h => exact List.forall_mem_cons.mpr ⟨.inl h32, ih h he⟩
        case escaped         => exact absurd rfl hb
        case unicode         => exact absurd rfl hb
    case inr =>
      rw [hc] at he
      obtain _ | ⟨a, _ | ⟨b, e⟩⟩ := e
      case nil => cases he
      case cons.nil =>
        cases he
        exact absurd h not_characters_backslash
      case cons.cons =>
        simp only [List.cons_append, List.nil_append, List.cons.injEq] at he
        obtain ⟨rfl, rfl, he⟩ := he
        obtain ⟨w, h⟩ := h.of_escaped hd
        exact List.forall_mem_cons.mpr ⟨clear, ih h he⟩

-- Where the text of a string is read, it is the text that was written.
theorem quote_unique (h : Characters e v) (he : e ++ 34 :: t₁ = s.flatMap escaped ++ 34 :: rest) :
    ClearText s ∧ t₁ = rest := by
  have clear := characters_clear h he
  exact ⟨clear, (h.unique (characters_quote clear) he).2⟩

theorem integerText_eq {n : Int64} : integerText n = formatD n.toInt := by
  refine fit_of_length_lt ?_
  have hn := n.toInt_lt
  have hn' := n.le_toInt
  have digits : (digits n.toInt.natAbs).length ≤ 19 := by
    rw [BinaryFloat.digits, List.length_map, Nat.length_toDigits_le_iff (by decide) (by decide)]
    omega
  unfold formatD
  split
  case isTrue  => rw [List.length_cons]; omega
  case isFalse => omega

theorem bytes_comma {x : Written .value} : x.bytes true = 44 :: x.bytes false := by
  cases x <;> rfl

-- Nothing is read in front of elements and members, and the white space in front of a value.
def start : Kind → Bytes → Bytes
  | .value, t => skip t
  | _, t      => t

-- The text of a value, or of what is inside of an array or object, whatever follows it.
def Spelled {k : Kind} (x : Written k) (v : Value k) : Prop :=
  ∀ rest, ∃ e t₁, Spells e (start k (x.bytes false ++ rest)) t₁ ∧ skip t₁ = skip rest ∧ Denotes e v

theorem quote_append : quote s ++ rest = 34 :: (s.flatMap escaped ++ 34 :: rest) := by
  simp [quote]

theorem spelled_of {x : Written .value} {v : Value .value}
    (h : ∀ rest, ∃ e t₁, Spells e (x.bytes false ++ rest) t₁ ∧ skip t₁ = skip rest ∧ Denotes e v) :
    Spelled x v := by
  intro rest
  obtain ⟨e, t₁, hs, rest⟩ := h rest
  exact ⟨e, t₁, by rwa [start, hs.skip_eq], rest⟩

theorem spelled_number {x : Written .value} {q : ℚ} (hn : Number (x.bytes false))
    (hq : numeral (x.bytes false) = some q) : Spelled x (.number q) :=
  spelled_of fun rest => ⟨_, rest, .number rest hn, rfl, .number hn hq⟩

-- What the text of a number is, as far as it fits.
theorem floatText_cases {negative : Bool} {m : Nat} {e : Int} :
    let x := BinaryFloat.fin negative m e
    let k := tenthsOf m e
    floatText x = formatG.sign negative ++ tenths k ∧ (formatF 1 x).length ≤ 47 ∨
    floatText x = formatG.sign negative ++ digits (k / 10) ++ [46] ∧ (formatF 1 x).length = 48 ∨
    floatText x = formatG.sign negative ++ digits (k / 10) ∧ (formatF 1 x).length = 49 ∨
    ∃ l, 0 < l ∧ l < (digits (k / 10)).length ∧
      floatText x = formatG.sign negative ++ (digits (k / 10)).take l ∧ 49 < (formatF 1 x).length := by
  dsimp only
  have hs : (formatG.sign negative).length ≤ 1 := by cases negative <;> simp [formatG.sign]
  rw [floatText, fit, formatF_tenths]
  generalize formatG.sign negative = sign at hs ⊢
  generalize tenthsOf m e = k
  have split : sign ++ tenths k = sign ++ digits (k / 10) ++ [46, digit (k % 10)] := by
    rw [tenths, List.append_assoc]
  have front : (sign ++ digits (k / 10)).length = sign.length + (digits (k / 10)).length :=
    List.length_append
  have hl : (sign ++ tenths k).length = sign.length + (digits (k / 10)).length + 2 := by
    rw [split, List.length_append, front]
    rfl
  by_cases h : (sign ++ tenths k).length ≤ 47
  case pos => exact .inl ⟨List.take_of_length_le h, h⟩
  case neg =>
    refine .inr ?_
    rw [split, List.take_append, front, ← split, hl]
    obtain h | h | h : sign.length + (digits (k / 10)).length = 46 ∨
        sign.length + (digits (k / 10)).length = 47 ∨
        47 < sign.length + (digits (k / 10)).length := by omega
    case inl =>
      rw [h, List.take_of_length_le (by omega)]
      exact .inl ⟨rfl, rfl⟩
    case inr.inl =>
      rw [h, List.take_of_length_le (by omega)]
      exact .inr (.inl ⟨List.append_nil _, rfl⟩)
    case inr.inr =>
      refine .inr (.inr ⟨47 - sign.length, by omega, by omega, ?_, by omega⟩)
      have nothing : 48 - 1 - (sign.length + (digits (k / 10)).length) = 0 := by omega
      rw [nothing, List.take_append, List.take_of_length_le (by omega)]
      exact List.append_nil _

theorem last_formatF {negative : Bool} {m : Nat} {e : Int} :
    (formatF 1 (.fin negative m e)).getLast? = some 48 ↔ tenthsOf m e % 10 = 0 := by
  have hd : tenthsOf m e % 10 < 10 := Nat.mod_lt _ (by decide)
  have last : (formatF 1 (.fin negative m e)).getLast? = some (digit (tenthsOf m e % 10)) := by
    rw [formatF_tenths, tenths, ← List.append_assoc, List.getLast?_append_of_ne_nil _ (List.cons_ne_nil _ _)]
    rfl
  rw [last, Option.some_inj]
  constructor
  case mp =>
    intro h
    have value := digitValue_digit hd
    rw [h] at value
    exact value.symm
  case mpr => exact fun h => by rw [h]; rfl

-- The whole part of a number of tenths is all of it if the tenth is zero.
theorem whole_tenths {negative : Bool} {k : Nat} :
    signed negative ((k / 10 : Nat) : ℚ) = signed negative (k / 10) ↔ k % 10 = 0 := by
  rw [signed_injective]
  constructor
  case mp =>
    intro h
    have : (((k / 10 : Nat) : ℚ)) * 10 = k := by rw [h]; field_simp
    have : k / 10 * 10 = k := by exact_mod_cast this
    omega
  case mpr =>
    intro h
    have : k / 10 * 10 = k := by omega
    have : (((k / 10 : Nat) : ℚ)) * 10 = k := by exact_mod_cast this
    rw [← this]
    field_simp

theorem numeral_digits {negative : Bool} {n : Nat} :
    numeral (formatG.sign negative ++ digits n) = some (signed negative n) := by
  rw [numeral_whole isDigit_of_mem_digits digits_ne_nil, decimal_digits]

theorem spelled_float {negative : Bool} {m : Nat} {e : Int} (h : FitsText (.fin negative m e)) :
    Spelled (.float (.fin negative m e)) (.number (signed negative (tenthsOf m e / 10))) := by
  have bytes : (Written.float (.fin negative m e)).bytes false = floatText (.fin negative m e) := rfl
  rcases @floatText_cases negative m e with ⟨ht, _⟩ | ⟨_, hl⟩ | ⟨ht, hl⟩ | ⟨_, _, _, _, hl⟩
  case inl =>
    refine spelled_number ?_ ?_
    · rw [bytes, ht]; exact number_tenths
    · rw [bytes, ht]; exact numeral_tenths
  case inr.inl     => obtain h | h := h.2 <;> omega
  case inr.inr.inr => obtain h | h := h.2 <;> omega
  case inr.inr.inl =>
    have zero : tenthsOf m e % 10 = 0 := by
      obtain h | h := h.2
      · omega
      · exact last_formatF.mp h.2
    refine spelled_number ?_ ?_
    · rw [bytes, ht]; exact number_whole
    · rw [bytes, ht, numeral_digits, whole_tenths.mpr zero]

theorem skip_blank (h : skip t = []) : skip (t ++ rest) = skip rest := by
  rw [skip, skip, List.dropWhile_append, if_pos]
  simpa [skip] using h

theorem denotes_element {x : Value .value} {xs : Value .elements} {e : Tree .elements}
    (h : Denotes e (.element x xs)) : ∃ d ds, e = .element d ds := by
  cases h
  exact ⟨_, _, rfl⟩

theorem denotes_member {n : Bytes} {x : Value .value} {xs : Value .members} {e : Tree .members}
    (h : Denotes e (.member n x xs)) : ∃ s d ds, e = .member s d ds := by
  cases h
  exact ⟨_, _, _, rfl⟩

-- By induction on what is written.
theorem spelled_of_printable {k : Kind} {x : Written k} {v : Value k} (h : x.Means v) (hp : x.Printable) :
    Spelled x v := by
  induction h
  case str s   =>
    refine spelled_of fun rest => ⟨.string _, rest, ?_, rfl, .string (characters_quote hp)⟩
    rw [Written.bytes, lead, if_neg Bool.false_ne_true, List.nil_append, quote_append]
    exact .string rest (characters_quote hp)
  case int n   =>
    have text : (Written.int n).bytes false = formatD n.toInt := integerText_eq
    refine spelled_number ?_ ?_
    · rw [text]; exact number_formatD
    · rw [text]; exact numeral_formatD
  case float   => exact spelled_float hp
  case bool b  =>
    cases b
    case false => exact spelled_of fun rest => ⟨_, rest, .literal rest (by decide), rfl, .no⟩
    case true  => exact spelled_of fun rest => ⟨_, rest, .literal rest (by decide), rfl, .yes⟩
  case null    => exact spelled_of fun rest => ⟨_, rest, .literal rest (by decide), rfl, .null⟩
  case raw t v valid =>
    obtain ⟨e, t₁, hs, hb, hd⟩ := valid
    intro rest
    refine ⟨e, t₁ ++ rest, ?_, skip_blank hb, hd⟩
    show Spells e (skip (t ++ rest)) (t₁ ++ rest)
    rw [skip_append_of_ne_nil hs.ne_nil]
    exact hs.append rest
  case arr es vs _ ih =>
    refine spelled_of fun rest => ?_
    obtain ⟨e, t₁, hs, hr, hd⟩ := ih hp (93 :: rest)
    refine ⟨.array e, rest, ?_, rfl, .array hd⟩
    rw [skip_cons rfl] at hr
    have text : (Written.arr es).bytes false ++ rest = 91 :: (es.bytes false ++ 93 :: rest) := by
      simp [Written.bytes, lead]
    rw [text]
    exact .array hs hr
  case obj ms vs _ ih =>
    refine spelled_of fun rest => ?_
    obtain ⟨e, t₁, hs, hr, hd⟩ := ih hp (125 :: rest)
    refine ⟨.object e, rest, ?_, rfl, .object hd⟩
    rw [skip_cons rfl] at hr
    have text : (Written.obj ms).bytes false ++ rest = 123 :: (ms.bytes false ++ 125 :: rest) := by
      simp [Written.bytes, lead]
    rw [text]
    exact .object hs hr
  case noElements => exact fun rest => ⟨_, rest, .noElements rest, rfl, .noElements⟩
  case noMembers  => exact fun rest => ⟨_, rest, .noMembers rest, rfl, .noMembers⟩
  case element x v es vs _ hes ihx ih =>
    intro rest
    cases hes
    case noElements =>
      obtain ⟨e, t₁, hs, hr, hd⟩ := ihx hp.1 rest
      have text : (Written.element x .noElements).bytes false ++ rest = x.bytes false ++ rest := by
        simp [Written.bytes]
      exact ⟨_, t₁, text ▸ .element hs, hr, .element hd .noElements⟩
    case element y w ys ws _ _ =>
      obtain ⟨e', t₂, hs', hr', hd'⟩ := ih hp.2 rest
      obtain ⟨d, ds, rfl⟩ := denotes_element hd'
      obtain ⟨e, t₁, hs, hr, hd⟩ := ihx hp.1 (44 :: ((Written.element y ys).bytes false ++ rest))
      have text : (Written.element x (.element y ys)).bytes false ++ rest =
          x.bytes false ++ 44 :: ((Written.element y ys).bytes false ++ rest) := by
        simp [Written.bytes, bytes_comma]
      exact ⟨_, t₂, text ▸ .elements hs (hr.trans (skip_cons rfl)) hs', hr', .element hd hd'⟩
  case member x v ms vs key _ hms ihx ih =>
    intro rest
    obtain ⟨hk, hx, hm⟩ := hp
    have name {u : Bytes} : skip (34 :: (key.flatMap escaped ++ 34 :: u)) =
        34 :: (key.flatMap escaped ++ 34 :: u) := skip_cons rfl
    cases hms
    case noMembers =>
      obtain ⟨e, t₁, hs, hr, hd⟩ := ihx hx rest
      have text : (Written.member key x .noMembers).bytes false ++ rest =
          34 :: (key.flatMap escaped ++ 34 :: 58 :: (x.bytes false ++ rest)) := by
        simp [Written.bytes, lead, quote]
      refine ⟨_, t₁, ?_, hr, .member (characters_quote hk) hd .noMembers⟩
      exact text ▸ .member name (characters_quote hk) (skip_cons rfl) hs
    case member y w ys ws key' _ _ =>
      obtain ⟨e', t₂, hs', hr', hd'⟩ := ih hm rest
      obtain ⟨n, d, ds, rfl⟩ := denotes_member hd'
      obtain ⟨e, t₁, hs, hr, hd⟩ := ihx hx (44 :: ((Written.member key' y ys).bytes false ++ rest))
      have text : (Written.member key x (.member key' y ys)).bytes false ++ rest =
          34 :: (key.flatMap escaped ++ 34 :: 58 ::
            (x.bytes false ++ 44 :: ((Written.member key' y ys).bytes false ++ rest))) := by
        simp [Written.bytes, lead, quote]
      refine ⟨_, t₂, ?_, hr', .member (characters_quote hk) hd hd'⟩
      exact text ▸ .members name (characters_quote hk) (skip_cons rfl) hs (hr.trans (skip_cons rfl)) hs'

-- What is read of a text ends where the text that was written ends.
theorem end_of_spells {k : Kind} {x : Written k} {v : Value k} {e : Tree k} (h : x.Means v)
    (hp : x.Printable) (hs : Spells e (start k (x.bytes false ++ rest)) t₁) (c : Closes k rest)
    (c' : Closes k t₁) : skip t₁ = skip rest := by
  obtain ⟨e', t₂, hs', hr, _⟩ := spelled_of_printable h hp rest
  rw [(hs.unique hs' c' (c.of_skip hr)).2, hr]

theorem numeral_take {negative : Bool} {k l : Nat} (h : 0 < l) (hl : l < (digits (k / 10)).length) :
    numeral (formatG.sign negative ++ (digits (k / 10)).take l) ≠ some (signed negative (k / 10)) := by
  have part : ∀ c ∈ (digits (k / 10)).take l, isDigit c :=
    fun c hc => isDigit_of_mem_digits c (List.mem_of_mem_take hc)
  have some_part : (digits (k / 10)).take l ≠ [] := by
    rw [← List.length_pos_iff, List.length_take]
    omega
  rw [numeral_whole part some_part]
  intro he
  have value : (decimal ((digits (k / 10)).take l) : ℚ) = k / 10 := signed_injective.mp (Option.some.inj he)
  have : ((decimal ((digits (k / 10)).take l) : ℚ)) * 10 = k := by rw [value]; field_simp
  have : decimal ((digits (k / 10)).take l) * 10 = k := by exact_mod_cast this
  have less := decimal_take_digits h hl
  omega

theorem number_of_denotes {e : Tree .value} {q : ℚ} (hs : Spells e t t₁) (hd : Denotes e (.number q)) :
    ∃ s, t = s ++ t₁ ∧ Number s ∧ numeral s = some q := by
  cases hd
  case number hn hq =>
    cases hs
    case number _  => exact ⟨_, rfl, hn, hq⟩
    case literal h => exact absurd h hn.ne_literal

-- Where a number is read, its text was not cut, or only a point and a zero were.
theorem fitsText_of_spells {negative : Bool} {m : Nat} {x : Int} {e : Tree .value}
    (hs : Spells e (skip (floatText (.fin negative m x) ++ rest)) t₁)
    (hd : Denotes e (.number (signed negative (tenthsOf m x / 10))))
    (c : Closes .value rest) (c' : Closes .value t₁) : FitsText (.fin negative m x) := by
  have finite : .fin negative m x ≠ nan ∧ ∀ b, .fin negative m x ≠ inf b := ⟨nofun, nofun⟩
  have numeric : ∀ c ∈ floatText (.fin negative m x), isNumeric c :=
    fun c hc => (number_formatF finite.1 finite.2).isNumeric c (List.mem_of_mem_take hc)
  have nonempty : floatText (.fin negative m x) ≠ [] := by
    simp [floatText, fit, (number_formatF finite.1 finite.2).ne_nil]
  have front : skip (floatText (.fin negative m x) ++ rest) = floatText (.fin negative m x) ++ rest := by
    obtain ⟨c, u, hu⟩ := List.exists_cons_of_ne_nil nonempty
    rw [hu, List.cons_append, skip_cons (not_space_of_isNumeric (numeric c (hu ▸ .head _)))]
  rw [front] at hs
  obtain ⟨s, he, hn, hq⟩ := number_of_denotes hs hd
  obtain ⟨rfl, rfl⟩ := numeric_unique numeric hn.isNumeric he c c'
  refine ⟨finite, ?_⟩
  rcases @floatText_cases negative m x with ⟨_, hl⟩ | ⟨ht, _⟩ | ⟨ht, hl⟩ | ⟨l, h, hl, ht, _⟩
  case inl => exact .inl hl
  case inr.inl =>
    have last := hn.last 46 (by rw [ht, List.getLast?_concat]; rfl)
    exact absurd last (by decide)
  case inr.inr.inl =>
    rw [ht, numeral_digits] at hq
    have zero := whole_tenths.mp (Option.some.inj hq)
    exact .inr ⟨hl, last_formatF.mpr zero⟩
  case inr.inr.inr =>
    rw [ht] at hq
    exact absurd hq (numeral_take h hl)

theorem closes_comma : Closes .value (44 :: t) :=
  closes_value_of_skip (skip_cons rfl) rfl

-- By induction on what is written: where its value is read, all of it is printable.
theorem printable_of_spells {k : Kind} {x : Written k} {v : Value k} {e : Tree k} (h : x.Means v)
    (hs : Spells e (start k (x.bytes false ++ rest)) t₁) (hd : Denotes e v) (c : Closes k rest)
    (c' : Closes k t₁) : x.Printable := by
  induction h generalizing rest t₁
  case str s =>
    have text : skip ((Written.str s).bytes false ++ rest) = 34 :: (s.flatMap escaped ++ 34 :: rest) := by
      rw [Written.bytes, lead, if_neg Bool.false_ne_true, List.nil_append, quote_append]
      exact skip_cons rfl
    rw [start, text] at hs
    obtain ⟨_, _, _, hk, he⟩ := hs.of_quote
    exact (quote_unique hk he.symm).1
  case int | bool | null | raw | noElements | noMembers => trivial
  case float negative m x => exact fitsText_of_spells hs hd c c'
  case arr es vs _ ih =>
    have text : skip ((Written.arr es).bytes false ++ rest) = 91 :: (es.bytes false ++ 93 :: rest) := by
      simp only [Written.bytes, lead, List.cons_append, List.append_assoc, List.nil_append]
      exact skip_cons rfl
    rw [start, text] at hs
    obtain ⟨ds, t₂, rfl, hs, hc⟩ := hs.of_bracket
    cases hd
    case array hd => exact ih hs hd (by rw [Closes, skip_cons rfl]; rfl) (by rw [Closes, hc]; rfl)
  case obj ms vs _ ih =>
    have text : skip ((Written.obj ms).bytes false ++ rest) = 123 :: (ms.bytes false ++ 125 :: rest) := by
      simp only [Written.bytes, lead, List.cons_append, List.append_assoc, List.nil_append]
      exact skip_cons rfl
    rw [start, text] at hs
    obtain ⟨ds, t₂, rfl, hs, hc⟩ := hs.of_curly
    cases hd
    case object hd => exact ih hs hd (by rw [Closes, skip_cons rfl]; rfl) (by rw [Closes, hc]; rfl)
  case element x v es vs hx hes ihx ih =>
    change Spells e ((Written.element x es).bytes false ++ rest) t₁ at hs
    cases hes
    case noElements =>
      have text : (Written.element x .noElements).bytes false ++ rest = x.bytes false ++ rest := by
        simp [Written.bytes]
      rw [text] at hs
      cases hd
      case element hd hds =>
        cases hds
        cases hs
        case element hs =>
          exact ⟨ihx hs hd (closes_value_of_head c rfl) (closes_value_of_head c' rfl), trivial⟩
    case element y w ys ws hy hys =>
      have text : (Written.element x (.element y ys)).bytes false ++ rest =
          x.bytes false ++ 44 :: ((Written.element y ys).bytes false ++ rest) := by
        simp [Written.bytes, bytes_comma]
      rw [text] at hs
      cases hd
      case element hd hds =>
        obtain ⟨d', ds', rfl⟩ := denotes_element hds
        cases hs
        case elements hm hs hs' =>
          have printable := ihx hs hd closes_comma (closes_value_of_skip hm rfl)
          have same := end_of_spells hx printable hs closes_comma (closes_value_of_skip hm rfl)
          rw [hm, skip_cons rfl] at same
          obtain rfl := (List.cons.inj same).2
          exact ⟨printable, ih hs' hds c c'⟩
  case member x v ms vs key hx hms ihx ih =>
    change Spells e ((Written.member key x ms).bytes false ++ rest) t₁ at hs
    cases hms
    case noMembers =>
      have text : (Written.member key x .noMembers).bytes false ++ rest =
          34 :: (key.flatMap escaped ++ 34 :: 58 :: (x.bytes false ++ rest)) := by
        simp [Written.bytes, lead, quote]
      rw [text] at hs
      cases hd
      case member hk hd hds =>
        cases hds
        cases hs
        case member hc hk' hn hs =>
          rw [skip_cons rfl] at hn
          obtain ⟨clear, rfl⟩ := quote_unique hk' (List.cons.inj hn).2.symm
          rw [skip_cons rfl] at hc
          obtain rfl := (List.cons.inj hc).2
          exact ⟨clear, ihx hs hd (closes_value_of_head c rfl) (closes_value_of_head c' rfl), trivial⟩
    case member y w ys ws key' hy hys =>
      have text : (Written.member key x (.member key' y ys)).bytes false ++ rest =
          34 :: (key.flatMap escaped ++ 34 :: 58 ::
            (x.bytes false ++ 44 :: ((Written.member key' y ys).bytes false ++ rest))) := by
        simp [Written.bytes, lead, quote]
      rw [text] at hs
      cases hd
      case member hk hd hds =>
        obtain ⟨s', d', ds', rfl⟩ := denotes_member hds
        cases hs
        case members hc hm hk' hs hn hs' =>
          rw [skip_cons rfl] at hn
          obtain ⟨clear, rfl⟩ := quote_unique hk' (List.cons.inj hn).2.symm
          rw [skip_cons rfl] at hc
          obtain rfl := (List.cons.inj hc).2
          have printable := ihx hs hd closes_comma (closes_value_of_skip hm rfl)
          have same := end_of_spells hx printable hs closes_comma (closes_value_of_skip hm rfl)
          rw [hm, skip_cons rfl] at same
          obtain rfl := (List.cons.inj same).2
          exact ⟨clear, printable, ih hs' hds c c'⟩

theorem Written.Printable.means {k : Kind} {x : Written k} (h : x.Printable) : ∃ v, x.Means v := by
  induction x
  case str s  => exact ⟨_, .str s⟩
  case int n  => exact ⟨_, .int n⟩
  case bool b => exact ⟨_, .bool b⟩
  case null   => exact ⟨_, .null⟩
  case raw t v valid => exact ⟨v, .raw t v valid⟩
  case noElements    => exact ⟨_, .noElements⟩
  case noMembers     => exact ⟨_, .noMembers⟩
  case float x =>
    cases x
    case nan   => exact absurd rfl h.1.1
    case inf b => exact absurd rfl (h.1.2 b)
    case fin negative m e => exact ⟨_, .float negative m e⟩
  case arr es ih =>
    obtain ⟨_, h⟩ := ih h
    exact ⟨_, .arr h⟩
  case obj ms ih =>
    obtain ⟨_, h⟩ := ih h
    exact ⟨_, .obj h⟩
  case element x es ihx ih =>
    obtain ⟨_, hx⟩ := ihx h.1
    obtain ⟨_, h⟩ := ih h.2
    exact ⟨_, .element hx h⟩
  case member key x ms ihx ih =>
    obtain ⟨_, hx⟩ := ihx h.2.1
    obtain ⟨_, h⟩ := ih h.2.2
    exact ⟨_, .member key hx h⟩

variable {calls : List Call} {cap : Nat} {x : Written .value} {v : Value .value}

theorem stands_of_printable (hm : x.Means v) (hp : x.Printable) : Stands v (x.bytes false) := by
  obtain ⟨e, t₁, hs, hr, hd⟩ := spelled_of_printable hm hp []
  rw [List.append_nil] at hs
  exact ⟨e, t₁, hs, hr, hd⟩

theorem printable_of_stands (hm : x.Means v) (h : Stands v (x.bytes false)) : x.Printable := by
  obtain ⟨e, t₁, hs, hr, hd⟩ := h
  rw [← List.append_nil (x.bytes false)] at hs
  exact printable_of_spells hm hs hd (closes_value_of_blank rfl) (closes_value_of_blank hr)

-- Where there is room for it, what nested calls write denotes what they were called for, and nothing
-- else, if and only if all of that is printable.
theorem denotes_written_iff (h : Whole x calls) (hc : (x.bytes false).length < cap) :
    (∃ v, x.Means v ∧ ∀ w, Stands w ((init cap).run calls).buf ↔ w = v) ↔ x.Printable := by
  rw [(h.buf_eq hc).1]
  constructor
  case mp =>
    rintro ⟨v, hm, hv⟩
    exact printable_of_stands hm ((hv v).mpr rfl)
  case mpr =>
    intro hp
    obtain ⟨v, hm⟩ := hp.means
    have stands := stands_of_printable hm hp
    exact ⟨v, hm, fun w => ⟨fun hw => hw.unique stands, fun hw => hw ▸ stands⟩⟩

-- {"name":"a\"b","at":[7]}
theorem denotes_written_object :
    let at7 := Written.member "at" (.arr (.element (.int 7) .noElements)) .noMembers
    let x := Written.obj (.member "name" (.str [97, 34, 98]) at7)
    let calls := [.objOpen, .str "name" (some [97, 34, 98]), .key "at", .arrOpen, .arrInt 7, .arrClose,
      .objClose]
    ∃ v, x.Means v ∧ ∀ w, Stands w ((init 32).run calls).buf ↔ w = v := by
  have seven : Nested (.arr (.element (.int 7) .noElements)) [.arrOpen, .arrInt 7, .arrClose] :=
    .arr (.element (.single (.int 7)) .noElements)
  have nested := Nested.obj (.member (.str "name" (some [97, 34, 98])) (.key "at" seven .noMembers))
  refine (denotes_written_iff (.nested nested) (by decide)).mpr ?_
  have key : ClearText "name" := by decide
  have val : ClearText [97, 34, 98] := by decide
  exact ⟨key, val, (by decide : ClearText "at"), ⟨trivial, trivial⟩, trivial⟩

-- A control byte without a short escape is written as it is.
theorem bell_not_denoted :
    let x := Written.obj (.member "name" (.str [7]) .noMembers)
    let calls := [.objOpen, .str "name" (some [7]), .objClose]
    Whole x calls ∧ (x.bytes false).length < 32 ∧
      ¬∃ v, x.Means v ∧ ∀ w, Stands w ((init 32).run calls).buf ↔ w = v := by
  intro x calls
  have whole : Whole x calls := .nested (.obj (.member (.str "name" (some [7])) .noMembers))
  have room : (x.bytes false).length < 32 := by decide
  refine ⟨whole, room, ?_⟩
  rintro ⟨v, hm, hv⟩
  have stands := (hv v).mpr rfl
  rw [(whole.buf_eq room).1] at stands
  have clear : ClearText [7] := (printable_of_stands hm stands).2.1
  exact absurd (clear 7 (.head _)) (by decide)

end
end Deneb.JsonWriter
