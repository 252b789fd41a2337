import DenebModel.Wire.MsgpackSkip

namespace Deneb.MsgpackSkip

open Msgpack (Program bigEndian)

-- What stands at a position: a value with the end of its own bytes and the number of values inside,
-- or none, or one whose length leads to the end of the address space.
inductive Found
  | wraps
  | failed
  | value (last count : Nat)

def ending (buf : List UInt8) (last count : Nat) : Found :=
  if 2 ^ 32 ≤ last then .wraps
  else if buf.length < last then .failed
  else .value last count

-- The value that a length belongs to.
def lengthEnding (buf : List UInt8) (kind : Kind) (start n : Nat) : Found :=
  match kind with
  | .str   => ending buf (start + n) 0
  | .array => .value start n
  | .map   => .value start (n * 2)

def found (p : Program) (buf : List UInt8) (pos : Nat) : Found :=
  match buf[pos]? with
  | none     => .failed
  | some tag =>
    match form p tag with
    | .bytes n  => ending buf (pos + 1 + n) 0
    | .values n => .value (pos + 1) n
    | .length8  =>
      match buf[pos + 1]? with
      | none   => .failed
      | some n => ending buf (pos + 2 + n.toNat) 0
    | .length width kind =>
      match ending buf (pos + 1 + width) 0 with
      | .value start _ => lengthEnding buf kind start (bigEndian ((buf.drop (pos + 1)).take width))
      | stop           => stop
    | .unknown => .failed

-- So many complete values stand between two positions; the values inside one come behind its bytes.
inductive Values (p : Program) (buf : List UInt8) : (n pos last : Nat) → Prop
  | none (pos) : Values p buf 0 pos pos
  | cons :
    found p buf pos = .value mid count → Values p buf (n + count) mid last →
    Values p buf (n + 1) pos last

-- The call returns; it moves only forwards, over one complete value, and fails where there is none.
def WellBehaved (p : Program) (buf : List UInt8) (pos : Nat) : Prop :=
  ∃ depth,
    match skipValue p buf depth { pos := pos } with
    | .running  => False
    | .failed c => c.back = false ∧ ∀ last, ¬Values p buf 1 pos last
    | .done c   =>
      c.back = false ∧ pos < c.pos ∧ c.pos ≤ buf.length ∧ Values p buf 1 pos c.pos

-- How it ends to read so many values without a bound on positions. A map of 2^31 members or more has
-- as many values inside as a `size_t` leaves of their number, and `big` says that there was one.
inductive Reading
  | done (last : Nat) (big : Bool)
  | failed
  | wraps

inductive Reads (p : Program) (buf : List UInt8) : (n pos : Nat) → (big : Bool) → Reading → Prop
  | done (pos big) : Reads p buf 0 pos big (.done pos big)
  | failed : found p buf pos = .failed → Reads p buf (n + 1) pos big .failed
  | wraps : found p buf pos = .wraps → Reads p buf (n + 1) pos big .wraps
  | next :
    found p buf pos = .value mid count →
    Reads p buf (n + sizeT count) mid (big || decide (2 ^ 32 ≤ count)) e →
    Reads p buf (n + 1) pos big e

-- No length leads to the end of the address space, and no complete value has such a map in it.
structure Fits (p : Program) (buf : List UInt8) (pos : Nat) : Prop where
  lengths : ¬Reads p buf 1 pos false .wraps
  counts  : ∀ last, ¬Reads p buf 1 pos false (.done last true)

variable {p : Program} {buf : List UInt8} {pos mid last count n width depth : Nat} {big : Bool}
  {c : Cursor} {tag : UInt8} {e e' : Reading}

section Spec

theorem Reads.unique (h : Reads p buf n pos big e) (h' : Reads p buf n pos big e') : e = e' := by
  induction h generalizing e'
  case done =>
    cases h'
    rfl
  case failed hf =>
    cases h'
    case failed => rfl
    case wraps hf'  => exact nomatch hf.symm.trans hf'
    case next hf' _ => exact nomatch hf.symm.trans hf'
  case wraps hf =>
    cases h'
    case wraps => rfl
    case failed hf' => exact nomatch hf.symm.trans hf'
    case next hf' _ => exact nomatch hf.symm.trans hf'
  case next hf _ ih =>
    cases h'
    case failed hf' | wraps hf' => exact nomatch hf.symm.trans hf'
    case next hf' hr =>
      obtain ⟨rfl, rfl⟩ := Found.value.inj (hf.symm.trans hf')
      exact ih hr

theorem ending_eq_value (h : ending buf last n = .value mid count) :
    last = mid ∧ n = count ∧ last ≤ buf.length ∧ last < 2 ^ 32 := by
  rw [ending] at h
  split at h
  case isTrue => contradiction
  case isFalse hw =>
    split at h
    case isTrue => contradiction
    case isFalse hl =>
      obtain ⟨rfl, rfl⟩ := Found.value.inj h
      exact ⟨rfl, rfl, Nat.le_of_not_lt hl, Nat.lt_of_not_le hw⟩

theorem lengthEnding_bounds {kind : Kind} {start : Nat} (h : lengthEnding buf kind start n = .value mid count)
    (hs : start ≤ buf.length) : start ≤ mid ∧ mid ≤ buf.length := by
  cases kind
  case str =>
    have := ending_eq_value h
    omega
  case array | map =>
    obtain ⟨rfl, -⟩ := Found.value.inj h
    exact ⟨Nat.le_refl _, hs⟩

theorem found_bounds (h : found p buf pos = .value mid count) : pos < mid ∧ mid ≤ buf.length := by
  rw [found] at h
  split at h
  case h_1 => contradiction
  case h_2 tag ht =>
    have := (List.getElem?_eq_some_iff.mp ht).choose
    split at h
    case h_1 =>
      have := ending_eq_value h
      omega
    case h_2 =>
      obtain ⟨rfl, -⟩ := Found.value.inj h
      omega
    case h_3 =>
      split at h
      case h_1 => contradiction
      case h_2 =>
        have := ending_eq_value h
        omega
    case h_4 =>
      split at h
      case h_1 he =>
        have := ending_eq_value he
        have := lengthEnding_bounds h (by omega)
        omega
      case h_2 hs => exact absurd h (hs _ _)
    case h_5 => contradiction

-- A value takes a byte at least.
theorem Values.length (h : Values p buf n pos last) (hp : pos ≤ buf.length) :
    pos + n ≤ last ∧ last ≤ buf.length := by
  induction h
  case none => exact ⟨Nat.le_refl _, hp⟩
  case cons hf _ ih =>
    have := found_bounds hf
    have := ih this.right
    omega

theorem sizeT_of_lt (h : n < 2 ^ 32) : sizeT n = n :=
  Nat.mod_eq_of_lt h

theorem Reads.of_values (small : buf.length < 2 ^ 32) (h : Values p buf n pos last) :
    Reads p buf n pos big (.done last big) := by
  induction h generalizing big
  case none => exact .done ..
  case cons hf hv ih =>
    have := hv.length (found_bounds hf).right
    refine .next hf ?_
    rw [sizeT_of_lt (by omega), decide_eq_false (by omega), Bool.or_false]
    exact ih

theorem Reads.big_of_done (h : Reads p buf n pos big e) (he : e = .done last false) : big = false := by
  induction h
  case done => exact (Reading.done.inj he).right
  case failed | wraps => contradiction
  case next ih => exact (Bool.or_eq_false_iff.mp (ih he)).left

theorem Reads.values (h : Reads p buf n pos big e) (he : e = .done last false) :
    Values p buf n pos last := by
  induction h
  case done =>
    obtain ⟨rfl, -⟩ := Reading.done.inj he
    exact .none _
  case failed | wraps => contradiction
  case next hf hr ih =>
    have few := of_decide_eq_false (Bool.or_eq_false_iff.mp (hr.big_of_done he)).right
    rw [sizeT_of_lt (Nat.lt_of_not_le few)] at ih
    exact .cons hf (ih he)

end Spec

section Code

variable {m depth' : Nat} {r : Skipped} {f : Cursor → Skipped}

theorem foldl_lt {d : List UInt8} :
    d.foldl (fun n b => n * 2 ^ 8 + b.toNat) n < (n + 1) * 2 ^ (8 * d.length) := by
  induction d generalizing n
  case nil => simp
  case cons b d ih =>
    have byte := b.toNat_lt
    have more : (n * 2 ^ 8 + b.toNat + 1) * 2 ^ (8 * d.length) ≤ (n + 1) * 2 ^ 8 * 2 ^ (8 * d.length) :=
      Nat.mul_le_mul_right _ (by omega)
    have bits : 8 * (d.length + 1) = 8 + 8 * d.length := by omega
    rw [List.foldl_cons, List.length_cons, bits, Nat.pow_add, ← Nat.mul_assoc]
    exact Nat.lt_of_lt_of_le ih more

theorem bigEndian_lt {d : List UInt8} (h : d.length ≤ 4) : bigEndian d < 2 ^ 32 := by
  have bound := @foldl_lt 0 d
  have power : 2 ^ (8 * d.length) ≤ 2 ^ 32 := Nat.pow_le_pow_right (by decide) (by omega)
  rw [Nat.zero_add, Nat.one_mul] at bound
  exact Nat.lt_of_lt_of_le bound power

def Form.Fits : Form → Prop
  | .bytes n    => n < 2 ^ 32
  | .values n   => n < 2 ^ 32
  | .length w _ => w ≤ 4
  | _           => True

theorem fits_ite {q : Prop} [Decidable q] {g g' : Form} (h : g.Fits) (h' : g'.Fits) :
    (if q then g else g').Fits := by
  split
  case isTrue  => exact h
  case isFalse => exact h'

theorem form_fits : (form p tag).Fits := by
  have low (m : UInt8) : (tag &&& m).toNat * 2 < 2 ^ 32 := by
    have := (tag &&& m).toNat_lt
    omega
  have half (m : UInt8) : (tag &&& m).toNat < 2 ^ 32 := Nat.lt_of_le_of_lt (by omega) (low m)
  rw [form]
  repeat' apply fits_ite
  all_goals first
    | exact trivial
    | exact low _
    | exact half _
    | simp [Form.Fits]

-- The position has been moved backwards, or the depth is not enough.
def Marked : Skipped → Prop
  | .running  => True
  | .failed c => c.back
  | .done c   => c.back

theorem advance_marked (h : c.back) : (c.advance n).back := by
  simp [Cursor.advance, h]

theorem skipBytes_marked (h : (c.advance n).back) : Marked (skipBytes buf n c) := by
  rw [skipBytes]
  split <;> exact h

theorem skipValues_marked (hf : ∀ c : Cursor, c.back → Marked (f c)) (h : c.back) :
    Marked (skipValues f n c) := by
  induction n generalizing c
  case zero => exact h
  case succ n ih =>
    have first := hf c h
    rw [skipValues]
    split
    case h_1 c' hc =>
      rw [hc] at first
      exact ih first
    case h_2 => exact first

theorem skipLength_marked {kind : Kind} (hf : ∀ c : Cursor, c.back → Marked (f c)) (h : c.back) :
    Marked (skipLength buf f kind n c) := by
  cases kind
  case str => exact skipBytes_marked (advance_marked h)
  case array | map => exact skipValues_marked hf h

theorem skipValue_marked (h : c.back) : Marked (skipValue p buf depth c) := by
  induction depth generalizing c
  case zero => trivial
  case succ depth ih =>
    have u8 {c c' : Cursor} {b : UInt8} (hc : c.back) (hr : readU8 buf c = some (b, c')) : c'.back := by
      obtain ⟨_, _, he⟩ := Option.map_eq_some_iff.mp hr
      exact (Prod.mk.inj he).right ▸ advance_marked hc
    rw [skipValue]
    split
    case h_1 => exact h
    case h_2 tag c' hr =>
      have h' := u8 h hr
      split
      case h_1 => exact skipBytes_marked (advance_marked h')
      case h_2 => exact skipValues_marked (fun _ => ih) h'
      case h_3 =>
        split
        case h_1 => exact h'
        case h_2 hr' => exact skipBytes_marked (advance_marked (u8 h' hr'))
      case h_4 =>
        split
        case h_1 => exact h'
        case h_2 d c'' hr' =>
          have h'' : c''.back := by
            rw [readBytes] at hr'
            split at hr'
            case isTrue => contradiction
            case isFalse => exact (Prod.mk.inj (Option.some.inj hr')).right ▸ advance_marked h'
          exact skipLength_marked (fun _ => ih) h''
      case h_5 => exact h'

-- What a call, from a position that has never been moved backwards, says about the reading.
def Follows (p : Program) (buf : List UInt8) (depth n pos : Nat) : Skipped → Prop
  | .running  => depth ≤ buf.length - pos ∨ ∀ k big, Reads p buf (k + n) pos big .wraps
  | .failed c => ∀ k big, Reads p buf (k + n) pos big (if c.back then .wraps else .failed)
  | .done c   =>
    if c.back then ∀ k big, Reads p buf (k + n) pos big .wraps
    else
      pos + n ≤ c.pos ∧ c.pos ≤ buf.length ∧
        ∃ b, ∀ k big e, Reads p buf k c.pos (big || b) e → Reads p buf (k + n) pos big e

theorem follows_of_marked (h : ∀ k big, Reads p buf (k + n) pos big .wraps) (hm : Marked r) :
    Follows p buf depth n pos r := by
  cases r
  case running => exact .inr h
  case failed c =>
    have hb : c.back = true := hm
    rw [Follows, if_pos hb]
    exact h
  case done c =>
    have hb : c.back = true := hm
    rw [Follows, if_pos hb]
    exact h

-- The reading from one position goes on as the reading from a later one.
theorem Follows.trans (h : Follows p buf depth n mid r) (hd : depth' + pos ≤ depth + mid)
    (hn : pos + m ≤ mid + n) (hp : mid ≤ buf.length) {b : Bool}
    (ht : ∀ k big e, Reads p buf (k + n) mid (big || b) e → Reads p buf (k + m) pos big e) :
    Follows p buf depth' m pos r := by
  cases r
  case running =>
    rcases h with h | h
    case inl => exact .inl (by omega)
    case inr => exact .inr fun k big => ht _ _ _ (h _ _)
  case failed c => exact fun k big => ht _ _ _ (h _ _)
  case done c =>
    rw [Follows] at h ⊢
    split at h
    case isTrue hb =>
      rw [if_pos hb]
      exact fun k big => ht _ _ _ (h _ _)
    case isFalse hb =>
      rw [if_neg hb]
      obtain ⟨hl, hlen, b', hr⟩ := h
      refine ⟨by omega, hlen, b || b', fun k big e he => ht _ _ _ (hr _ _ _ ?_)⟩
      rwa [Bool.or_assoc]

theorem sizeT_wrap {q : Nat} (hm : q ≤ buf.length) (hn : n < 2 ^ 32) (small : buf.length < 2 ^ 32)
    (hw : 2 ^ 32 ≤ q + n) : sizeT (q + n) < q := by
  rw [sizeT, Nat.mod_eq_sub_mod hw, Nat.mod_eq_of_lt (by omega)]
  omega

theorem advance_of_lt (h : mid + n < 2 ^ 32) :
    Cursor.advance { pos := mid } n = { pos := mid + n } := by
  simp [Cursor.advance, sizeT_of_lt h]

theorem advance_wraps (hm : mid ≤ buf.length) (hn : n < 2 ^ 32) (small : buf.length < 2 ^ 32)
    (hw : 2 ^ 32 ≤ mid + n) : (Cursor.advance { pos := mid } n).back := by
  simpa [Cursor.advance] using sizeT_wrap hm hn small hw

-- A value with so many bytes behind its tag and its length.
theorem skipBytes_follows (small : buf.length < 2 ^ 32) (hf : found p buf pos = ending buf (mid + n) 0)
    (hp : pos < mid) (hm : mid ≤ buf.length) (hn : n < 2 ^ 32) :
    Follows p buf depth 1 pos (skipBytes buf n { pos := mid }) := by
  rw [ending] at hf
  by_cases hw : 2 ^ 32 ≤ mid + n
  case pos =>
    rw [if_pos hw] at hf
    exact follows_of_marked (fun _ _ => .wraps hf) (skipBytes_marked (advance_wraps hm hn small hw))
  case neg =>
    rw [if_neg hw] at hf
    rw [skipBytes, advance_of_lt (Nat.lt_of_not_le hw)]
    by_cases hl : mid + n ≤ buf.length
    case pos =>
      rw [if_neg (Nat.not_lt_of_le hl)] at hf
      rw [if_pos hl]
      refine ⟨by change pos + 1 ≤ mid + n; omega, hl, false, fun k big e he => .next hf ?_⟩
      simpa [sizeT] using he
    case neg =>
      rw [if_pos (Nat.lt_of_not_le hl)] at hf
      rw [if_neg hl]
      exact fun _ _ => .failed hf

theorem skipValues_follows (hs : ∀ q ≤ buf.length, Follows p buf depth 1 q (f { pos := q }))
    (hk : ∀ c : Cursor, c.back → Marked (f c)) (hp : pos ≤ buf.length) :
    Follows p buf depth n pos (skipValues f n { pos := pos }) := by
  induction n generalizing pos
  case zero => exact ⟨Nat.le_refl _, hp, false, fun k big e he => by simpa using he⟩
  case succ n ih =>
    have first := hs pos hp
    rw [skipValues]
    cases hr : f { pos := pos }
    case running =>
      rw [hr] at first
      exact first.imp_right fun h k big => h (k + n) big
    case failed c =>
      rw [hr] at first
      exact fun k big => first (k + n) big
    case done c =>
      rw [hr, Follows] at first
      split at first
      case isTrue hb =>
        exact follows_of_marked (fun k big => first (k + n) big) (skipValues_marked hk hb)
      case isFalse hb =>
        obtain ⟨hl, hlen, b, ht⟩ := first
        have same : c = { pos := c.pos } := by
          cases c
          simpa using hb
        rw [same]
        exact (ih hlen).trans (by omega) (by omega) hlen fun k big e he => ht (k + n) big e he

-- The values inside a value.
theorem nested_follows (hs : ∀ q ≤ buf.length, Follows p buf depth 1 q (f { pos := q }))
    (hk : ∀ c : Cursor, c.back → Marked (f c)) (hf : found p buf pos = .value mid count) :
    Follows p buf (depth + 1) 1 pos (skipValues f (sizeT count) { pos := mid }) := by
  have ⟨hp, hm⟩ := found_bounds hf
  exact (skipValues_follows hs hk hm).trans (by omega) (by omega) hm fun _ _ _ he => .next hf he

theorem readU8_eq (small : buf.length < 2 ^ 32) {b : UInt8} (h : buf[pos]? = some b) :
    readU8 buf { pos := pos } = some (b, { pos := pos + 1 }) := by
  have := (List.getElem?_eq_some_iff.mp h).choose
  rw [readU8, h, Option.map_some, advance_of_lt (by omega)]

theorem readU8_none (h : buf[pos]? = none) : readU8 buf { pos := pos } = none := by
  rw [readU8, h, Option.map_none]

-- A value with a length of two or four bytes.
theorem length_follows {kind : Kind} (small : buf.length < 2 ^ 32) (ht : buf[pos]? = some tag)
    (hform : form p tag = .length width kind)
    (hs : ∀ q ≤ buf.length, Follows p buf depth 1 q (f { pos := q }))
    (hk : ∀ c : Cursor, c.back → Marked (f c)) :
    Follows p buf (depth + 1) 1 pos (
      match readBytes buf width { pos := pos + 1 } with
      | none        => .failed { pos := pos + 1 }
      | some (d, c) => skipLength buf f kind (bigEndian d) c) := by
  have hp := (List.getElem?_eq_some_iff.mp ht).choose
  have narrow : width ≤ 4 := by
    have := @form_fits p tag
    rwa [hform] at this
  rw [readBytes]
  by_cases hw : 2 ^ 32 ≤ pos + 1 + width
  case pos =>
    have hf : found p buf pos = .wraps := by simp only [found, ht, hform, ending, if_pos hw]
    have back : sizeT (pos + 1 + width) < pos + 1 := sizeT_wrap hp (by omega) small hw
    rw [if_neg (by change ¬buf.length < sizeT (pos + 1 + width); omega)]
    exact follows_of_marked (fun _ _ => .wraps hf)
      (skipLength_marked hk (advance_wraps hp (by omega) small hw))
  case neg =>
    have start : sizeT (pos + 1 + width) = pos + 1 + width := sizeT_of_lt (by omega)
    by_cases hl : buf.length < pos + 1 + width
    case pos =>
      have hf : found p buf pos = .failed := by
        simp only [found, ht, hform, ending, if_neg hw, if_pos hl]
      rw [if_pos (by change buf.length < sizeT (pos + 1 + width); omega)]
      exact fun _ _ => .failed hf
    case neg =>
      have hf : found p buf pos = lengthEnding buf kind (pos + 1 + width)
          (bigEndian ((buf.drop (pos + 1)).take width)) := by
        simp only [found, ht, hform, ending, if_neg hw, if_neg hl]
      have bound : bigEndian ((buf.drop (pos + 1)).take width) < 2 ^ 32 :=
        bigEndian_lt (by rw [List.length_take]; omega)
      rw [if_neg (by change ¬buf.length < sizeT (pos + 1 + width); omega), advance_of_lt (by omega)]
      cases kind
      case str => exact skipBytes_follows small hf (by omega) (by omega) bound
      case array =>
        have := nested_follows hs hk hf
        rwa [sizeT_of_lt bound] at this
      case map => exact nested_follows hs hk hf

theorem skipValue_follows (small : buf.length < 2 ^ 32) (hp : pos ≤ buf.length) :
    Follows p buf depth 1 pos (skipValue p buf depth { pos := pos }) := by
  induction depth generalizing pos
  case zero => exact .inl (Nat.zero_le _)
  case succ depth ih =>
    have inner (q : Nat) (hq : q ≤ buf.length) := ih hq
    have marked (c : Cursor) (hc : c.back) : Marked (skipValue p buf depth c) := skipValue_marked hc
    rw [skipValue]
    cases ht : buf[pos]?
    case none =>
      rw [readU8_none ht]
      exact fun _ _ => .failed (by simp only [found, ht])
    case some tag =>
      have hlt := (List.getElem?_eq_some_iff.mp ht).choose
      have fits := @form_fits p tag
      rw [readU8_eq small ht]
      cases hform : form p tag
      case bytes n =>
        rw [hform] at fits
        have hf : found p buf pos = ending buf (pos + 1 + n) 0 := by simp only [found, ht, hform]
        simp only [hform]
        exact skipBytes_follows small hf (Nat.lt_succ_self pos) hlt fits
      case values n =>
        rw [hform] at fits
        have hf : found p buf pos = .value (pos + 1) n := by simp only [found, ht, hform]
        have nested := nested_follows inner marked hf
        simp only [hform]
        rwa [sizeT_of_lt fits] at nested
      case length8 =>
        simp only [hform]
        cases hn : buf[pos + 1]?
        case none =>
          have hf : found p buf pos = .failed := by simp only [found, ht, hform, hn]
          simp only [readU8_none hn]
          exact fun _ _ => .failed hf
        case some n =>
          have hlt' := (List.getElem?_eq_some_iff.mp hn).choose
          have short := n.toNat_lt
          have hf : found p buf pos = ending buf (pos + 1 + 1 + n.toNat) 0 := by
            simp only [found, ht, hform, hn]
          simp only [readU8_eq small hn]
          exact skipBytes_follows small hf (by omega) hlt' (by omega)
      case length width kind =>
        simp only [hform]
        exact length_follows small ht hform inner marked
      case unknown =>
        have hf : found p buf pos = .failed := by simp only [found, ht, hform]
        simp only [hform]
        exact fun _ _ => .failed hf

end Code

section Claim

-- Every value of either program is skipped as it should be, unless a length or a count is too much
-- for 32 bits.
theorem wellBehaved_iff (small : buf.length < 2 ^ 32) (hp : pos ≤ buf.length) :
    WellBehaved p buf pos ↔ Fits p buf pos := by
  constructor
  case mp =>
    rintro ⟨depth, h⟩
    have follows := @skipValue_follows p buf pos depth small hp
    cases hr : skipValue p buf depth { pos := pos }
    all_goals rw [hr] at h follows
    case running => contradiction
    case failed c =>
      have reads := follows 0 false
      rw [if_neg (Bool.eq_false_iff.mp h.left)] at reads
      exact ⟨fun hw => (nomatch reads.unique hw), fun _ hd => (nomatch reads.unique hd)⟩
    case done c =>
      have reads : Reads p buf 1 pos false (.done c.pos false) := .of_values small h.right.right.right
      exact ⟨fun hw => (nomatch reads.unique hw), fun _ hd => (nomatch reads.unique hd)⟩
  case mpr =>
    intro hfit
    refine ⟨buf.length - pos + 1, ?_⟩
    have follows := @skipValue_follows p buf pos (buf.length - pos + 1) small hp
    cases hr : skipValue p buf (buf.length - pos + 1) { pos := pos }
    all_goals rw [hr] at follows
    case running =>
      rcases follows with hd | hw
      case inl => omega
      case inr => exact hfit.lengths (hw 0 false)
    case failed c =>
      have reads := follows 0 false
      split at reads
      case isTrue => exact absurd reads hfit.lengths
      case isFalse hb =>
        refine ⟨Bool.eq_false_iff.mpr hb, fun last hv => ?_⟩
        exact nomatch reads.unique (Reads.of_values small hv)
    case done c =>
      rw [Follows] at follows
      split at follows
      case isTrue => exact absurd (follows 0 false) hfit.lengths
      case isFalse hb =>
        obtain ⟨hl, hlen, b, ht⟩ := follows
        have reads : Reads p buf 1 pos false (.done c.pos b) := ht 0 false _ (.done ..)
        have small_counts : b = false := by
          cases b
          case false => rfl
          case true  => exact absurd reads (hfit.counts c.pos)
        exact ⟨Bool.eq_false_iff.mpr hb, hl, hlen, reads.values (small_counts ▸ rfl)⟩

-- An array of nil and one.
theorem wellBehaved_array : WellBehaved .bridge [0x92, 0xc0, 0x01] 0 := by
  refine (wellBehaved_iff (by decide) (by decide)).mpr ?_
  have reads : Reads .bridge [0x92, 0xc0, 0x01] 1 0 false (.done 3 false) :=
    have second : Reads .bridge [0x92, 0xc0, 0x01] 1 2 false (.done 3 false) := .next rfl (.done ..)
    have first : Reads .bridge [0x92, 0xc0, 0x01] 2 1 false (.done 3 false) := .next rfl second
    .next rfl first
  exact ⟨fun hw => (nomatch reads.unique hw), fun _ hd => (nomatch reads.unique hd)⟩

def longString : List UInt8 :=
  [0xdb, 0xff, 0xff, 0xff, 0xfb]

-- The length leads past the end of the address space, back to the start.
theorem longString_skipped_back :
    (∀ depth, skipValue .bridge longString (depth + 1) { pos := 0 } = .done { pos := 0, back := true }) ∧
      ¬WellBehaved .bridge longString 0 := by
  have back (depth : Nat) :
      skipValue .bridge longString (depth + 1) { pos := 0 } = .done { pos := 0, back := true } := rfl
  refine ⟨back, ?_⟩
  rintro ⟨depth, h⟩
  cases depth
  case zero => exact h
  case succ depth =>
    rw [back] at h
    exact Bool.noConfusion h.left

def endlessList : List UInt8 :=
  [0xdd, 0, 0, 0, 2, 0xdb, 0xff, 0xff, 0xff, 0xf6]

-- The string in the list leads back to the list, which is then its own second element.
theorem endlessList_never_returns {back : Bool} :
    skipValue .bridge endlessList depth { pos := 0, back := back } = .running := by
  induction depth generalizing back
  case zero => rfl
  case succ depth ih =>
    cases depth
    case zero => rfl
    case succ depth =>
      have again : skipValue .bridge endlessList (depth + 1 + 1) { pos := 0, back := back } =
          skipValues (skipValue .bridge endlessList (depth + 1)) 1 { pos := 0, back := true } := by
        cases back <;> rfl
      rw [again, skipValues, ih]

end Claim
end Deneb.MsgpackSkip
