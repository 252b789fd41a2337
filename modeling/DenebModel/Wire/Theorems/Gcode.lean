import DenebModel.Wire.Command
import DenebModel.Wire.Theorems.CommandFormat

namespace Deneb.Command

open CString Json

-- The lines as they stand in a frame, each with the comma in front of it, up to the closing bracket.
def listing : List CString → CString
  | []            => [93]
  | line :: lines => 44 :: 34 :: escape line ++ 34 :: listing lines

theorem appendLines_eq_some {size i : Nat} {lines : List CString} {out frame : CString}
    (h : appendLines size (i + 1) lines out = some frame) :
    frame ++ [93] = out ++ listing lines := by
  induction lines generalizing out i
  case nil => simp_all [appendLines, listing]
  case cons line lines hi =>
    simp only [appendLines, Nat.zero_lt_succ, if_true, Option.bind_eq_bind,
      Option.bind_eq_some_iff] at h
    obtain ⟨a, ha, b, hb, c, hc, d, hd, h⟩ := h
    rw [hi h, (append_eq_some hd).left, appendEscaped_eq_some hc, (append_eq_some hb).left,
      (append_eq_some ha).left]
    simp only [listing, List.append_assoc]
    rfl

theorem formatGcode_eq_some {size : Nat} {lines : List CString} {frame : CString}
    (h : formatGcode lines size = some frame) :
    lines ≠ [] ∧ frame = "GCODE<[" ++ (listing lines).drop 1 := by
  unfold formatGcode at h
  split_ifs at h with he
  rcases lines with _ | ⟨line, lines⟩
  · simp at he
  · refine ⟨List.cons_ne_nil _ _, ?_⟩
    simp only [appendLines, Nat.lt_irrefl, if_false, Option.bind_eq_bind,
      Option.bind_eq_some_iff] at h
    obtain ⟨f, ⟨a, ha, b, hb, c, hc, d, hd, e, he, h⟩, hf⟩ := h
    injection hb with hb
    have hl := appendLines_eq_some h
    rw [(append_eq_some hf).left]
    refine hl.trans ?_
    rw [(append_eq_some he).left, appendEscaped_eq_some hd, (append_eq_some hc).left, ← hb,
      (append_eq_some ha).left]
    simp only [listing, List.append_assoc]
    rfl

theorem parse_gcode {lines : List CString} :
    parse ("GCODE<[" ++ (listing lines).drop 1) =
      (parseGcodeArray (91 :: ((listing lines).drop 1).take 510)).map fun gcode =>
        { kind := .gcode, verb := "GCODE"
          payload := 91 :: ((listing lines).drop 1).take 510, gcode } := by
  rfl

-- Whether a quote behind the line is taken as part of it, when this is so in front of the line.
def endsEscaped (escaped : Bool) : CString → Bool
  | []        => escaped
  | c :: line => endsEscaped (c == 92) line

theorem endsEscaped_append {e : Bool} {s line : CString} {c : UInt8} :
    endsEscaped e (s ++ c :: line) = endsEscaped (c == 92) line := by
  induction s generalizing e
  case nil => rfl
  case cons d s hi => exact hi

theorem scanLine_skip {e : Bool} {c : UInt8} {text : CString} (h : c = 34 → e) :
    scanLine e (c :: text) = (scanLine (c == 92) text).map fun p => (c :: p.1, p.2) := by
  rw [scanLine, if_neg]
  rintro ⟨hc, he⟩
  simp [h hc] at he

theorem scanLine_special {e : Bool} {c : UInt8} {text : CString} :
    scanLine e (92 :: c :: text) =
      (scanLine (c == 92) text).map fun p => (92 :: c :: p.1, p.2) := by
  rw [scanLine_skip (fun h => absurd h (by decide)), scanLine_skip (fun _ => by decide)]
  simp [Function.comp_def]

-- The escaped bytes of a line never end it.
theorem scanLine_escape {e : Bool} {line text : CString} (hp : Visible line) :
    scanLine e (escape line ++ text) =
      (scanLine (endsEscaped e line) text).map fun p => (escape line ++ p.1, p.2) := by
  induction line generalizing e
  case nil => simp [endsEscaped]
  case cons c line hi =>
    by_cases hc : c = 34 ∨ c = 92
    · rw [escape_cons, escapeByte_special hc]
      simp only [List.cons_append, List.nil_append]
      rw [scanLine_special, hi hp.tail]
      simp [Function.comp_def, endsEscaped]
    · simp only [not_or] at hc
      rw [escape_cons, escapeByte_plain hc.left hc.right hp.head]
      simp only [List.cons_append, List.nil_append]
      rw [scanLine_skip (absurd · hc.left), hi hp.tail]
      simp [Function.comp_def, endsEscaped]

theorem scanLine_escape_take {e : Bool} {line : CString} {room : Nat} (hp : Visible line) :
    scanLine e ((escape line).take room) = none := by
  induction line generalizing e room
  case nil => simp [scanLine]
  case cons c line hi =>
    by_cases hc : c = 34 ∨ c = 92
    · rw [escape_cons, escapeByte_special hc]
      match room with
      | 0        => rfl
      | 1        => simp [scanLine]
      | room + 2 =>
        simp only [List.cons_append, List.nil_append, List.take_succ_cons]
        rw [scanLine_special, hi hp.tail]
        rfl
    · simp only [not_or] at hc
      rw [escape_cons, escapeByte_plain hc.left hc.right hp.head]
      match room with
      | 0        => rfl
      | room + 1 =>
        simp only [List.cons_append, List.nil_append, List.take_succ_cons]
        rw [scanLine_skip (absurd · hc.left), hi hp.tail]
        rfl

-- What the loop does with a text behind an opening quote.
def readLine (room : Nat) (text : CString) : Option (List CString) :=
  (scanLine false text).bind fun p => (gcodeLoop room p.2).map (fit 256 p.1 :: ·)

theorem gcodeLoop_nil {room : Nat} : gcodeLoop room [] = some [] := by
  cases room <;> rfl

theorem gcodeLoop_skip {room : Nat} {c : UInt8} {text : CString} (h : c ≠ 34) :
    gcodeLoop room (c :: text) = gcodeLoop room text := by
  cases room
  case zero => rfl
  case succ => simp [gcodeLoop, strchr, h]

theorem gcodeLoop_append {room : Nat} {s text : CString} (h : 34 ∉ s) :
    gcodeLoop room (s ++ text) = gcodeLoop room text := by
  induction s
  case nil => rfl
  case cons c s hi =>
    simp only [List.mem_cons, not_or] at h
    rw [List.cons_append, gcodeLoop_skip (Ne.symm h.left), hi h.right]

theorem gcodeLoop_quote {room : Nat} {text : CString} :
    gcodeLoop (room + 1) (34 :: text) = readLine room text := by
  simp only [gcodeLoop, strchr, readLine, beq_self_eq_true, if_true, List.drop_succ_cons,
    List.drop_zero]
  cases scanLine false text <;> rfl

-- The rest of a line with what follows it, cut to `cut` bytes.
def lineTail (line : CString) (lines : List CString) (cut : Nat) : CString :=
  (escape line ++ 34 :: listing lines).take cut

theorem scanLine_lineTail {line : CString} {lines : List CString} {cut : Nat} (hp : Visible line) :
    scanLine false (lineTail line lines cut) =
      if cut ≤ (escape line).length then none
      else
        (scanLine (endsEscaped false line)
          (34 :: (listing lines).take (cut - ((escape line).length + 1)))).map
            fun p => (escape line ++ p.1, p.2) := by
  rw [lineTail]
  split_ifs with h
  · rw [List.take_append_of_le_length h, scanLine_escape_take hp]
  · obtain ⟨k, rfl⟩ := Nat.exists_eq_add_of_lt (Nat.lt_of_not_le h)
    rw [List.take_append, List.take_of_length_le (by omega)]
    have hk : (escape line).length + k + 1 - (escape line).length = k + 1 := by omega
    have hk' : (escape line).length + k + 1 - ((escape line).length + 1) = k := by omega
    rw [hk, hk', List.take_succ_cons, scanLine_escape hp]

-- A line that is read over its closing quote ends with the opening quote of the next line.
theorem scanLine_listing {lines : List CString} {cut : Nat} :
    scanLine false ((listing lines).take cut) =
      match lines, cut with
      | line :: lines, cut + 2 => some ([44], lineTail line lines cut)
      | _, _                   => none := by
  rcases lines with _ | ⟨line, lines⟩ <;> rcases cut with _ | _ | cut <;> rfl

-- Where the next line of the result begins in a line, counted from its opening quote. When that
-- quote is already used up, the next one of the line is taken.
def beginsAt (hidden : Bool) (line : CString) : Nat :=
  if hidden then 1 + ((escape line).takeWhile (· != 34)).length else 0

-- Whether the closing quote of a line is not taken as one.
def closingHidden (hidden : Bool) (line : CString) : Bool :=
  endsEscaped false line || hidden && decide (34 ∉ line)

-- The text of the lines, cut to `cut` bytes from the first opening quote on, ends inside of a line of
-- the result, of which there are at most `count`.
def LeftOpen : Nat → Nat → Bool → List CString → Prop
  | 0, _, _, _                                 => False
  | _, _, _, []                                => False
  | count + 1, cut, hidden, line :: lines =>
    let hidden' := closingHidden hidden line
    beginsAt hidden line < cut ∧
      (cut ≤ (escape line).length + (if hidden' then 3 else 1) ∨ hidden' ∧ lines = [] ∨
        LeftOpen count (cut - ((escape line).length + 3)) hidden' lines)

section

variable {lines : List CString}
  (aligned : ∀ room cut,
    gcodeLoop room ((listing lines).take cut) = none ↔ LeftOpen room (cut - 1) false lines)
  (hidden : ∀ line rest, lines = line :: rest → ∀ room cut,
    gcodeLoop room (lineTail line rest cut) = none ↔ LeftOpen room (cut + 1) true lines)

include hidden in
theorem overread_eq_none {room cut : Nat} {f : CString → CString} :
    ((scanLine false ((listing lines).take cut)).bind fun p =>
        (gcodeLoop room p.2).map (f p.1 :: ·)) = none ↔
      cut ≤ 1 ∨ lines = [] ∨ LeftOpen room (cut - 1) true lines := by
  rw [scanLine_listing]
  rcases lines with _ | ⟨line, lines⟩
  · simp
  · rcases cut with _ | _ | cut
    · simp
    · simp
    · simp [hidden line lines rfl]

include aligned hidden in
theorem readLine_eq_none {line : CString} {room cut : Nat} (hp : Visible line) :
    readLine room (lineTail line lines cut) = none ↔
      cut ≤ (escape line).length + (if endsEscaped false line then 2 else 0) ∨
        (endsEscaped false line ∧ lines = []) ∨
        LeftOpen room (cut - ((escape line).length + 2)) (endsEscaped false line) lines := by
  rw [readLine, scanLine_lineTail hp]
  by_cases hc : cut ≤ (escape line).length
  · simp only [hc, if_true, Option.bind_none, true_iff]
    exact .inl (by omega)
  · simp only [hc, if_false]
    have hs : cut - ((escape line).length + 1) - 1 = cut - ((escape line).length + 2) := by omega
    cases endsEscaped false line
    case false =>
      have hq : ∀ text, scanLine false (34 :: text) = some ([], text) := fun _ => rfl
      simp [hq, aligned, hs, hc]
    case true =>
      have hq : ∀ text, scanLine true (34 :: text) =
          (scanLine false text).map fun p => (34 :: p.1, p.2) := fun _ => rfl
      rw [hq, Option.map_map, Option.bind_map]
      refine (overread_eq_none hidden (f := fun l => fit 256 (escape line ++ 34 :: l))).trans ?_
      have hle : cut - ((escape line).length + 1) ≤ 1 ↔ cut ≤ (escape line).length + 2 := by omega
      simp only [hs, hle, if_true, true_and]

end

theorem gcodeLoop_take {room cut : Nat} {s text : CString} (h : 34 ∉ s) :
    gcodeLoop room ((s ++ text).take cut) =
      if cut ≤ s.length then some [] else gcodeLoop room (text.take (cut - s.length)) := by
  rw [List.take_append]
  split_ifs with hc
  · have hq : 34 ∉ s.take cut := fun hm => h (List.mem_of_mem_take hm)
    rw [gcodeLoop_append hq, Nat.sub_eq_zero_of_le hc, List.take_zero, gcodeLoop_nil]
  · rw [List.take_of_length_le (by omega), gcodeLoop_append h]

theorem beginsAt_split {u v : CString} (h : 34 ∉ u) :
    beginsAt true (u ++ 34 :: v) = (escape u).length + 2 := by
  rw [beginsAt, if_pos rfl, escape_split, takeWhile_quote (quote_notMem_escape_snoc h)]
  simp
  omega

theorem beginsAt_plain {line : CString} (h : 34 ∉ line) :
    beginsAt true line = (escape line).length + 1 := by
  have hq := @takeWhile_quote (escape line) [] (quote_mem_escape.not.mpr h)
  rw [List.append_nil] at hq
  rw [beginsAt, if_pos rfl, hq]
  simp
  omega

-- By induction on the lines: the loop stands in front of the next opening quote (`aligned`), or has
-- already used it up as a closing one.
theorem gcodeLoop_eq_none {lines : List CString} (hp : ∀ line ∈ lines, Visible line) :
    (∀ room cut,
      gcodeLoop room ((listing lines).take cut) = none ↔ LeftOpen room (cut - 1) false lines) ∧
    (∀ line rest, lines = line :: rest → ∀ room cut,
      gcodeLoop room (lineTail line rest cut) = none ↔ LeftOpen room (cut + 1) true lines) := by
  induction lines
  case nil =>
    refine ⟨fun room cut => ?_, nofun⟩
    have h := @gcodeLoop_take room cut [93] [] (by decide)
    rw [listing, ← List.append_nil [93], h, List.take_nil, gcodeLoop_nil]
    cases room <;> simp [LeftOpen]
  case cons line lines hi =>
    have hpl := hp line List.mem_cons_self
    have ⟨aligned, hidden⟩ := hi fun l hl => hp l (List.mem_cons_of_mem _ hl)
    constructor
    · intro room cut
      rcases room with _ | room
      · simp [gcodeLoop, LeftOpen]
      rcases cut with _ | _ | cut
      · simp [gcodeLoop_nil, LeftOpen]
      · simp [listing, gcodeLoop_skip, gcodeLoop_nil, LeftOpen]
      have hl : (listing (line :: lines)).take (cut + 2) = 44 :: 34 :: lineTail line lines cut := rfl
      rw [hl, gcodeLoop_skip (by decide), gcodeLoop_quote, readLine_eq_none aligned hidden hpl]
      simp only [LeftOpen, beginsAt, closingHidden, Bool.false_and, Bool.or_false]
      have hs : cut + 2 - 1 - ((escape line).length + 3) = cut - ((escape line).length + 2) := by
        omega
      rw [hs]
      cases endsEscaped false line <;> simp
    · rintro _ _ ⟨⟩ room cut
      rcases room with _ | room
      · simp [gcodeLoop, LeftOpen]
      by_cases hq : 34 ∈ line
      · obtain ⟨u, v, rfl, hu⟩ := List.eq_append_cons_of_mem hq
        have hv : Visible v := hpl.suffix.tail
        have hl : lineTail (u ++ 34 :: v) lines cut =
            ((escape u ++ [92]) ++ 34 :: (escape v ++ 34 :: listing lines)).take cut := by
          rw [lineTail, escape_split]
          simp
        have hc : closingHidden true (u ++ 34 :: v) = endsEscaped false v := by
          simp [closingHidden, endsEscaped_append]
        have hlen : (escape (u ++ 34 :: v)).length = (escape u).length + (escape v).length + 2 := by
          rw [escape_split]
          simp
          omega
        rw [hl, gcodeLoop_take (quote_notMem_escape_snoc hu)]
        simp only [LeftOpen, beginsAt_split hu, hc, hlen, List.length_append, List.length_singleton]
        by_cases hcut : cut ≤ (escape u).length + 1
        · have hlt : ¬ (escape u).length + 2 < cut + 1 := by omega
          simp [hcut, hlt]
        · obtain ⟨k, rfl⟩ := Nat.exists_eq_add_of_lt (Nat.lt_of_not_le hcut)
          have hk : (escape u).length + 1 + k + 1 - ((escape u).length + 1) = k + 1 := by omega
          have hr : (escape u).length + 1 + k + 1 + 1 -
              ((escape u).length + (escape v).length + 2 + 3) = k - ((escape v).length + 2) := by
            omega
          have ht : (34 :: (escape v ++ 34 :: listing lines)).take (k + 1) =
              34 :: lineTail v lines k := rfl
          rw [if_neg hcut, hk, ht, gcodeLoop_quote, readLine_eq_none aligned hidden hv, hr]
          have hlt : (escape u).length + 2 < (escape u).length + 1 + k + 1 + 1 := by omega
          simp only [hlt, true_and]
          refine or_congr_left ?_
          split_ifs <;> omega
      · have hc : closingHidden true line = true := by simp [closingHidden, hq]
        have hqe : 34 ∉ escape line := quote_mem_escape.not.mpr hq
        rw [lineTail, gcodeLoop_take hqe]
        simp only [LeftOpen, beginsAt_plain hq, hc, if_true, true_and]
        by_cases hcut : cut ≤ (escape line).length
        · have hlt : ¬ (escape line).length + 1 < cut + 1 := by omega
          simp [hcut, hlt]
        · obtain ⟨k, rfl⟩ := Nat.exists_eq_add_of_lt (Nat.lt_of_not_le hcut)
          have hk : (escape line).length + k + 1 - (escape line).length = k + 1 := by omega
          have hr : (escape line).length + k + 1 + 1 - ((escape line).length + 3) = k - 1 := by omega
          rw [if_neg hcut, hk, List.take_succ_cons, gcodeLoop_quote, readLine,
            overread_eq_none hidden, hr]
          have hlt : (escape line).length + 1 < (escape line).length + k + 1 + 1 := by omega
          simp only [hlt, true_and]
          exact or_congr_left (by omega)

-- The lines are read as they were written: no byte of them is escaped, and no limit of the reader is
-- exceeded.
structure GcodeFits (room cut : Nat) (lines : List CString) : Prop where
  count : lines.length ≤ room
  plain : ∀ line ∈ lines, Plain line
  short : ∀ line ∈ lines, line.length < 256
  total : (lines.map (·.length + 3)).sum ≤ cut

theorem endsEscaped_of_plain {line : CString} (h : Plain line) : endsEscaped false line = false := by
  rcases List.eq_nil_or_concat line with rfl | ⟨s, c, rfl⟩
  · rfl
  · have hc := (h c (by simp)).right
    rw [List.concat_eq_append, endsEscaped_append]
    simp [endsEscaped, hc]

theorem readLine_of_not_hidden {line : CString} {lines : List CString} {room cut : Nat}
    (hp : Visible line) (hc : (escape line).length < cut) (he : endsEscaped false line = false) :
    readLine room (lineTail line lines cut) =
      (gcodeLoop room ((listing lines).take (cut - ((escape line).length + 1)))).map
        (fit 256 (escape line) :: ·) := by
  have hq : ∀ text, scanLine false (34 :: text) = some ([], text) := fun _ => rfl
  rw [readLine, scanLine_lineTail hp, if_neg (Nat.not_le_of_lt hc), he, hq]
  simp

theorem readLine_inv {line : CString} {lines result : List CString} {room cut : Nat}
    (hp : Visible line) (he : endsEscaped false line = false)
    (h : readLine room (lineTail line lines cut) = some result) :
    (escape line).length < cut ∧ ∃ read,
      gcodeLoop room ((listing lines).take (cut - ((escape line).length + 1))) = some read ∧
      result = fit 256 (escape line) :: read := by
  by_cases hc : (escape line).length < cut
  · rw [readLine_of_not_hidden hp hc he, Option.map_eq_some_iff] at h
    obtain ⟨read, hread, rfl⟩ := h
    exact ⟨hc, read, hread, rfl⟩
  · rw [readLine, scanLine_lineTail hp, if_pos (Nat.le_of_not_lt hc)] at h
    contradiction

theorem GcodeFits.gcodeLoop_eq {lines : List CString} {room cut : Nat}
    (h : GcodeFits room cut lines) (hp : ∀ line ∈ lines, Visible line) :
    gcodeLoop room ((listing lines).take cut) = some lines := by
  induction lines generalizing room cut
  case nil =>
    have h := @gcodeLoop_take room cut [93] [] (by decide)
    rw [listing, ← List.append_nil [93], h, List.take_nil, gcodeLoop_nil, ite_self]
  case cons line lines hi =>
    have hpl := hp line List.mem_cons_self
    have hplain := h.plain line List.mem_cons_self
    have htotal := h.total
    have hcount := h.count
    simp only [List.map_cons, List.sum_cons, List.length_cons] at htotal hcount
    obtain ⟨room, rfl⟩ : ∃ r, room = r + 1 := ⟨room - 1, by omega⟩
    obtain ⟨cut, rfl⟩ : ∃ k, cut = k + 2 := ⟨cut - 2, by omega⟩
    have hl : (listing (line :: lines)).take (cut + 2) = 44 :: 34 :: lineTail line lines cut := rfl
    have he := hplain.escape_eq hpl
    have hlt : (escape line).length < cut := by
      rw [he]
      omega
    rw [hl, gcodeLoop_skip (by decide), gcodeLoop_quote,
      readLine_of_not_hidden hpl hlt (endsEscaped_of_plain hplain), he,
      fit_of_length_lt (h.short line List.mem_cons_self), hi _ fun l hl => hp l (.tail _ hl)]
    · rfl
    · refine ⟨by omega, fun l hl => h.plain l (.tail _ hl), fun l hl => h.short l (.tail _ hl), ?_⟩
      omega

-- Everything in front of which a backslash too many is read is a backslash.
theorem backslashes_of_take {line : CString} {k : Nat}
    (h : line <+: List.replicate (k + 1) 92 ++ escape line) : ∀ c ∈ line, c = 92 := by
  induction line generalizing k
  case nil => exact fun _ hc => absurd hc List.not_mem_nil
  case cons c line hi =>
    rw [List.replicate_succ, List.cons_append, List.cons_prefix_cons] at h
    obtain ⟨rfl, h⟩ := h
    have hs : List.replicate k 92 ++ escape (92 :: line) =
        List.replicate (k + 2) 92 ++ escape line := by
      rw [escape_cons, escapeByte_special (.inr rfl), List.replicate_add]
      simp
    rw [hs] at h
    intro d hd
    rcases List.mem_cons.mp hd with rfl | hd
    · rfl
    · exact hi h d hd

-- A line that is read back with the backslashes in it can agree with what was written only if it
-- ends in backslashes.
theorem plain_of_prefix {line : CString} (hp : Visible line) (h : line <+: escape line)
    (he : endsEscaped false line = false) : Plain line := by
  induction line
  case nil => exact fun _ hc => absurd hc List.not_mem_nil
  case cons c line hi =>
    by_cases hc : c = 34 ∨ c = 92
    · rw [escape_cons, escapeByte_special hc, List.cons_append, List.cons_prefix_cons] at h
      obtain ⟨rfl, h⟩ := h
      have hall := @backslashes_of_take line 0 h
      rcases List.eq_nil_or_concat line with rfl | ⟨s, d, rfl⟩
      · contradiction
      · rw [List.concat_eq_append] at he hall
        rw [hall d (by simp), ← List.cons_append, endsEscaped_append] at he
        contradiction
    · simp only [not_or] at hc
      rw [escape_cons, escapeByte_plain hc.left hc.right hp.head, List.cons_append,
        List.cons_prefix_cons] at h
      have hline : endsEscaped false line = false := by
        rwa [endsEscaped, beq_eq_false_iff_ne.mpr hc.right] at he
      intro d hd
      rcases List.mem_cons.mp hd with rfl | hd
      · exact hc
      · exact hi hp.tail h.right hline d hd

-- The part of a line behind its first quote is never read as the whole line. By induction on that
-- part: its own first quote would have to stand for the one in front of it.
theorem not_prefix_behind_quote {u v text : CString} (hu : 34 ∉ u)
    (ht : text = [] ∨ text = [34, 44] ∧ endsEscaped false v) :
    ¬ u ++ 34 :: v <+: escape v ++ text := by
  induction hn : v.length using Nat.strongRecOn generalizing u v
  case ind n hi =>
    rintro ⟨w, hw⟩
    rw [List.append_assoc, List.cons_append] at hw
    by_cases hv : 34 ∈ v
    · obtain ⟨u', v', rfl, hu'⟩ := List.eq_append_cons_of_mem hv
      have hw' : u ++ 34 :: ((u' ++ 34 :: v') ++ w) =
          (escape u' ++ [92]) ++ 34 :: (escape v' ++ text) := by
        rw [hw, escape_split, List.append_assoc (_ ++ _), List.cons_append]
      have ⟨_, hs⟩ := first_quote hu (quote_notMem_escape_snoc hu') hw'
      have hlt : v'.length < n := by
        rw [← hn, List.length_append, List.length_cons]
        omega
      have ht' := ht.imp id (And.imp id fun he => endsEscaped_append ▸ he)
      exact hi _ hlt hu' ht' rfl ⟨w, hs⟩
    · have hq : 34 ∉ escape v := quote_mem_escape.not.mpr hv
      rcases ht with rfl | ⟨rfl, he⟩
      · have hm : 34 ∈ escape v ++ [] := hw ▸ by simp
        simp [hq] at hm
      · have ⟨_, hs⟩ := first_quote hu hq hw
        rcases v with _ | ⟨c, _ | ⟨d, v⟩⟩
        · contradiction
        · obtain ⟨rfl, _⟩ := List.cons.inj hs
          contradiction
        · simp at hs

theorem readLine_of_hidden {line : CString} {lines : List CString} {room cut : Nat}
    {result : List CString} (hp : Visible line) (he : endsEscaped false line)
    (h : readLine room (lineTail line lines cut) = some result) :
    ∃ next rest cut' read, lines = next :: rest ∧
      gcodeLoop room (lineTail next rest cut') = some read ∧
      result = fit 256 (escape line ++ [34, 44]) :: read := by
  have hq : ∀ text, scanLine true (34 :: text) =
      (scanLine false text).map fun p => (34 :: p.1, p.2) := fun _ => rfl
  rw [readLine, scanLine_lineTail hp, he, hq, scanLine_listing] at h
  split_ifs at h with hc
  · contradiction
  · split at h
    · simp only [Option.map_some, Option.bind_some, Option.map_eq_some_iff] at h
      obtain ⟨read, hread, rfl⟩ := h
      exact ⟨_, _, _, read, rfl, hread, rfl⟩
    · contradiction

theorem lineTail_split {u v : CString} {lines : List CString} {cut : Nat} :
    lineTail (u ++ 34 :: v) lines cut =
      ((escape u ++ [92]) ++ 34 :: (escape v ++ 34 :: listing lines)).take cut := by
  rw [lineTail, escape_split]
  simp

theorem prefix_of_fit {s t : CString} {size : Nat} (h : fit size s = t) : t <+: s :=
  h ▸ List.take_prefix _ _

theorem readLine_behind_quote_ne {u v : CString} {lines rest : List CString} {room cut : Nat}
    (hu : 34 ∉ u) (hv : Visible v) :
    readLine room (lineTail v lines cut) ≠ some ((u ++ 34 :: v) :: rest) := by
  intro h
  cases he : endsEscaped false v
  case true =>
    obtain ⟨_, _, _, _, _, _, hr⟩ := readLine_of_hidden hv he h
    have hpre := prefix_of_fit (List.cons.inj hr).left.symm
    exact not_prefix_behind_quote hu (.inr ⟨rfl, he⟩) hpre
  case false =>
    obtain ⟨_, _, _, hr⟩ := readLine_inv hv he h
    have hpre := prefix_of_fit (List.cons.inj hr).left.symm
    rw [← List.append_nil (escape v)] at hpre
    exact not_prefix_behind_quote hu (.inl rfl) hpre

-- Once the loop has used up the opening quote of a line, it can find the line again only as the comma
-- in front of the next line, whose opening quote is then used up as well.
theorem gcodeLoop_lineTail_inv {line : CString} {lines : List CString} {room cut : Nat}
    (hp : Visible line) (h : gcodeLoop room (lineTail line lines cut) = some (line :: lines)) :
    ∃ next rest room' cut', lines = next :: rest ∧
      gcodeLoop room' (lineTail next rest cut') = some lines := by
  rcases room with _ | room
  · simp [gcodeLoop] at h
  by_cases hq : 34 ∈ line
  · obtain ⟨u, v, rfl, hu⟩ := List.eq_append_cons_of_mem hq
    rw [lineTail_split, gcodeLoop_take (quote_notMem_escape_snoc hu)] at h
    split_ifs at h with hc
    · simp at h
    · obtain ⟨k, hk⟩ := Nat.exists_eq_add_of_lt (Nat.lt_of_not_le hc)
      have hk' : cut - (escape u ++ [92]).length = k + 1 := by omega
      rw [hk', List.take_succ_cons, gcodeLoop_quote] at h
      exact absurd h (readLine_behind_quote_ne hu hp.suffix.tail)
  · rw [lineTail, gcodeLoop_take (quote_mem_escape.not.mpr hq)] at h
    split_ifs at h with hc
    · simp at h
    · obtain ⟨k, hk⟩ := Nat.exists_eq_add_of_lt (Nat.lt_of_not_le hc)
      have hk' : cut - (escape line).length = k + 1 := by omega
      rw [hk', List.take_succ_cons, gcodeLoop_quote, readLine, scanLine_listing] at h
      split at h
      · simp only [Option.bind_some, Option.map_eq_some_iff] at h
        obtain ⟨read, hread, hr⟩ := h
        exact ⟨_, _, _, _, rfl, (List.cons.inj hr).right ▸ hread⟩
      · contradiction

theorem gcodeLoop_lineTail_ne {line : CString} {lines : List CString} {room cut : Nat}
    (hp : ∀ l ∈ line :: lines, Visible l) :
    gcodeLoop room (lineTail line lines cut) ≠ some (line :: lines) := by
  intro h
  induction lines generalizing line room cut
  case nil =>
    obtain ⟨_, _, _, _, hl, _⟩ := gcodeLoop_lineTail_inv (hp line List.mem_cons_self) h
    contradiction
  case cons next rest hi =>
    obtain ⟨_, _, _, _, hl, h⟩ := gcodeLoop_lineTail_inv (hp line List.mem_cons_self) h
    obtain ⟨rfl, rfl⟩ := List.cons.inj hl
    exact hi (fun l hl => hp l (.tail _ hl)) h

theorem GcodeFits.of_gcodeLoop {lines : List CString} {room cut : Nat}
    (hp : ∀ line ∈ lines, Visible line)
    (h : gcodeLoop room ((listing lines).take cut) = some lines) : GcodeFits room cut lines := by
  induction lines generalizing room cut
  case nil => exact ⟨Nat.zero_le _, by simp, by simp, by simp⟩
  case cons line lines hi =>
    have hpl := hp line List.mem_cons_self
    rcases room with _ | room
    · simp [gcodeLoop] at h
    rcases cut with _ | _ | cut
    · simp [gcodeLoop_nil] at h
    · simp [listing, gcodeLoop_skip, gcodeLoop_nil] at h
    have hl : (listing (line :: lines)).take (cut + 2) = 44 :: 34 :: lineTail line lines cut := rfl
    rw [hl, gcodeLoop_skip (by decide), gcodeLoop_quote] at h
    cases he : endsEscaped false line
    case true =>
      obtain ⟨next, rest, _, read, rfl, hread, hr⟩ := readLine_of_hidden hpl he h
      obtain ⟨_, rfl⟩ := List.cons.inj hr
      exact absurd hread (gcodeLoop_lineTail_ne fun l hl => hp l (.tail _ hl))
    case false =>
      obtain ⟨hc, read, hread, hr⟩ := readLine_inv hpl he h
      obtain ⟨hline, rfl⟩ := List.cons.inj hr
      have hplain := plain_of_prefix hpl (prefix_of_fit hline.symm) he
      have hshort : line.length < 256 := by
        rw [hline]
        exact fit_length_lt _ (by decide)
      have hf := hi (fun l hl => hp l (.tail _ hl)) hread
      rw [hplain.escape_eq hpl] at hc hf
      have htotal := hf.total
      refine ⟨Nat.succ_le_succ hf.count, ?_, ?_, ?_⟩
      · exact List.forall_mem_cons.mpr ⟨hplain, hf.plain⟩
      · exact List.forall_mem_cons.mpr ⟨hshort, hf.short⟩
      · simp only [List.map_cons, List.sum_cons]
        omega

theorem gcodeLoop_listing_ne_nil {lines : List CString} {room cut : Nat} (h : lines ≠ []) :
    gcodeLoop (room + 1) ((listing lines).take (cut + 2)) ≠ some [] := by
  rcases lines with _ | ⟨line, lines⟩
  · contradiction
  · have hl : (listing (line :: lines)).take (cut + 2) = 44 :: 34 :: lineTail line lines cut := rfl
    rw [hl, gcodeLoop_skip (by decide), gcodeLoop_quote, readLine]
    simp [Option.bind_eq_some_iff]

theorem parseGcodeArray_listing {lines : List CString} (h : lines ≠ []) :
    parseGcodeArray (91 :: ((listing lines).drop 1).take 510) =
      gcodeLoop 16 ((listing lines).take 511) := by
  have hl : (listing lines).take 511 = 44 :: ((listing lines).drop 1).take 510 := by
    rcases lines with _ | ⟨line, lines⟩
    · contradiction
    · rfl
  have hne := @gcodeLoop_listing_ne_nil lines 15 509 h
  rw [parseGcodeArray, maxCommands, gcodeLoop_skip (by decide)]
  rw [hl, gcodeLoop_skip (by decide)] at hne ⊢
  rcases hr : gcodeLoop 16 (((listing lines).drop 1).take 510) with _ | _ | ⟨line, read⟩
  · rfl
  · exact absurd hr hne
  · rfl

-- Parsing a frame fails, or gives a GCODE command with exactly these lines.
def GcodeRoundTrips (lines : List CString) (frame : CString) : Prop :=
  ∀ command, parse frame = some command → command.kind = .gcode ∧ command.gcode = lines

theorem gcode_round_trips_iff {lines : List CString} {size : Nat} {frame : CString}
    (hp : ∀ line ∈ lines, Printable line) (h : formatGcode lines size = some frame) :
    GcodeRoundTrips lines frame ↔ GcodeFits 16 511 lines ∨ LeftOpen 16 510 false lines := by
  obtain ⟨hne, rfl⟩ := formatGcode_eq_some h
  replace hp := fun line hl => (hp line hl).visible
  have hopen := (gcodeLoop_eq_none hp).left 16 511
  rw [GcodeRoundTrips, parse_gcode, parseGcodeArray_listing hne]
  constructor
  · intro ht
    cases hr : gcodeLoop 16 ((listing lines).take 511)
    case none => exact .inr (hopen.mp hr)
    case some read =>
      rw [hr] at ht
      have hl := (ht _ rfl).right
      exact .inl (.of_gcodeLoop hp (hr.trans (congrArg some hl)))
  · rintro (hf | ho) command hc
    · rw [hf.gcodeLoop_eq hp] at hc
      injection hc with hc
      exact hc ▸ ⟨rfl, rfl⟩
    · rw [hopen.mpr ho] at hc
      contradiction

theorem gcode_round_trips_homing :
    formatGcode ["G28 X Y", "M104 S210"] 64 = some "GCODE<[\"G28 X Y\",\"M104 S210\"]" ∧
      (GcodeRoundTrips ["G28 X Y", "M104 S210"] "GCODE<[\"G28 X Y\",\"M104 S210\"]" ↔
        GcodeFits 16 511 ["G28 X Y", "M104 S210"] ∨
          LeftOpen 16 510 false ["G28 X Y", "M104 S210"]) :=
  have h : formatGcode ["G28 X Y", "M104 S210"] 64 = some "GCODE<[\"G28 X Y\",\"M104 S210\"]" := by
    decide +kernel
  ⟨h, gcode_round_trips_iff (by decide +kernel) h⟩

-- The backslashes that `deneb_command_format_gcode` puts in front of quotes stay in the line.
theorem gcode_message_not_round_trips :
    ∃ frame, formatGcode ["M117 \"hi\""] 64 = some frame ∧
      Printable "M117 \"hi\"" ∧ ¬ GcodeRoundTrips ["M117 \"hi\""] frame := by
  refine ⟨_, rfl, by decide +kernel, fun h => ?_⟩
  have hc := (h _ rfl).right
  revert hc
  decide +kernel

end Deneb.Command
