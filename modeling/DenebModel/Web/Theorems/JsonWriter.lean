import DenebModel.Primitives.JsonValue
import DenebModel.Web.JsonWriter

namespace Deneb.JsonWriter

open CString JsonText BinaryFloat

-- What is written by nested calls. A text that is written as it is stands for a value.
inductive Written : Kind → Type
  | str (s : CString) : Written .value
  | int (n : Int64) : Written .value
  | float (x : BinaryFloat) : Written .value
  | bool (b : Bool) : Written .value
  | null : Written .value
  | raw (t : CString) (v : Value .value) (valid : Stands v t) : Written .value
  | arr (es : Written .elements) : Written .value
  | obj (ms : Written .members) : Written .value
  | noElements : Written .elements
  | element (x : Written .value) (es : Written .elements) : Written .elements
  | noMembers : Written .members
  | member (key : CString) (x : Written .value) (ms : Written .members) : Written .members

-- A call that writes a whole member, and one that writes a whole element.
inductive Call.Member : Call → CString → Written .value → Prop
  | str (key val) : Member (.str key val) key (.str (val.getD []))
  | int (key val) : Member (.int key val) key (.int val)
  | float (key val) : Member (.float key val) key (.float val)
  | bool (key val) : Member (.bool key val) key (.bool (val ≠ 0))
  | null (key) : Member (.null key) key .null
  | raw (key) (valid : Stands v t) : Member (.raw key t) key (.raw t v valid)

inductive Call.Element : Call → Written .value → Prop
  | str (val) : Element (.arrStr val) (.str (val.getD []))
  | int (val) : Element (.arrInt val) (.int val)
  | float (val) : Element (.arrFloat val) (.float val)

-- The calls that write a value, the elements of an array, or the members of an object.
inductive Nested : {k : Kind} → Written k → List Call → Prop
  | single : call.Element x → Nested x [call]
  | arr : Nested es calls → Nested (.arr es) (.arrOpen :: (calls ++ [.arrClose]))
  | obj : Nested ms calls → Nested (.obj ms) (.objOpen :: (calls ++ [.objClose]))
  | noElements : Nested .noElements []
  | element : Nested x calls → Nested es calls' → Nested (.element x es) (calls ++ calls')
  | noMembers : Nested .noMembers []
  | member : call.Member key x → Nested ms calls → Nested (.member key x ms) (call :: calls)
  | key (key) :
    Nested x calls → Nested ms calls' → Nested (.member key x ms) (.key key :: (calls ++ calls'))

-- The calls for a whole text, which may also be a bare string.
inductive Whole : Written .value → List Call → Prop
  | nested : Nested x calls → Whole x calls
  | bare (val) : Whole (.str (val.getD [])) [.bareStr val]

def lead (comma : Bool) : CString :=
  if comma then [44] else []

def quote (s : CString) : CString :=
  34 :: (s.flatMap escaped ++ [34])

namespace Written

-- The bytes that are written, behind something else or not.
def bytes (comma : Bool) : {k : Kind} → Written k → CString
  | _, str s           => lead comma ++ quote s
  | _, int n           => lead comma ++ integerText n
  | _, float x         => lead comma ++ floatText x
  | _, bool b          => lead comma ++ if b then "true" else "false"
  | _, null            => lead comma ++ "null"
  | _, raw t _ _       => lead comma ++ t
  | _, arr es          => lead comma ++ 91 :: (es.bytes false ++ [93])
  | _, obj ms          => lead comma ++ 123 :: (ms.bytes false ++ [125])
  | _, noElements      => []
  | _, element x es    => x.bytes comma ++ es.bytes true
  | _, noMembers       => []
  | _, member key x ms => lead comma ++ quote key ++ 58 :: (x.bytes false ++ ms.bytes true)

def isEmpty : {k : Kind} → Written k → Bool
  | _, noElements | _, noMembers => true
  | _, _                         => false

end Written

-- From one writer to another these bytes were put, as far as the buffer has room for them.
structure Wrote (w : JsonWriter) (s : CString) (comma : Bool) (levels : Int) (w' : JsonWriter) :
    Prop where
  buf       : w.buf.length ≤ w.cap - 1 → w'.buf = (w.buf ++ s).take (w.cap - 1)
  cap       : w'.cap = w.cap
  needComma : w'.needComma = comma
  depth     : w'.depth = w.depth + levels

section

variable {w w' w'' : JsonWriter} {k : Kind} {calls : List Call} {call : Call} {s t key : CString}
variable {c c' : Bool} {d d' : Int}

theorem Wrote.trans (h : Wrote w s c d w') (h' : Wrote w' t c' d' w'') : Wrote w (s ++ t) c' (d + d') w'' where
  buf hb := by
    have first := h.buf hb
    have second := h'.buf (by rw [first, h.cap, List.length_take]; exact Nat.min_le_left _ _)
    have room : w.cap - 1 - min (w.cap - 1) (w.buf ++ s).length = w.cap - 1 - (w.buf ++ s).length := by omega
    rw [second, first, h.cap, ← List.append_assoc, List.take_append, List.take_take, Nat.min_self,
      List.length_take, room, ← List.take_append]
  cap       := h'.cap.trans h.cap
  needComma := h'.needComma
  depth     := by rw [h'.depth, h.depth, Int.add_assoc]

theorem wrote_put {b : UInt8} : Wrote w [b] w.needComma 0 (w.put b) := by
  unfold put
  split
  case isTrue h =>
    refine ⟨fun _ => ?_, rfl, rfl, (Int.add_zero _).symm⟩
    exact (List.take_of_length_le (by rw [List.length_append, List.length_singleton]; omega)).symm
  case isFalse h =>
    refine ⟨fun hb => ?_, rfl, rfl, (Int.add_zero _).symm⟩
    rw [List.take_append_of_le_length (by omega), List.take_of_length_le hb]

theorem wrote_puts : Wrote w s w.needComma 0 (w.puts s) := by
  induction s generalizing w
  case nil =>
    refine ⟨fun hb => ?_, rfl, rfl, (Int.add_zero _).symm⟩
    rw [List.append_nil, List.take_of_length_le hb]
    rfl
  case cons b s ih =>
    have first := @wrote_put w b
    have rest := @ih (w.put b)
    rw [first.needComma] at rest
    exact first.trans rest

theorem wrote_comma : Wrote w (lead w.needComma) true 0 w.comma := by
  unfold comma lead
  split
  case isTrue =>
    have put := @wrote_put w 44
    exact ⟨put.buf, put.cap, rfl, put.depth⟩
  case isFalse =>
    have put := @wrote_puts w []
    exact ⟨put.buf, put.cap, rfl, put.depth⟩

theorem wrote_escaped : Wrote w (quote s) w.needComma 0 (w.writeEscapedStr s) := by
  have bytes {w : JsonWriter} :
      Wrote w (s.flatMap escaped) w.needComma 0 (s.foldl (fun w c => w.puts (escaped c)) w) := by
    induction s generalizing w
    case nil => exact wrote_puts
    case cons b s ih =>
      have first := @wrote_puts w (escaped b)
      have rest := @ih (w.puts (escaped b))
      rw [first.needComma] at rest
      exact first.trans rest
  have first := @wrote_put w 34
  have middle := @bytes (w.put 34)
  rw [first.needComma] at middle
  have last := @wrote_put (s.foldl (fun w c => w.puts (escaped c)) (w.put 34)) 34
  rw [middle.needComma] at last
  exact first.trans (middle.trans last)

theorem wrote_key : Wrote w (lead w.needComma ++ (quote key ++ [58])) true 0 (w.writeKey key) := by
  have comma := @wrote_comma w
  have name := @wrote_escaped w.comma key
  have colon := @wrote_put (w.comma.writeEscapedStr key) 58
  rw [name.needComma] at colon
  rw [comma.needComma] at name colon
  exact comma.trans (name.trans colon)

theorem Call.Member.wrote {x : Written .value} (h : call.Member key x) :
    Wrote w (lead w.needComma ++ (quote key ++ 58 :: x.bytes false)) true 0 (w.step call) := by
  have name := @wrote_key w key
  have whole {s : CString} {w' : JsonWriter} (h : Wrote (w.writeKey key) s (w.writeKey key).needComma 0 w') :
      Wrote w (lead w.needComma ++ (quote key ++ 58 :: s)) true 0 w' := by
    rw [name.needComma] at h
    have wrote := name.trans h
    rw [List.append_assoc, List.append_assoc] at wrote
    exact wrote
  cases h
  case str            => exact whole wrote_escaped
  case int            => exact whole wrote_puts
  case float          => exact whole wrote_puts
  case bool val       =>
    have same : (Written.bool (val ≠ 0)).bytes false = if val ≠ 0 then ("true" : CString) else "false" := by
      simp [Written.bytes, lead, apply_ite ofString]
    rw [same]
    exact whole wrote_puts
  case null           => exact whole wrote_puts
  case raw            => exact whole wrote_puts

theorem Call.Element.wrote {x : Written .value} (h : call.Element x) :
    Wrote w (x.bytes w.needComma) true 0 (w.step call) := by
  have comma := @wrote_comma w
  have whole {s : CString} {w' : JsonWriter} (h : Wrote w.comma s w.comma.needComma 0 w') :
      Wrote w (lead w.needComma ++ s) true 0 w' := by
    rw [comma.needComma] at h
    exact comma.trans h
  cases h
  case str   => exact whole wrote_escaped
  case int   => exact whole wrote_puts
  case float => exact whole wrote_puts

theorem wrote_opened {b : UInt8} : Wrote w (lead w.needComma ++ [b]) false 1 (w.opened b) := by
  have comma := @wrote_comma w
  have put := comma.trans (@wrote_put w.comma b)
  refine ⟨put.buf, put.cap, rfl, ?_⟩
  show (w.comma.put b).depth + 1 = w.depth + 1
  rw [put.depth, Int.add_zero, Int.add_zero]

theorem wrote_closed {b : UInt8} : Wrote w [b] true (-1) (w.closed b) := by
  have put := @wrote_put w b
  refine ⟨put.buf, put.cap, rfl, ?_⟩
  show (w.put b).depth - 1 = w.depth + -1
  rw [put.depth, Int.add_zero, Int.sub_eq_add_neg]

theorem run_append {calls' : List Call} : w.run (calls ++ calls') = (w.run calls).run calls' :=
  List.foldl_append

theorem isEmpty_value {x : Written .value} : x.isEmpty = false := by
  cases x <;> rfl

theorem wrote_name : Wrote w (lead w.needComma ++ (quote key ++ [58])) false 0 (w.step (.key key)) := by
  have name := @wrote_key w key
  exact ⟨name.buf, name.cap, rfl, name.depth⟩

theorem wrote_enclosed {a b : UInt8} (h : Wrote (w.opened a) s c 0 w') :
    Wrote w (lead w.needComma ++ a :: (s ++ [b])) true 0 (w'.closed b) := by
  have wrote := wrote_opened.trans (h.trans (@wrote_closed w' b))
  rw [List.append_assoc] at wrote
  exact wrote

-- By induction on the calls: the flag is set where a comma is due.
theorem Nested.wrote {x : Written k} (h : Nested x calls) :
    Wrote w (x.bytes w.needComma) (w.needComma || !x.isEmpty) 0 (w.run calls) := by
  have set {b : Bool} : (b || !false) = true := Bool.or_true b
  induction h generalizing w
  case single h =>
    rw [isEmpty_value, set]
    exact h.wrote
  case arr es calls _ ih =>
    have run : w.run (.arrOpen :: (calls ++ [.arrClose])) = ((w.opened 91).run calls).closed 93 := by
      rw [← List.cons_append, run_append]
      rfl
    rw [isEmpty_value, set, run]
    exact wrote_enclosed ih
  case obj ms calls _ ih =>
    have run : w.run (.objOpen :: (calls ++ [.objClose])) = ((w.opened 123).run calls).closed 125 := by
      rw [← List.cons_append, run_append]
      rfl
    rw [isEmpty_value, set, run]
    exact wrote_enclosed ih
  case noElements => exact (Bool.or_false w.needComma).symm ▸ @wrote_puts w []
  case noMembers  => exact (Bool.or_false w.needComma).symm ▸ @wrote_puts w []
  case element x calls es calls' _ _ ih ih' =>
    have first := @ih w
    have rest := @ih' (w.run calls)
    rw [isEmpty_value, set] at first
    rw [first.needComma, Bool.true_or] at rest
    rw [run_append]
    show Wrote w _ (w.needComma || !false) 0 _
    rw [set]
    exact first.trans rest
  case member call h _ ih =>
    have first := h.wrote (w := w)
    have rest := ih (w := w.step call)
    rw [first.needComma, Bool.true_or] at rest
    have wrote := first.trans rest
    show Wrote w _ (w.needComma || !false) 0 ((w.step call).run _)
    rw [set]
    simpa only [Written.bytes, List.append_assoc, List.cons_append, Int.add_zero] using wrote
  case key x calls ms calls' key _ _ ih ih' =>
    have name := @wrote_name w key
    have value := @ih (w.step (.key key))
    have rest := @ih' ((w.step (.key key)).run calls)
    rw [name.needComma, isEmpty_value, set] at value
    rw [value.needComma, Bool.true_or] at rest
    have wrote := name.trans (value.trans rest)
    have run : w.run (.key key :: (calls ++ calls')) = ((w.step (.key key)).run calls).run calls' :=
      run_append
    rw [run]
    show Wrote w _ (w.needComma || !false) 0 _
    rw [set]
    simpa only [Written.bytes, List.append_assoc, List.cons_append, List.nil_append, Int.add_zero] using wrote

-- The text of a whole, in a buffer with room for it and the terminator.
theorem Whole.buf_eq {x : Written .value} {cap : Nat} (h : Whole x calls)
    (hc : (x.bytes false).length < cap) :
    ((init cap).run calls).buf = x.bytes false ∧ ((init cap).run calls).depth = 0 := by
  have wrote : ∃ c, Wrote (init cap) (x.bytes false) c 0 ((init cap).run calls) := by
    cases h
    case nested h => exact ⟨_, h.wrote⟩
    case bare val => exact ⟨_, wrote_escaped⟩
  obtain ⟨c, wrote⟩ := wrote
  refine ⟨?_, wrote.depth⟩
  rw [wrote.buf (Nat.zero_le _)]
  exact List.take_of_length_le (Nat.le_sub_one_of_lt hc)

end
end Deneb.JsonWriter
