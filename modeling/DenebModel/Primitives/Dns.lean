import DenebModel.Primitives.Octets

-- The messages of the domain name system, in which every name is written in full.
namespace Dns

open Octets

-- The labels of a name without the root.
abbrev Name := List Bytes

def Name.bytes (name : Name) : Bytes :=
  name.flatMap (fun label => label.length.toUInt8 :: label) ++ [0]

-- The labels with dots between them.
def Name.text : Name → Bytes
  | []                   => []
  | [label]              => label
  | label :: next :: name => label ++ 46 :: Name.text (next :: name)

inductive Data
  | a (address : Bytes)
  | ptr (name : Name)
  | txt (items : List Bytes)
  | srv (priority weight port : Nat) (target : Name)
  deriving DecidableEq

namespace Data

def type : Data → Nat
  | a ..   => 1
  | ptr .. => 12
  | txt .. => 16
  | srv .. => 33

def bytes : Data → Bytes
  | a address                       => address
  | ptr name                        => Name.bytes name
  | txt items                       => items.flatMap fun item => item.length.toUInt8 :: item
  | srv priority weight port target => be 2 priority ++ be 2 weight ++ be 2 port ++ Name.bytes target

end Data

structure Question where
  name  : Name
  type  : Nat
  klass : Nat
  deriving DecidableEq

def Question.bytes (q : Question) : Bytes :=
  Name.bytes q.name ++ be 2 q.type ++ be 2 q.klass

structure Record where
  name  : Name
  klass : Nat
  ttl   : Nat
  data  : Data
  deriving DecidableEq

def Record.bytes (r : Record) : Bytes :=
  Name.bytes r.name ++ be 2 r.data.type ++ be 2 r.klass ++ be 4 r.ttl ++
    be 2 r.data.bytes.length ++ r.data.bytes

structure Message where
  id          : Nat
  flags       : Nat
  questions   : List Question
  answers     : List Record
  authorities : List Record
  additionals : List Record
  deriving DecidableEq

def Message.bytes (m : Message) : Bytes :=
  be 2 m.id ++ be 2 m.flags ++
    be 2 m.questions.length ++ be 2 m.answers.length ++
    be 2 m.authorities.length ++ be 2 m.additionals.length ++
    m.questions.flatMap Question.bytes ++ m.answers.flatMap Record.bytes ++
    m.authorities.flatMap Record.bytes ++ m.additionals.flatMap Record.bytes

-- A reader takes what it reads off the front.
abbrev Reader (α : Type) := Bytes → Option (α × Bytes)

def readNumber (k : Nat) : Reader Nat := fun s =>
  if s.length < k then none else some (readBe (s.take k), s.drop k)

-- A byte string behind its length.
def readText : Reader Bytes
  | []     => none
  | n :: s => if s.length < n.toNat then none else some (s.take n.toNat, s.drop n.toNat)

-- The empty label ends a name.
def readLabels : Nat → Reader Name
  | 0, _        => none
  | fuel + 1, s => do
    let (label, s) ← readText s
    if label = [] then some ([], s)
    else if 63 < label.length then none
    else
      let (name, s) ← readLabels fuel s
      some (label :: name, s)

-- A name takes at most 255 bytes, and so does not have more labels than this.
def readName : Reader Name := fun s => do
  let (name, s) ← readLabels 128 s
  if 255 < (Name.bytes name).length then none else some (name, s)

def readTexts : Nat → Bytes → Option (List Bytes)
  | _, []         => some []
  | 0, _          => none
  | fuel + 1, s => do
    let (item, s) ← readText s
    let items ← readTexts fuel s
    some (item :: items)

-- The data of a record, all of which is read.
def readData (type : Nat) (s : Bytes) : Option Data :=
  if type = 1 then
    if s.length = 4 then some (.a s) else none
  else if type = 12 then do
    let (name, s) ← readName s
    if s = [] then some (.ptr name) else none
  else if type = 16 then do
    let items ← readTexts s.length s
    if items = [] then none else some (.txt items)
  else if type = 33 then do
    let (priority, s) ← readNumber 2 s
    let (weight, s) ← readNumber 2 s
    let (port, s) ← readNumber 2 s
    let (target, s) ← readName s
    if s = [] then some (.srv priority weight port target) else none
  else none

def readQuestion : Reader Question := fun s => do
  let (name, s) ← readName s
  let (type, s) ← readNumber 2 s
  let (klass, s) ← readNumber 2 s
  some ({ name, type, klass }, s)

def readRecord : Reader Record := fun s => do
  let (name, s) ← readName s
  let (type, s) ← readNumber 2 s
  let (klass, s) ← readNumber 2 s
  let (ttl, s) ← readNumber 4 s
  let (length, s) ← readNumber 2 s
  if s.length < length then none
  else
    let data ← readData type (s.take length)
    some ({ name, klass, ttl, data }, s.drop length)

def readList (read : Reader α) : Nat → Reader (List α)
  | 0, s     => some ([], s)
  | n + 1, s => do
    let (x, s) ← read s
    let (xs, s) ← readList read n s
    some (x :: xs, s)

def decode (s : Bytes) : Option Message := do
  let (id, s) ← readNumber 2 s
  let (flags, s) ← readNumber 2 s
  let (questionCount, s) ← readNumber 2 s
  let (answerCount, s) ← readNumber 2 s
  let (authorityCount, s) ← readNumber 2 s
  let (additionalCount, s) ← readNumber 2 s
  let (questions, s) ← readList readQuestion questionCount s
  let (answers, s) ← readList readRecord answerCount s
  let (authorities, s) ← readList readRecord authorityCount s
  let (additionals, s) ← readList readRecord additionalCount s
  if s = [] then some { id, flags, questions, answers, authorities, additionals } else none

-- What can be written: the numbers fit their fields, and the names their limits.
def Name.Ok (name : Name) : Prop :=
  (∀ label ∈ name, label ≠ [] ∧ label.length ≤ 63) ∧ (Name.bytes name).length ≤ 255

def Data.Ok : Data → Prop
  | a address                       => address.length = 4
  | ptr name                        => Name.Ok name
  | txt items                       => items ≠ [] ∧ ∀ item ∈ items, item.length ≤ 255
  | srv priority weight port target =>
    priority < 65536 ∧ weight < 65536 ∧ port < 65536 ∧ Name.Ok target

structure Question.Ok (q : Question) : Prop where
  name  : Name.Ok q.name
  type  : q.type < 65536
  klass : q.klass < 65536

structure Record.Ok (r : Record) : Prop where
  name   : Name.Ok r.name
  klass  : r.klass < 65536
  ttl    : r.ttl < 2 ^ 32
  data   : r.data.Ok
  length : r.data.bytes.length < 65536

structure Message.Ok (m : Message) : Prop where
  id          : m.id < 65536
  flags       : m.flags < 65536
  questions   : m.questions.length < 65536 ∧ ∀ q ∈ m.questions, q.Ok
  answers     : m.answers.length < 65536 ∧ ∀ r ∈ m.answers, r.Ok
  authorities : m.authorities.length < 65536 ∧ ∀ r ∈ m.authorities, r.Ok
  additionals : m.additionals.length < 65536 ∧ ∀ r ∈ m.additionals, r.Ok

section

variable {k n fuel : Nat} {text rest : Bytes} {name : Name} {items : List Bytes}

theorem readNumber_be (h : n < 256 ^ k) : readNumber k (be k n ++ rest) = some (n, rest) := by
  have hl : ¬(be k n ++ rest).length < k := by simp
  rw [readNumber, if_neg hl, List.take_left' length_be, List.drop_left' length_be, readBe_be h]

theorem readText_text (h : text.length ≤ 255) :
    readText (text.length.toUInt8 :: text ++ rest) = some (text, rest) := by
  have hn : text.length.toUInt8.toNat = text.length := Nat.mod_eq_of_lt (by omega)
  have hl : ¬(text ++ rest).length < text.length := by simp
  rw [List.cons_append, readText, hn, if_neg hl, List.take_left, List.drop_left]

theorem bytes_cons {label : Bytes} :
    Name.bytes (label :: name) = label.length.toUInt8 :: label ++ Name.bytes name := by
  simp [Name.bytes]

theorem length_lt_bytes (h : ∀ label ∈ name, label ≠ [] ∧ label.length ≤ 63) :
    2 * name.length < (Name.bytes name).length := by
  induction name
  case nil => decide
  case cons label name ih =>
    have := List.length_pos_iff.mpr (h label (.head _)).left
    have := ih fun label hm => h label (.tail _ hm)
    rw [bytes_cons]
    simp only [List.length_cons, List.length_append]
    omega

theorem readLabels_bytes (h : ∀ label ∈ name, label ≠ [] ∧ label.length ≤ 63) (hf : name.length < fuel) :
    readLabels fuel (Name.bytes name ++ rest) = some (name, rest) := by
  induction name generalizing fuel
  case nil =>
    cases fuel
    case zero => omega
    case succ => rfl
  case cons label name ih =>
    cases fuel
    case zero => omega
    case succ fuel =>
      have ⟨hn, hl⟩ := h label (.head _)
      have next := @ih fuel (fun label hm => h label (.tail _ hm)) (Nat.lt_of_succ_lt_succ hf)
      rw [bytes_cons, List.append_assoc, readLabels, readText_text (by omega)]
      simp [hn, show ¬63 < label.length by omega, next]

theorem readName_bytes (h : Name.Ok name) : readName (Name.bytes name ++ rest) = some (name, rest) := by
  have := length_lt_bytes h.left
  rw [readName, readLabels_bytes h.left (by have := h.right; omega)]
  simp [Nat.not_lt.mpr h.right]

theorem readTexts_bytes (h : ∀ item ∈ items, item.length ≤ 255) (hf : items.length ≤ fuel) :
    readTexts fuel (items.flatMap fun item => item.length.toUInt8 :: item) = some items := by
  induction items generalizing fuel
  case nil => cases fuel <;> rfl
  case cons item items ih =>
    cases fuel
    case zero => simp at hf
    case succ fuel =>
      have next := @ih fuel (fun item hm => h item (.tail _ hm)) (Nat.le_of_succ_le_succ hf)
      rw [List.flatMap_cons, readTexts, readText_text (h item (.head _))]
      · simp [next]
      · simp

theorem length_le_texts :
    items.length ≤ (items.flatMap fun item => item.length.toUInt8 :: item).length := by
  induction items
  case nil => exact Nat.le_refl _
  case cons item items ih =>
    rw [List.flatMap_cons, List.length_append, List.length_cons, List.length_cons]
    omega

theorem readData_bytes {data : Data} (h : data.Ok) : readData data.type data.bytes = some data := by
  cases data
  case a => exact if_pos h
  case ptr name =>
    have := @readName_bytes [] name h
    rw [List.append_nil] at this
    simp [readData, Data.type, Data.bytes, this]
  case txt items =>
    have := readTexts_bytes h.right length_le_texts
    simp only [readData, Data.type, Data.bytes, Nat.reduceEqDiff, if_false, if_true, this]
    exact if_neg h.left
  case srv priority weight port target =>
    obtain ⟨hp, hw, ho, ht⟩ := h
    have := @readName_bytes [] target ht
    rw [List.append_nil] at this
    simp [readData, Data.type, Data.bytes, readNumber_be (k := 2) hp, readNumber_be (k := 2) hw,
      readNumber_be (k := 2) ho, this]

theorem readQuestion_bytes {q : Question} (h : q.Ok) : readQuestion (q.bytes ++ rest) = some (q, rest) := by
  simp [readQuestion, Question.bytes, readName_bytes h.name, readNumber_be (k := 2) h.type,
    readNumber_be (k := 2) h.klass]

theorem type_lt {data : Data} : data.type < 256 ^ 2 := by
  cases data <;> simp [Data.type]

theorem readRecord_bytes {r : Record} (h : r.Ok) : readRecord (r.bytes ++ rest) = some (r, rest) := by
  simp [readRecord, Record.bytes, readName_bytes h.name, readNumber_be (k := 2) type_lt,
    readNumber_be (k := 2) h.klass, readNumber_be (k := 4) h.ttl, readNumber_be (k := 2) h.length,
    readData_bytes h.data]

theorem readList_bytes {α : Type} {read : Reader α} {bytes : α → Bytes} {xs : List α}
    (h : ∀ x ∈ xs, ∀ rest, read (bytes x ++ rest) = some (x, rest)) :
    readList read xs.length (xs.flatMap bytes ++ rest) = some (xs, rest) := by
  induction xs
  case nil => rfl
  case cons x xs ih =>
    have next := ih fun x hm => h x (.tail _ hm)
    rw [List.flatMap_cons, List.append_assoc, List.length_cons, readList, h x (.head _)]
    simp [next]

-- Every message that can be written is read as it was.
theorem decode_bytes {m : Message} (h : m.Ok) : decode m.bytes = some m := by
  have additionals := @readList_bytes [] _ readRecord Record.bytes m.additionals
    fun r hm rest => readRecord_bytes (h.additionals.right r hm)
  rw [List.append_nil] at additionals
  rw [decode, Message.bytes]
  simp only [List.append_assoc]
  -- One part after the other is read off the front.
  refine Option.bind_eq_some_iff.mpr ⟨_, readNumber_be (k := 2) h.id, ?_⟩
  refine Option.bind_eq_some_iff.mpr ⟨_, readNumber_be (k := 2) h.flags, ?_⟩
  refine Option.bind_eq_some_iff.mpr ⟨_, readNumber_be (k := 2) h.questions.left, ?_⟩
  refine Option.bind_eq_some_iff.mpr ⟨_, readNumber_be (k := 2) h.answers.left, ?_⟩
  refine Option.bind_eq_some_iff.mpr ⟨_, readNumber_be (k := 2) h.authorities.left, ?_⟩
  refine Option.bind_eq_some_iff.mpr ⟨_, readNumber_be (k := 2) h.additionals.left, ?_⟩
  refine Option.bind_eq_some_iff.mpr ⟨_,
    readList_bytes fun q hm rest => readQuestion_bytes (h.questions.right q hm), ?_⟩
  refine Option.bind_eq_some_iff.mpr ⟨_,
    readList_bytes fun r hm rest => readRecord_bytes (h.answers.right r hm), ?_⟩
  refine Option.bind_eq_some_iff.mpr ⟨_,
    readList_bytes fun r hm rest => readRecord_bytes (h.authorities.right r hm), ?_⟩
  exact Option.bind_eq_some_iff.mpr ⟨_, additionals, if_pos rfl⟩

end
end Dns
