import DenebModel.Primitives.JsonText

-- The trees of the JSON texts that have no white space between their tokens.
namespace JsonText

inductive Tree : Kind → Type
  | scalar (s : Bytes) : Tree .value
  | string (s : Bytes) : Tree .value
  | array (es : Tree .elements) : Tree .value
  | object (ms : Tree .members) : Tree .value
  | noElements : Tree .elements
  | element (v : Tree .value) (es : Tree .elements) : Tree .elements
  | noMembers : Tree .members
  | member (name : Bytes) (v : Tree .value) (ms : Tree .members) : Tree .members

-- A name comes with its colon.
inductive Token
  | raw (c : UInt8)
  | string (s : Bytes)
  | name (s : Bytes)
  deriving DecidableEq

def Token.bytes : Token → Bytes
  | raw c    => [c]
  | string s => 34 :: (s ++ [34])
  | name s   => 34 :: (s ++ [34, 58])

-- What a token has behind its closing quote.
def Token.after : Token → Option Bytes
  | raw _    => none
  | string _ => some []
  | name _   => some [58]

def Token.fill (s : Bytes) : Token → Token
  | raw c    => raw c
  | string _ => string s
  | name _   => name s

def bytes (ts : List Token) : Bytes :=
  ts.flatMap Token.bytes

-- The text from the end of a string to the beginning of the next one.
def Gap (s : Bytes) (ts : List Token) : Prop :=
  ∃ front tok back a, ts = front ++ tok :: back ∧ tok.after = some a ∧ s ++ [34] <+: a ++ bytes back

namespace Tree

variable {k : Kind}

-- The comma in front of what follows the first element or member.
def separated : List Token → List Token
  | [] => []
  | ts => .raw 44 :: ts

def tokens : {k : Kind} → Tree k → List Token
  | _, scalar s      => s.map .raw
  | _, string s      => [.string s]
  | _, array es      => .raw 91 :: (es.tokens ++ [.raw 93])
  | _, object ms     => .raw 123 :: (ms.tokens ++ [.raw 125])
  | _, noElements    => []
  | _, element v es  => v.tokens ++ separated es.tokens
  | _, noMembers     => []
  | _, member n v ms => .name n :: (v.tokens ++ separated ms.tokens)

def render (t : Tree k) : Bytes :=
  bytes t.tokens

-- No name of a member has an escape.
def WellFormed : {k : Kind} → Tree k → Prop
  | _, scalar s      => Number s ∨ s ∈ literals
  | _, string s      => ∃ v, Characters s v
  | _, array es      => es.WellFormed
  | _, object ms     => ms.WellFormed
  | _, noElements    => True
  | _, element v es  => v.WellFormed ∧ es.WellFormed
  | _, noMembers     => True
  | _, member n v ms => (∃ w, Characters n w) ∧ 92 ∉ n ∧ v.WellFormed ∧ ms.WellFormed

-- The tree without the members of a name, at every depth.
def remove (key : Bytes) : {k : Kind} → Tree k → Tree k
  | _, array es      => array (es.remove key)
  | _, object ms     => object (ms.remove key)
  | _, element v es  => element (v.remove key) (es.remove key)
  | _, member n v ms => if n = key then ms.remove key else member n (v.remove key) (ms.remove key)
  | _, t             => t

-- The tree without the first of these members.
def removeFirst (key : Bytes) : {k : Kind} → Tree k → Option (Tree k)
  | _, array es      => (es.removeFirst key).map array
  | _, object ms     => (ms.removeFirst key).map object
  | _, element v es  =>
    match v.removeFirst key with
    | some v => some (element v es)
    | none   => (es.removeFirst key).map (element v)
  | _, member n v ms =>
    if n = key then some ms
    else
      match v.removeFirst key with
      | some v => some (member n v ms)
      | none   => (ms.removeFirst key).map (member n v)
  | _, _             => none

-- The tree with another text in all its strings and names.
def fill (s : Bytes) : {k : Kind} → Tree k → Tree k
  | _, string _      => string s
  | _, array es      => array (es.fill s)
  | _, object ms     => object (ms.fill s)
  | _, element v es  => element (v.fill s) (es.fill s)
  | _, member _ v ms => member s (v.fill s) (ms.fill s)
  | _, t             => t

-- The text stands between two neighbouring strings of some tree.
def Separates (s : Bytes) : Prop :=
  ∃ t : Tree .value, t.WellFormed ∧ Gap s t.tokens

variable {key s : Bytes} {t t' : Tree k}

theorem remove_removeFirst (h : t.removeFirst key = some t') : t'.remove key = t.remove key := by
  induction t
  case scalar | string | noElements | noMembers => simp [removeFirst] at h
  case array es ih =>
    obtain ⟨es', he, rfl⟩ := Option.map_eq_some_iff.mp h
    rw [remove, remove, ih he]
  case object ms ih =>
    obtain ⟨ms', hm, rfl⟩ := Option.map_eq_some_iff.mp h
    rw [remove, remove, ih hm]
  case element v es ihv ihe =>
    rw [removeFirst] at h
    split at h
    case h_1 v' hv =>
      obtain rfl := Option.some.inj h
      rw [remove, remove, ihv hv]
    case h_2 =>
      obtain ⟨es', he, rfl⟩ := Option.map_eq_some_iff.mp h
      rw [remove, remove, ihe he]
  case member n v ms ihv ihm =>
    rw [removeFirst] at h
    split at h
    case isTrue hn =>
      obtain rfl := Option.some.inj h
      rw [remove, if_pos hn]
    case isFalse hn =>
      split at h
      case h_1 v' hv =>
        obtain rfl := Option.some.inj h
        rw [remove, remove, if_neg hn, if_neg hn, ihv hv]
      case h_2 =>
        obtain ⟨ms', hm, rfl⟩ := Option.map_eq_some_iff.mp h
        rw [remove, remove, if_neg hn, if_neg hn, ihm hm]

theorem remove_eq_self (h : t.removeFirst key = none) : t.remove key = t := by
  induction t
  case scalar | string | noElements | noMembers => rfl
  case array es ih  => rw [remove, ih (Option.map_eq_none_iff.mp h)]
  case object ms ih => rw [remove, ih (Option.map_eq_none_iff.mp h)]
  case element v es ihv ihe =>
    rw [removeFirst] at h
    split at h
    case h_1 => contradiction
    case h_2 hv => rw [remove, ihv hv, ihe (Option.map_eq_none_iff.mp h)]
  case member n v ms ihv ihm =>
    rw [removeFirst] at h
    split at h
    case isTrue => contradiction
    case isFalse hn =>
      split at h
      case h_1 => contradiction
      case h_2 hv => rw [remove, if_neg hn, ihv hv, ihm (Option.map_eq_none_iff.mp h)]

end Tree
end JsonText
