import DenebModel.Primitives.CString
import DenebModel.Primitives.Occurrence

-- `web/src/api_cluster.c`
namespace Deneb.Cluster

open CString Occurrence

-- `json_member_value_end`: whether a comma is consumed behind the value, and what is behind it.
def memberValueEnd : (depth : Nat) → (inString escape : Bool) → CString → Bool × CString
  | _, _, _, [] => (false, [])
  | depth, true, true, _ :: p => memberValueEnd depth true false p
  | depth, true, false, c :: p =>
    if c = 92 then memberValueEnd depth true true p
    else if c = 34 then memberValueEnd depth false false p
    else memberValueEnd depth true false p
  | depth, false, escape, c :: p =>
    if c = 34 then memberValueEnd depth true escape p
    else if c = 123 ∨ c = 91 then memberValueEnd (depth + 1) false escape p
    else if c = 125 ∨ c = 93 then
      match depth with
      | 0         => (false, c :: p)
      | depth + 1 => memberValueEnd depth false escape p
    else if c = 44 ∧ depth = 0 then (true, p)
    else memberValueEnd depth false escape p

-- A blank of the texts that are removed in front of a last member.
def isBlank (c : UInt8) : Bool :=
  c == 32 || c == 10 || c == 13 || c == 9

-- The blanks at the end of the text are removed, and then one comma.
def dropComma (front : CString) : CString :=
  match front.reverse.dropWhile isBlank with
  | 44 :: cs => cs.reverse
  | cs       => cs.reverse

def pattern (key : CString) : CString :=
  34 :: (key ++ [34, 58])

-- One round of the loop of `json_remove_member`.
def removeRound (json key : CString) : Option CString :=
  match index (pattern key) json with
  | none       => none
  | some field =>
    let start := json.take field
    match memberValueEnd 0 false false (json.drop (field + (pattern key).length)) with
    | (true, last)  => some (start ++ last)
    | (false, last) => some (dropComma start ++ last)

-- The loop, with a bound on its rounds.
def removeRounds : Nat → CString → CString → Option CString
  | 0, _, _             => none
  | rounds + 1, json, key =>
    match removeRound json key with
    | none      => some json
    | some json => removeRounds rounds json key

-- `json_remove_member`; there is no result if the loop does not end within the rounds.
def removeMember (rounds : Nat) (json key : CString) : Option CString :=
  if key.length + 4 ≥ 64 then some json
  else removeRounds rounds json key

end Deneb.Cluster
