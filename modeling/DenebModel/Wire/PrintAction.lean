import DenebModel.Primitives.CString

-- `common/print/print_action_rules.c`
namespace Deneb.PrintAction

open CString

-- What a parse leaves in the buffer of the caller: nothing of use, an action, or whatever a copy of
-- `(size_t)-1` bytes leaves behind.
inductive Parsed
  | fail
  | overrun
  | ok (action : CString)
  deriving DecidableEq

def isQuote (c : UInt8) : Bool :=
  c == 34 || c == 39

-- A text that begins and ends with the same quote, which may be one and the same byte.
def isEnclosed (text : CString) : Bool :=
  match text.head? with
  | none   => false
  | some c => isQuote c && text.getLast? == some c

def trim (text : CString) : CString :=
  trimRight (skipSpaces text)

-- `normalize_action_value`. A single quote is taken off at both ends, so that the length wraps.
def normalizeActionValue (action : CString) : Parsed :=
  let text := trim action
  if isEnclosed text then
    if text.length = 1 then .overrun else .ok ((text.drop 1).dropLast.map toLower)
  else .ok (text.map toLower)

-- The end of `deneb_print_action_parse`.
def finishParse (out : CString) : Parsed :=
  match normalizeActionValue out with
  | .ok action => if action.isEmpty then .fail else .ok action
  | parsed     => parsed

-- `deneb_print_action_parse` into a buffer of `size` bytes.
def parse (body : CString) (size : Nat) : Parsed :=
  if size < 2 then .fail
  else
    match strstr body "\"action\"" with
    | some p =>
      match strchr (p.drop 8) 58 with
      | none   => .fail
      | some p =>
        match skipSpaces (p.drop 1) with
        | []         => .fail
        | quote :: p =>
          if !isQuote quote then .fail
          else
            let out := (p.takeWhile (· ≠ quote)).take (size - 1)
            if (p.drop out.length).head? ≠ some quote then .fail else finishParse out
    | none =>
      let p := body.dropWhile fun c => isSpace c || isQuote c
      let out := p.takeWhile fun c => !isSpace c && !isQuote c && c != 123 && c != 125
      finishParse (out.take (size - 1))

-- `deneb_print_action_parse_or_pending_default`
def parseOrPendingDefault (body : CString) (hasPendingJob : Bool) (size : Nat) : Parsed :=
  if size = 0 then .fail
  else
    match parse body size with
    | .fail => if !hasPendingJob || size ≤ 5 then .fail else .ok "print"
    | parsed => parsed

end Deneb.PrintAction
