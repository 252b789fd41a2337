import DenebModel.Web.Http

-- `web/src/api_multipart.c`
namespace Deneb.Multipart

open CString Http Occurrence

-- `memmem`: what is in front of the first occurrence, and what starts with it.
def memmem (p s : List UInt8) : Option (List UInt8 × List UInt8) :=
  (index p s).map fun i => (s.take i, s.drop i)

-- `strcasestr`
def strcasestr (s p : CString) : Option CString :=
  (index (p.map toLower) ((cString s).map toLower)).map fun i => (cString s).drop i

def boundaryLine (boundary : CString) : CString :=
  fit 256 (ofString "--" ++ boundary)

-- The end of the line with the boundary.
def skipLineEnd : List UInt8 → List UInt8
  | 13 :: 10 :: rest => rest
  | 10 :: rest       => rest
  | rest             => rest

-- A part of the upload, and the data from the next boundary on.
structure Piece where
  headers : CString
  content : List UInt8
  next    : List UInt8

-- The common round of the two loops, up to what they make of the header.
def nextPiece (boundaryLine : CString) (data : List UInt8) : Option Piece := do
  let (_, part) ← memmem boundaryLine data
  let part := part.drop boundaryLine.length
  if startsWith part "--" then none
  else do
    let part := skipLineEnd part
    let (headers, content) ←
      match memmem [13, 10, 13, 10] part with
      | some (headers, rest) => some (headers, rest.drop 4)
      | none                 => (memmem [10, 10] part).map fun (headers, rest) => (headers, rest.drop 2)
    let (content, next) ← memmem boundaryLine content
    some { headers := cString headers, content, next }

-- The content without the line end in front of the boundary.
def stripLineEnd (content : List UInt8) : List UInt8 :=
  let content := if content.getLast? = some 10 then content.dropLast else content
  if content.getLast? = some 13 then content.dropLast else content

-- The header for the disposition with what follows it.
def disposition (headers : CString) : Option CString :=
  strcasestr headers "content-disposition:"

def firstLine (disp : CString) : CString :=
  match search [13, 10] disp with
  | some (line, _) => line
  | none           => disp.takeWhile (· != 10)

def isFilePart (disp : CString) : Bool :=
  (strcasestr disp "filename=\"").isSome || (strcasestr disp "name=\"file\"").isSome ||
    (strcasestr disp "name=file").isSome

-- The name of the file for an array of `size` bytes, which keeps what it has where there is none.
def filenameOf (disp filename : CString) (size : Nat) : CString :=
  match strcasestr disp "filename=\"" with
  | some fn =>
    let fn := fn.drop 10
    if 34 ∈ fn then fit size (fn.takeWhile (· != 34)) else filename
  | none =>
    match strcasestr disp "filename=" with
    | some fn => fit size ((fn.drop 9).takeWhile fun c => !(c == 59 || c == 32 || c == 9))
    | none    => filename

def fileLoop (boundaryLine : CString) (size : Nat) :
    Nat → CString → List UInt8 → Option (List UInt8 × CString)
  | 0, _, _                   => none
  | rounds + 1, filename, data =>
    match nextPiece boundaryLine data with
    | none       => none
    | some piece =>
      match disposition piece.headers with
      | none      => fileLoop boundaryLine size rounds filename piece.next
      | some disp =>
        let filename := filenameOf (firstLine disp) filename size
        if isFilePart (firstLine disp) then some (stripLineEnd piece.content, filename)
        else fileLoop boundaryLine size rounds filename piece.next

-- `extract_multipart_file`: the content of the file that it writes, and the name.
def extractFile (boundary : CString) (data : List UInt8) (size : Nat) : Option (List UInt8 × CString) :=
  if data.isEmpty then none
  else fileLoop (boundaryLine boundary) size (data.length + 1) [] data

-- `disposition_has_name`
def dispositionHasName (disp name : CString) : Bool :=
  if name.isEmpty then false
  else
    (strcasestr disp (fit 160 (ofString "name=\"" ++ name ++ "\""))).isSome ||
      (strcasestr disp (fit 160 (ofString "name=" ++ name))).isSome

def isField (headers name : CString) : Bool :=
  match disposition headers with
  | none      => false
  | some disp => (strcasestr disp "filename=").isNone && dispositionHasName disp name

def fieldLoop (boundaryLine name : CString) (size : Nat) : Nat → List UInt8 → Option CString
  | 0, _             => none
  | rounds + 1, data =>
    match nextPiece boundaryLine data with
    | none       => none
    | some piece =>
      if isField piece.headers name then some (fit size (stripLineEnd piece.content))
      else fieldLoop boundaryLine name size rounds piece.next

-- `extract_multipart_field`
def extractField (boundary : CString) (data : List UInt8) (name : CString) (size : Nat) : Option CString :=
  if size = 0 ∨ data.isEmpty then none
  else fieldLoop (boundaryLine boundary) name size (data.length + 1) data

end Deneb.Multipart
