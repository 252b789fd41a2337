import DenebModel.Primitives.CString
import DenebModel.Primitives.Octets
import DenebModel.Files.Png

-- `common/print/print_job_file.c`: the pictures that are members of a job's archive.
namespace Deneb.Ufp

open CString Octets

-- `DENEB_UFP_MEMBER_MAX`
def memberMax : Nat := 256

-- `deneb_ufp_thumb_candidate_t`
structure Candidate where
  name              : CString
  method            : Nat
  compressedSize    : Nat
  uncompressedSize  : Nat
  localHeaderOffset : Nat
  deriving DecidableEq

def hasExtension (name extension : CString) : Bool :=
  extension.length ≤ name.length &&
    (name.drop (name.length - extension.length)).map toLower == extension.map toLower

-- The loop of `contains_ci`, for a needle that is not empty.
def containsLoop : CString → CString → Bool
  | [], _            => false
  | c :: cs, needle => startsWith ((c :: cs).map toLower) (needle.map toLower) || containsLoop cs needle

def containsCi (haystack needle : CString) : Bool :=
  needle.isEmpty || containsLoop haystack needle

def readLe16 (s : Bytes) : Nat :=
  readLe (s.take 2)

def readLe32 (s : Bytes) : Nat :=
  readLe (s.take 4)

-- A `long` has 32 bits on the printer's board.
def toLong (n : Int) : Int :=
  n.bmod (2 ^ 32)

def readFileAt (file : Bytes) (offset size : Nat) : Option Bytes :=
  if toLong offset < 0 then none
  else
    let read := (file.drop offset).take size
    if read.length = size then some read else none

-- The loop over the tail, which ends with its first byte.
def scanTail (tail : Bytes) : Nat → Option Nat
  | 0     => if [80, 75, 5, 6] <+: tail then some 0 else none
  | i + 1 => if [80, 75, 5, 6] <+: tail.drop (i + 1) then some (i + 1) else scanTail tail i

-- `ftell` fails where the size is no `long`.
def findZipCentralDirectory (file : Bytes) : Option Nat :=
  let fileSize : Int := if file.length < 2 ^ 31 then file.length else -1
  if fileSize < 22 then none
  else
    let tailSize := if fileSize < 66000 then file.length else 66000
    let tail := file.drop (file.length - tailSize)
    (scanTail tail (tailSize - 22)).map fun i => readLe32 (tail.drop (i + 16))

-- The member of a header that is a picture. Its name ends with the first NUL.
def thumbnail (file : Bytes) (offset : Nat) (hdr : Bytes) : Option Candidate :=
  let method := readLe16 (hdr.drop 10)
  let compressedSize := readLe32 (hdr.drop 20)
  let uncompressedSize := readLe32 (hdr.drop 24)
  let nameLen := readLe16 (hdr.drop 28)
  if 0 < nameLen ∧ nameLen < memberMax then
    (readFileAt file ((offset + 46) % 2 ^ 32) nameLen).bind fun read =>
      let name := read.takeWhile (· ≠ 0)
      if (method = 0 ∨ method = 8) ∧ 0 < compressedSize ∧ 0 < uncompressedSize ∧
         uncompressedSize ≤ Png.maxBytes ∧ hasExtension name ".png" ∧ containsCi name "thumbnail"
      then some {
        name              := fit memberMax name
        method
        compressedSize
        uncompressedSize
        localHeaderOffset := readLe32 (hdr.drop 42) }
      else none
  else none

-- A round of the loop: the candidates, and the offset of the next header if the loop goes on.
def round (file : Bytes) (maxCandidates offset : Nat) (candidates : List Candidate) :
    List Candidate × Option Nat :=
  if maxCandidates ≤ candidates.length then (candidates, none)
  else
    match readFileAt file offset 46 with
    | none     => (candidates, none)
    | some hdr =>
      if readLe32 hdr ≠ 0x02014b50 then (candidates, none)
      else
        let nextOffset := toLong (toLong offset + 46 + readLe16 (hdr.drop 28) +
          readLe16 (hdr.drop 30) + readLe16 (hdr.drop 32))
        (candidates ++ (thumbnail file offset hdr).toList,
          if nextOffset ≤ toLong offset then none else some (nextOffset % 2 ^ 32).toNat)

-- There is no result if the loop goes on after so many rounds.
def listMembers (file : Bytes) (maxCandidates : Nat) :
    Nat → Nat → List Candidate → Option (List Candidate)
  | 0, _, _                        => none
  | rounds + 1, offset, candidates =>
    match round file maxCandidates offset candidates with
    | (candidates, none)        => some candidates
    | (candidates, some offset) => listMembers file maxCandidates rounds offset candidates

-- A file that cannot be opened has no members.
def listUfpThumbnailMembers (rounds : Nat) (file : Option Bytes) (maxCandidates : Nat) :
    Option (List Candidate) :=
  if maxCandidates = 0 then some []
  else
    match file.bind fun file => (findZipCentralDirectory file).map (file, ·) with
    | none                => some []
    | some (file, offset) => listMembers file maxCandidates rounds offset []

end Deneb.Ufp
