import DenebModel.Primitives.Octets

-- `common/print/print_job_file.c`: the pictures of a job.
namespace Deneb.Png

open Octets

-- `DENEB_UFP_THUMB_MAX_BYTES`
def maxBytes : Nat := 2 * 1024 * 1024

structure Image where
  width  : Nat
  height : Nat
  rgba   : Bytes
  deriving DecidableEq

def readBe32 (s : Bytes) : Nat :=
  readBe (s.take 4)

def paethPredictor (a b c : Int) : Int :=
  let p := a + b - c
  let pa := if a < p then p - a else a - p
  let pb := if b < p then p - b else b - p
  let pc := if c < p then p - c else c - p
  if pa ≤ pb ∧ pa ≤ pc then a
  else if pb ≤ pc then b else c

-- `append_png_chunk`; the buffer grows as long as the data is not too large.
def appendPngChunk (idat chunk : Bytes) : Option Bytes :=
  if maxBytes < chunk.length ∨ maxBytes - chunk.length < idat.length then none
  else some (idat ++ chunk)

structure Header where
  width  : Nat
  height : Nat
  bpp    : Nat

-- The fields of an `IHDR` chunk.
def readHeader (chunk : Bytes) : Option Header :=
  let width := readBe32 chunk
  let height := readBe32 (chunk.drop 4)
  let colorType := chunk.getD 9 0
  if width = 0 ∨ height = 0 ∨ 4096 < width ∨ 4096 < height ∨ chunk.getD 8 0 ≠ 8 ∨
     (colorType ≠ 2 ∧ colorType ≠ 6) ∨ chunk.getD 10 0 ≠ 0 ∨ chunk.getD 11 0 ≠ 0 ∨
     chunk.getD 12 0 ≠ 0
  then none
  else some { width, height, bpp := if colorType = 6 then 4 else 3 }

-- What the chunks up to `IEND` hold; there is no result if one is refused or the end is missing.
-- Every round goes on behind a chunk.
def readChunks : Nat → Bytes → Option Header → Bytes → Option (Option Header × Bytes)
  | 0, _, _, _                      => none
  | rounds + 1, png, header, idat =>
    if png.length < 12 then none
    else
      let chunkLen := readBe32 png
      let type := (png.drop 4).take 4
      let behind := png.drop 8
      if behind.length < chunkLen ∨ maxBytes < chunkLen then none
      else
        let chunk := behind.take chunkLen
        let png := behind.drop (chunkLen + 4)
        if type = [73, 72, 68, 82] then
          if chunkLen ≠ 13 then none
          else
            match readHeader chunk with
            | none        => none
            | some header => readChunks rounds png (some header) idat
        else if type = [73, 68, 65, 84] then
          match appendPngChunk idat chunk with
          | none      => none
          | some idat => readChunks rounds png header idat
        else if type = [73, 69, 78, 68] then some (header, idat)
        else readChunks rounds png header idat

-- The byte of a row from the filtered one and its neighbours.
def reconstruct (filter : UInt8) (x left up upperLeft : UInt8) : UInt8 :=
  let sum : Int :=
    if filter = 1 then x.toNat + left.toNat
    else if filter = 2 then x.toNat + up.toNat
    else if filter = 3 then x.toNat + (left.toNat + up.toNat) / 2
    else if filter = 4 then x.toNat + paethPredictor left.toNat up.toNat upperLeft.toNat
    else x.toNat
  (sum % 256).toNat.toUInt8

-- The rest of a row behind `cur`.
def unfilter (filter : UInt8) (bpp : Nat) (prev : Bytes) : Bytes → Bytes → Bytes
  | [], cur            => cur
  | x :: scanline, cur =>
    let i := cur.length
    let left := if bpp ≤ i then cur.getD (i - bpp) 0 else 0
    let up := prev.getD i 0
    let upperLeft := if bpp ≤ i then prev.getD (i - bpp) 0 else 0
    unfilter filter bpp prev scanline (cur ++ [reconstruct filter x left up upperLeft])

-- The pixels of a row as RGBA.
def rowRgba (width bpp : Nat) (cur : Bytes) : Bytes :=
  (List.range width).flatMap fun x =>
    let src := cur.drop (x * bpp)
    [src.getD 0 0, src.getD 1 0, src.getD 2 0, if bpp = 4 then src.getD 3 0 else 255]

def readRows (width bpp : Nat) : Nat → Bytes → Bytes → Option Bytes
  | 0, _, _           => some []
  | rows + 1, raw, prev =>
    let filter := raw.getD 0 0
    if 4 < filter then none
    else
      let cur := unfilter filter bpp prev ((raw.drop 1).take (width * bpp)) []
      (readRows width bpp rows (raw.drop (1 + width * bpp)) cur).map (rowRgba width bpp cur ++ ·)

-- `lodepng_zlib_decompress` gives what the data stands for, if that is not longer than the bound.
def decodePngRgba32 (zlibDecompress : Bytes → Nat → Option Bytes) (png : Bytes) : Option Image :=
  if png.length < 33 ∨ png.take 8 ≠ [0x89, 80, 78, 71, 13, 10, 0x1a, 10] then none
  else
    match readChunks png.length (png.drop 8) none [] with
    | none | some (none, _)       => none
    | some (some header, idat) =>
      if idat = [] then none
      else
        let stride := header.width * header.bpp
        let expectedRawSize := (stride + 1) * header.height
        match zlibDecompress idat expectedRawSize with
        | none     => none
        | some raw =>
          if raw.length ≠ expectedRawSize then none
          else
            (readRows header.width header.bpp header.height raw (.replicate stride 0)).map fun rgba =>
              { width := header.width, height := header.height, rgba }

end Deneb.Png
