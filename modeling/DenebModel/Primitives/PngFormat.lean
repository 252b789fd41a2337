import DenebModel.Primitives.Octets
import Mathlib.Data.Vector.Defs

-- PNG files of pictures with 8 bits per channel, without a palette or interlacing.
namespace PngFormat

open Octets

structure Pixel where
  r : UInt8
  g : UInt8
  b : UInt8
  a : UInt8 := 255
  deriving DecidableEq

def Pixel.bytes (alpha : Bool) (p : Pixel) : Bytes :=
  if alpha then [p.r, p.g, p.b, p.a] else [p.r, p.g, p.b]

-- Without an alpha channel nothing is transparent.
structure Picture where
  width  : Nat
  height : Nat
  alpha  : Bool
  rows   : List (List Pixel)
  length_rows : rows.length = height
  length_row  : ∀ row ∈ rows, row.length = width
  solid       : alpha = false → ∀ row ∈ rows, ∀ p ∈ row, p.a = 255

namespace Picture

def bytesPerPixel (p : Picture) : Nat :=
  if p.alpha then 4 else 3

def rowBytes (alpha : Bool) (row : List Pixel) : Bytes :=
  row.flatMap (Pixel.bytes alpha)

-- All pixels with their alpha.
def rgba (p : Picture) : Bytes :=
  p.rows.flatMap (rowBytes true)

end Picture

inductive Filter
  | none
  | sub
  | up
  | average
  | paeth

namespace Filter

def code : Filter → UInt8
  | none    => 0
  | sub     => 1
  | up      => 2
  | average => 3
  | paeth   => 4

-- The neighbour that is closest to the sum of the first two less the third one.
def paethOf (a b c : UInt8) : UInt8 :=
  let p : Int := a.toNat + b.toNat - c.toNat
  let pa := (p - a.toNat).natAbs
  let pb := (p - b.toNat).natAbs
  let pc := (p - c.toNat).natAbs
  if pa ≤ pb ∧ pa ≤ pc then a
  else if pb ≤ pc then b else c

-- What a byte is expected to be from the one to its left, the one above and the one above that to
-- the left.
def predict : Filter → UInt8 → UInt8 → UInt8 → UInt8
  | none, _, _, _    => 0
  | sub, a, _, _     => a
  | up, _, b, _      => b
  | average, a, b, _ => ((a.toNat + b.toNat) / 2).toUInt8
  | paeth, a, b, c   => paethOf a b c

-- The byte `bpp` places in front of place `i`.
def before (bpp : Nat) (row : Bytes) (i : Nat) : UInt8 :=
  if i < bpp then 0 else row.getD (i - bpp) 0

def apply (f : Filter) (bpp : Nat) (prior row : Bytes) : Bytes :=
  (List.range row.length).map fun i =>
    row.getD i 0 - f.predict (before bpp row i) (prior.getD i 0) (before bpp prior i)

end Filter

-- The filtered rows, each behind the code of its filter.
def scanlines (bpp : Nat) : Bytes → List Bytes → List Filter → Bytes
  | prior, row :: rows, f :: fs => f.code :: (f.apply bpp prior row ++ scanlines bpp row rows fs)
  | _, _, _                     => []

-- The data that is compressed; the row above the first one is blank.
def Picture.raw (p : Picture) (filters : List Filter) : Bytes :=
  scanlines p.bytesPerPixel (.replicate (p.width * p.bytesPerPixel) 0)
    (p.rows.map (Picture.rowBytes p.alpha)) filters

structure Chunk where
  type : List.Vector UInt8 4
  data : Bytes
  crc  : List.Vector UInt8 4

namespace Chunk

def bytes (c : Chunk) : Bytes :=
  be 4 c.data.length ++ (c.type.toList ++ (c.data ++ c.crc.toList))

def ihdr : List.Vector UInt8 4 := ⟨[73, 72, 68, 82], rfl⟩

def idat : List.Vector UInt8 4 := ⟨[73, 68, 65, 84], rfl⟩

def iend : List.Vector UInt8 4 := ⟨[73, 69, 78, 68], rfl⟩

-- The chunks have the parts of the data in its order, and anything else between them.
structure Divides (chunks : List Chunk) (data : Bytes) : Prop where
  data  : (chunks.filter (·.type = idat)).flatMap (·.data) = data
  inner : ∀ c ∈ chunks, c.type ≠ ihdr ∧ c.type ≠ iend

end Chunk

def signature : Bytes :=
  [0x89, 80, 78, 71, 13, 10, 0x1a, 10]

-- The size, the number of bits, the kind of colour and the methods.
def Picture.header (p : Picture) : Bytes :=
  be 4 p.width ++ (be 4 p.height ++ [8, if p.alpha then 6 else 2, 0, 0, 0])

def Picture.file (p : Picture) (chunks : List Chunk) (crc crc' : List.Vector UInt8 4) : Bytes :=
  signature ++ (Chunk.bytes ⟨Chunk.ihdr, p.header, crc⟩ ++
    (chunks.flatMap Chunk.bytes ++ Chunk.bytes ⟨Chunk.iend, [], crc'⟩))

end PngFormat
