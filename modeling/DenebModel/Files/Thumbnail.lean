import DenebModel.Files.Png
import Mathlib.Data.List.ProdSigma

-- `common/print/print_job_file.c`: the picture of a job as the screen shows it.
namespace Deneb.Thumbnail

open Octets Png

-- `DENEB_THUMB_TARGET_SIZE`
def targetSize : Nat := 116

-- The results of `unsigned` operations.
def unsigned (n : Nat) : Nat :=
  n % 2 ^ 32

def minus (a b : Nat) : Nat :=
  unsigned (2 ^ 32 + a - b)

-- The width and the height of the scaled picture.
def scaledSize (width height : Nat) : Nat × Nat :=
  let (w, h) :=
    if height ≤ width then (targetSize, unsigned ((height * targetSize + width / 2) / width))
    else (unsigned ((width * targetSize + height / 2) / height), targetSize)
  (if w = 0 then 1 else w, if h = 0 then 1 else h)

def offset (scaled : Nat) : Nat :=
  minus targetSize scaled / 2

-- The row or the column of the picture that row or column `i` of the scaled one is taken from.
def source (size scaled i : Nat) : Nat :=
  let src := unsigned (i * size / scaled)
  if size ≤ src then minus size 1 else src

-- The places of the scaled picture, row by row.
def places (scaledW scaledH : Nat) : List (Nat × Nat) :=
  (List.range scaledH).product (List.range scaledW)

def sourcePixel (width height scaledW scaledH : Nat) (place : Nat × Nat) : Nat :=
  source height scaledH place.1 * width + source width scaledW place.2

def targetRow (scaledH : Nat) (place : Nat × Nat) : Nat :=
  unsigned (place.1 + offset scaledH)

def targetColumn (scaledW : Nat) (place : Nat × Nat) : Nat :=
  unsigned (place.2 + offset scaledW)

def targetPixel (scaledW scaledH : Nat) (place : Nat × Nat) : Nat :=
  targetRow scaledH place * targetSize + targetColumn scaledW place

-- A component of a colour over the background.
def blend (c bg alpha : UInt8) : Nat :=
  unsigned (c.toNat * alpha.toNat + bg.toNat * minus 255 alpha.toNat) / 255

def rgbToRgb565 (r g b : UInt8) : UInt16 :=
  (r &&& 0xf8).toUInt16 <<< 8 ||| (g &&& 0xfc).toUInt16 <<< 3 ||| (b >>> 3).toUInt16

def writeRgb565Pixel (buf : Bytes) (pixel : Nat) (color : UInt16) : Bytes :=
  (buf.set (pixel * 2) (color &&& 0xff).toUInt8).set (pixel * 2 + 1) (color >>> 8 &&& 0xff).toUInt8

def bgR : UInt8 := 10
def bgG : UInt8 := 10
def bgB : UInt8 := 26

-- The target, filled with the background.
def background : Bytes :=
  (List.range (targetSize * targetSize)).foldl
    (fun buf pixel => writeRgb565Pixel buf pixel (rgbToRgb565 bgR bgG bgB))
    (.replicate (targetSize * targetSize * 2) 0)

-- One round of the loop over the scaled picture.
def draw (image : Image) (scaledW scaledH : Nat) (buf : Bytes) (place : Nat × Nat) : Bytes :=
  let src := image.rgba.drop (sourcePixel image.width image.height scaledW scaledH place * 4)
  let alpha := src.getD 3 0
  let r := blend (src.getD 0 0) bgR alpha
  let g := blend (src.getD 1 0) bgG alpha
  let b := blend (src.getD 2 0) bgB alpha
  writeRgb565Pixel buf (targetPixel scaledW scaledH place)
    (rgbToRgb565 r.toUInt8 g.toUInt8 b.toUInt8)

-- What `write_png_thumbnail_rgb565` writes to the file.
def pngThumbnailRgb565 (zlibDecompress : Bytes → Nat → Option Bytes) (png : Bytes) : Option Bytes :=
  (decodePngRgba32 zlibDecompress png).map fun image =>
    let (scaledW, scaledH) := scaledSize image.width image.height
    (places scaledW scaledH).foldl (draw image scaledW scaledH) background

end Deneb.Thumbnail
