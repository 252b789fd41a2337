import DenebModel.Files.Png
import DenebModel.Primitives.PngFormat
import Mathlib.Data.List.Basic
import Mathlib.Data.List.GetD
import Mathlib.Tactic.SplitIfs

namespace Deneb.Png

open Octets PngFormat

section Rows

variable {f : Filter} {x a b c : UInt8} {bpp i : Nat} {prior row : Bytes}

theorem sub_add_toNat : ((x - a).toNat + a.toNat) % 256 = x.toNat := by
  have h : x - a + a = x := by rw [UInt8.sub_add_cancel]
  rw [← UInt8.toNat_add, h]

theorem paethPredictor_eq :
    paethPredictor a.toNat b.toNat c.toNat = (Filter.paethOf a b c).toNat := by
  simp only [paethPredictor, Filter.paethOf]
  split_ifs <;> omega

-- What is added is what was subtracted.
theorem reconstruct_predict : reconstruct f.code (x - f.predict a b c) a b c = x := by
  have h (q : UInt8) (n : Int) (hn : n = q.toNat) : (((x - q).toNat + n) % 256).toNat.toUInt8 = x := by
    have : (((x - q).toNat + n) % 256).toNat = x.toNat := by
      rw [hn, ← @sub_add_toNat x q]
      omega
    rw [this]
    exact UInt8.ofNat_toNat
  cases f
  case none    => simpa [reconstruct, Filter.code, Filter.predict] using h 0 0 rfl
  case sub     => exact h a a.toNat rfl
  case up      => exact h b b.toNat rfl
  case average =>
    refine h _ ((a.toNat + b.toNat) / 2) ?_
    have ha := a.toNat_lt
    have hb := b.toNat_lt
    have : ((a.toNat + b.toNat) / 2).toUInt8.toNat = (a.toNat + b.toNat) / 2 % 256 := rfl
    rw [Filter.predict, this, Nat.mod_eq_of_lt (by omega)]
    omega
  case paeth   => exact h _ _ paethPredictor_eq

theorem length_apply : (f.apply bpp prior row).length = row.length := by
  simp [Filter.apply]

theorem drop_apply (h : i < row.length) :
    (f.apply bpp prior row).drop i =
      (row.getD i 0 - f.predict (Filter.before bpp row i) (prior.getD i 0) (Filter.before bpp prior i)) ::
        (f.apply bpp prior row).drop (i + 1) := by
  rw [List.drop_eq_getElem_cons (by rwa [length_apply])]
  simp [Filter.apply]

-- The row is restored byte by byte; the first `i` bytes are in place.
theorem unfilter_drop (hb : 0 < bpp) (hi : i ≤ row.length) :
    unfilter f.code bpp prior ((f.apply bpp prior row).drop i) (row.take i) = row := by
  generalize hn : row.length - i = n
  induction n generalizing i
  case zero =>
    have hi : i = row.length := by omega
    rw [List.drop_eq_nil_of_le (by rw [length_apply]; omega), unfilter, hi, List.take_length]
  case succ n ih =>
    have hlt : i < row.length := by omega
    have hl : (row.take i).length = i := List.length_take_of_le hi
    have before (s : Bytes) (hs : ∀ j < i, s.getD j 0 = row.getD j 0) :
        (if bpp ≤ i then s.getD (i - bpp) 0 else 0) = Filter.before bpp row i := by
      rw [Filter.before]
      split_ifs with h h'
      · omega
      · rw [hs _ (by omega)]
      · rfl
      · omega
    have left := before (row.take i) fun j hj => by simp [List.getD, hj]
    have upperLeft : (if bpp ≤ i then prior.getD (i - bpp) 0 else 0) = Filter.before bpp prior i := by
      rw [Filter.before]
      split_ifs <;> first | rfl | omega
    have next : row.take i ++ [row.getD i 0] = row.take (i + 1) := by
      rw [List.take_add_one, List.getD_eq_getElem?_getD, List.getElem?_eq_getElem hlt]
      rfl
    rw [drop_apply hlt, unfilter]
    rw [hl, left, upperLeft, reconstruct_predict, next]
    exact ih hlt (by omega)

theorem unfilter_apply (hb : 0 < bpp) :
    unfilter f.code bpp prior (f.apply bpp prior row) [] = row :=
  unfilter_drop hb (Nat.zero_le _)

theorem length_rowBytes {alpha : Bool} {row : List Pixel} :
    (Picture.rowBytes alpha row).length = row.length * if alpha then 4 else 3 := by
  induction row
  case nil         => simp [Picture.rowBytes]
  case cons p row ih =>
    rw [Picture.rowBytes, List.flatMap_cons, List.length_append, ← Picture.rowBytes, ih]
    cases alpha
    all_goals simp [Pixel.bytes]; omega

-- The pixels of a row with the alpha that is theirs.
theorem rowRgba_rowBytes {alpha : Bool} {row : List Pixel} (h : alpha = false → ∀ p ∈ row, p.a = 255) :
    rowRgba row.length (if alpha then 4 else 3) (Picture.rowBytes alpha row) =
      Picture.rowBytes true row := by
  induction row
  case nil => rfl
  case cons p row ih =>
    have ih := ih fun ha q hq => h ha q (.tail _ hq)
    rw [rowRgba] at ih ⊢
    rw [List.length_cons, List.range_succ_eq_map, List.flatMap_cons, List.flatMap_map]
    simp only [Picture.rowBytes, List.flatMap_cons] at ih ⊢
    rw [← ih]
    congr 1
    case e_a =>
      cases alpha
      case false => simp [Pixel.bytes, h rfl p (.head _)]
      case true  => simp [Pixel.bytes]
    case e_a =>
      congr 1
      funext x
      cases alpha
      all_goals simp [Pixel.bytes, Nat.succ_mul]

theorem readRows_scanlines {width : Nat} {rows : List Bytes} {filters : List Filter} (hb : 0 < bpp)
    (hf : filters.length = rows.length) (hw : ∀ row ∈ rows, row.length = width * bpp) :
    readRows width bpp rows.length (scanlines bpp prior rows filters) prior =
      some (rows.flatMap (rowRgba width bpp)) := by
  induction rows generalizing prior filters
  case nil => rfl
  case cons row rows ih =>
    cases filters
    case nil => simp at hf
    case cons f filters =>
      have hrow := hw row (.head _)
      have hlow : ¬4 < f.code := by cases f <;> decide
      have hl : (f.apply bpp prior row).length = width * bpp := by rw [length_apply, hrow]
      have rest : (f.code :: (f.apply bpp prior row ++ scanlines bpp row rows filters)).drop
          (1 + width * bpp) = scanlines bpp row rows filters := by
        rw [Nat.add_comm, List.drop_succ_cons, List.drop_left' hl]
      rw [scanlines, List.length_cons, readRows, rest]
      simp only [List.getD_cons_zero, hlow, if_false, List.drop_succ_cons, List.drop_zero,
        List.take_left' hl, unfilter_apply hb]
      rw [ih (Nat.succ.inj hf) fun row h => hw row (.tail _ h)]
      rfl

end Rows

section Chunks

variable {c : Chunk} {rounds : Nat} {rest idat : Bytes} {header : Option Header} {chunks : List Chunk}

-- A chunk with an intact length is read as it was written.
theorem readChunks_chunk (hl : c.data.length ≤ maxBytes) :
    readChunks (rounds + 1) (c.bytes ++ rest) header idat =
      if c.type = Chunk.ihdr then
        if c.data.length ≠ 13 then none
        else (readHeader c.data).bind fun header => readChunks rounds rest (some header) idat
      else if c.type = Chunk.idat then
        (appendPngChunk idat c.data).bind fun idat => readChunks rounds rest header idat
      else if c.type = Chunk.iend then some (header, idat)
      else readChunks rounds rest header idat := by
  have ht : c.type.toList.length = 4 := c.type.toList_length
  have hc : c.crc.toList.length = 4 := c.crc.toList_length
  have len : readBe32 (c.bytes ++ rest) = c.data.length := by
    rw [readBe32, Chunk.bytes, List.append_assoc, List.take_left' length_be, readBe_be]
    exact Nat.lt_of_le_of_lt hl (by decide)
  have long : ¬(c.bytes ++ rest).length < 12 := by
    simp [Chunk.bytes, ht, hc]
    omega
  have type : ((c.bytes ++ rest).drop 4).take 4 = c.type.toList := by
    rw [Chunk.bytes, List.append_assoc, List.drop_left' length_be, List.append_assoc, List.take_left' ht]
  have behind : (c.bytes ++ rest).drop 8 = c.data ++ (c.crc.toList ++ rest) := by
    rw [Chunk.bytes, show 8 = 4 + 4 from rfl, ← List.drop_drop, List.append_assoc,
      List.drop_left' length_be, List.append_assoc, List.drop_left' ht, List.append_assoc]
  have fits : ¬((c.data ++ (c.crc.toList ++ rest)).length < c.data.length ∨ maxBytes < c.data.length) := by
    simp only [List.length_append]
    omega
  have next : (c.data ++ (c.crc.toList ++ rest)).drop (c.data.length + 4) = rest := by
    rw [← List.drop_drop, List.drop_left, List.drop_left' hc]
  have kind (t : List.Vector UInt8 4) : c.type.toList = t.toList ↔ c.type = t :=
    ⟨List.Vector.eq _ _, congrArg _⟩
  rw [readChunks, if_neg long]
  simp only [len, type, behind, if_neg fits, next, List.take_left]
  rw [show ([73, 72, 68, 82] : Bytes) = Chunk.ihdr.toList from rfl,
    show ([73, 68, 65, 84] : Bytes) = Chunk.idat.toList from rfl,
    show ([73, 69, 78, 68] : Bytes) = Chunk.iend.toList from rfl]
  simp only [kind]
  cases readHeader c.data <;> cases appendPngChunk idat c.data <;> rfl

theorem length_chunk : 12 ≤ c.bytes.length := by
  have ht : c.type.toList.length = 4 := c.type.toList_length
  have hc : c.crc.toList.length = 4 := c.crc.toList_length
  simp only [Chunk.bytes, List.length_append, length_be, ht, hc]
  omega

theorem length_chunks : chunks.length ≤ (chunks.flatMap Chunk.bytes).length := by
  induction chunks
  case nil => exact Nat.zero_le _
  case cons c chunks ih =>
    have := @length_chunk c
    rw [List.length_cons, List.flatMap_cons, List.length_append]
    omega

-- The data chunks are collected, the others are passed over.
theorem readChunks_chunks {data : Bytes} (hd : Chunk.Divides chunks data)
    (hl : ∀ c ∈ chunks, c.data.length ≤ maxBytes) (hs : idat.length + data.length ≤ maxBytes) :
    readChunks (chunks.length + rounds) (chunks.flatMap Chunk.bytes ++ rest) header idat =
      readChunks rounds rest header (idat ++ data) := by
  induction chunks generalizing idat data
  case nil =>
    have := hd.data
    simp only [List.filter_nil, List.flatMap_nil] at this
    simp [← this]
  case cons c chunks ih =>
    have ⟨hi, he⟩ := hd.inner c (.head _)
    have hl' : ∀ c ∈ chunks, c.data.length ≤ maxBytes := fun c h => hl c (.tail _ h)
    have inner : ∀ c ∈ chunks, c.type ≠ Chunk.ihdr ∧ c.type ≠ Chunk.iend :=
      fun c h => hd.inner c (.tail _ h)
    have hdata := hd.data
    rw [List.length_cons, Nat.add_right_comm, List.flatMap_cons, List.append_assoc,
      readChunks_chunk (hl c (.head _)), if_neg hi]
    by_cases ht : c.type = Chunk.idat
    case pos =>
      rw [List.filter_cons_of_pos (by simpa using ht), List.flatMap_cons] at hdata
      obtain rfl := hdata
      rw [List.length_append] at hs
      have room : ¬(maxBytes < c.data.length ∨ maxBytes - c.data.length < idat.length) := by omega
      rw [if_pos ht, appendPngChunk, if_neg room, Option.bind_some,
        ih ⟨rfl, inner⟩ hl' (by rw [List.length_append]; omega), List.append_assoc]
    case neg =>
      rw [List.filter_cons_of_neg (by simpa using ht)] at hdata
      rw [if_neg ht, if_neg he, ih ⟨hdata, inner⟩ hl' hs]

theorem readHeader_header {p : Picture} (hw : 1 ≤ p.width ∧ p.width ≤ 4096)
    (hh : 1 ≤ p.height ∧ p.height ≤ 4096) :
    readHeader p.header = some { width := p.width, height := p.height, bpp := p.bytesPerPixel } := by
  have width : readBe32 p.header = p.width := by
    rw [readBe32, Picture.header, List.take_left' length_be, readBe_be (by omega)]
  have height : readBe32 (p.header.drop 4) = p.height := by
    rw [readBe32, Picture.header, List.drop_left' length_be, List.take_left' length_be,
      readBe_be (by omega)]
  have field (i : Nat) : p.header.getD (8 + i) 0 = [8, if p.alpha then 6 else 2, 0, 0, 0].getD i 0 := by
    have h4 : 4 ≤ 8 + i := by omega
    have h8 : 4 ≤ 8 + i - 4 := by omega
    rw [Picture.header, List.getD_append_right _ _ _ _ (by simpa using h4),
      List.getD_append_right _ _ _ _ (by simpa using h8), length_be, length_be,
      show 8 + i - 4 - 4 = i by omega]
  have h8 := field 0
  have h9 := field 1
  have h10 := field 2
  have h11 := field 3
  have h12 := field 4
  unfold readHeader
  dsimp only
  rw [width, height, h8, h9, h10, h11, h12]
  cases ha : p.alpha
  all_goals
    simp [Picture.bytesPerPixel, ha]
    omega

end Chunks

section

variable {zlibDecompress : Bytes → Nat → Option Bytes} {p : Picture} {filters : List Filter}
variable {data : Bytes} {chunks : List Chunk} {crc crc' : List.Vector UInt8 4}

-- The data is a compressed form of the other one, which is restored unless it is too long.
structure Inflates (zlibDecompress : Bytes → Nat → Option Bytes) (data raw : Bytes) : Prop where
  nonempty : data ≠ []
  restored : ∀ size ≥ raw.length, zlibDecompress data size = some raw

-- The division of the data into chunks is within the limits of the reader.
structure Fits (chunks : List Chunk) (data : Bytes) : Prop where
  chunk : ∀ c ∈ chunks, c.data.length ≤ maxBytes
  data  : data.length ≤ maxBytes

theorem length_scanlines {bpp n : Nat} {prior : Bytes} {rows : List Bytes}
    (hf : filters.length = rows.length) (hw : ∀ row ∈ rows, row.length = n) :
    (scanlines bpp prior rows filters).length = (n + 1) * rows.length := by
  induction rows generalizing prior filters
  case nil => cases filters <;> simp [scanlines]
  case cons row rows ih =>
    cases filters
    case nil => simp at hf
    case cons f filters =>
      have hrow := hw row (.head _)
      rw [scanlines, List.length_cons, List.length_append, length_apply, hrow,
        ih (Nat.succ.inj hf) fun row h => hw row (.tail _ h), List.length_cons, Nat.mul_succ]
      omega

theorem bytesPerPixel_pos : 0 < p.bytesPerPixel := by
  rw [Picture.bytesPerPixel]
  split <;> decide

theorem length_rows : ∀ row ∈ p.rows.map (Picture.rowBytes p.alpha), row.length = p.width * p.bytesPerPixel := by
  intro _ hm
  obtain ⟨row, hr, rfl⟩ := List.mem_map.mp hm
  rw [length_rowBytes, p.length_row row hr, Picture.bytesPerPixel]

theorem readRows_raw (hf : filters.length = p.height) :
    readRows p.width p.bytesPerPixel p.height (p.raw filters)
      (.replicate (p.width * p.bytesPerPixel) 0) = some p.rgba := by
  have hl : (p.rows.map (Picture.rowBytes p.alpha)).length = p.height := by
    rw [List.length_map, p.length_rows]
  have h := @readRows_scanlines p.bytesPerPixel (.replicate (p.width * p.bytesPerPixel) 0) p.width
    _ filters bytesPerPixel_pos (hf.trans hl.symm) length_rows
  rw [hl] at h
  rw [Picture.raw, h, List.flatMap_map, Picture.rgba, Option.some_inj]
  refine List.flatMap_congr fun row hr => ?_
  have := @rowRgba_rowBytes p.alpha row fun ha => p.solid ha row hr
  rwa [p.length_row row hr] at this

theorem length_file :
    (p.file chunks crc crc').length = (chunks.flatMap Chunk.bytes).length + 45 := by
  simp [Picture.file, Picture.header, Chunk.bytes, signature, Chunk.ihdr, Chunk.iend, crc.toList_length,
    crc'.toList_length]
  omega

-- Every picture is decoded as it was, however its rows are filtered and its data is divided.
theorem decode_file (hw : 1 ≤ p.width ∧ p.width ≤ 4096) (hh : 1 ≤ p.height ∧ p.height ≤ 4096)
    (hf : filters.length = p.height) (hi : Inflates zlibDecompress data (p.raw filters))
    (hd : Chunk.Divides chunks data) (hs : Fits chunks data) :
    decodePngRgba32 zlibDecompress (p.file chunks crc crc') =
      some { width := p.width, height := p.height, rgba := p.rgba } := by
  have h13 : p.header.length = 13 := by simp [Picture.header]
  have hd' : (Chunk.mk Chunk.ihdr p.header crc).data.length ≤ maxBytes := by
    rw [h13]
    decide
  have hl := @length_file p chunks crc crc'
  have first : (p.file chunks crc crc').take 8 = [0x89, 80, 78, 71, 13, 10, 0x1a, 10] := rfl
  obtain ⟨n, hn⟩ : ∃ n, (p.file chunks crc crc').length = chunks.length + (n + 1) + 1 := by
    have := @length_chunks chunks
    exact ⟨(chunks.flatMap Chunk.bytes).length - chunks.length + 43, by omega⟩
  have read : readChunks (p.file chunks crc crc').length ((p.file chunks crc crc').drop 8) none [] =
      some (some { width := p.width, height := p.height, bpp := p.bytesPerPixel }, data) := by
    have rest : (p.file chunks crc crc').drop 8 = Chunk.bytes ⟨Chunk.ihdr, p.header, crc⟩ ++
      (chunks.flatMap Chunk.bytes ++ Chunk.bytes ⟨Chunk.iend, [], crc'⟩) := rfl
    rw [hn, rest, readChunks_chunk hd', if_pos rfl, if_neg (by simp [h13]),
      readHeader_header hw hh, Option.bind_some, readChunks_chunks hd hs.chunk (by simpa using hs.data),
      List.nil_append, ← List.append_nil (Chunk.bytes _), readChunks_chunk (by simp),
      if_neg (show Chunk.iend ≠ Chunk.ihdr by decide), if_neg (show Chunk.iend ≠ Chunk.idat by decide),
      if_pos rfl]
  have size : (p.raw filters).length = (p.width * p.bytesPerPixel + 1) * p.height := by
    rw [Picture.raw, length_scanlines (by rw [hf, List.length_map, p.length_rows]) length_rows,
      List.length_map, p.length_rows]
  have head : ¬((p.file chunks crc crc').length < 33 ∨
      (p.file chunks crc crc').take 8 ≠ [0x89, 80, 78, 71, 13, 10, 0x1a, 10]) := by
    rintro (h | h)
    · omega
    · exact h first
  rw [decodePngRgba32, if_neg head, read]
  dsimp only
  rw [if_neg hi.nonempty, hi.restored _ (Nat.le_of_eq size)]
  dsimp only
  rw [if_neg fun h => h size, readRows_raw hf]
  rfl

end

-- Data that is stored without compression, in a single block with its checksum.
def inflateStored (data : Bytes) (size : Nat) : Option Bytes :=
  match data with
  | 0x78 :: 0x01 :: 0x01 :: a :: b :: c :: d :: rest =>
    let raw := rest.take (readLe [a, b])
    let (low, high) := raw.foldl (fun (low, high) c =>
      ((low + c.toNat) % 65521, (high + low + c.toNat) % 65521)) (1, 0)
    if c = ~~~a ∧ d = ~~~b ∧ rest.drop (readLe [a, b]) = be 2 high ++ be 2 low ∧ raw.length ≤ size
    then some raw else none
  | _ => none

-- A picture of two rows, and the data of its filtered rows.
def pair : Picture where
  width       := 1
  height      := 2
  alpha       := false
  rows        := [[{ r := 10, g := 20, b := 30 }], [{ r := 11, g := 19, b := 31 }]]
  length_rows := rfl
  length_row  := by decide
  solid       := by decide

def pairData : Bytes :=
  [0x78, 0x01, 0x01, 8, 0, 247, 255] ++ [1, 10, 20, 30, 2, 1, 255, 1] ++ [3, 110, 1, 65]

def pairChunks : List Chunk := [
  ⟨Chunk.idat, pairData.take 9, ⟨[48, 34, 155, 117], rfl⟩⟩,
  ⟨⟨[116, 69, 88, 116], rfl⟩, [65, 0, 66], ⟨[223, 106, 196, 19], rfl⟩⟩,
  ⟨Chunk.idat, pairData.drop 9, ⟨[31, 76, 224, 53], rfl⟩⟩]

theorem decode_pair :
    decodePngRgba32 inflateStored
        (pair.file pairChunks ⟨[22, 227, 33, 112], rfl⟩ ⟨[174, 66, 96, 130], rfl⟩) =
      some { width := 1, height := 2, rgba := [10, 20, 30, 255, 11, 19, 31, 255] } := by
  have raw : pair.raw [.sub, .up] = [1, 10, 20, 30, 2, 1, 255, 1] := by decide
  have inflates : Inflates inflateStored pairData (pair.raw [.sub, .up]) := by
    rw [raw]
    exact ⟨by decide, fun size h => if_pos ⟨by decide, by decide, by decide, h⟩⟩
  exact decode_file (by decide) (by decide) rfl inflates ⟨by decide, by decide⟩ ⟨by decide, by decide⟩

end Deneb.Png
