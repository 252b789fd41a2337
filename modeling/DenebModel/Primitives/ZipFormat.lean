import DenebModel.Primitives.Octets

-- Archives in the ZIP format that are on a single disk.
namespace Zip

open Octets

-- A member, as it is described in the central directory.
structure Entry where
  madeBy            : UInt16
  version           : UInt16
  flags             : UInt16
  method            : UInt16
  time              : UInt16
  date              : UInt16
  crc               : UInt32
  compressedSize    : UInt32
  uncompressedSize  : UInt32
  internal          : UInt16
  external          : UInt32
  localHeaderOffset : UInt32
  name              : Bytes
  extra             : Bytes
  comment           : Bytes
  name_lt           : name.length < 2 ^ 16
  extra_lt          : extra.length < 2 ^ 16
  comment_lt        : comment.length < 2 ^ 16

namespace Entry

variable (e : Entry)

-- The numbers in the header of the central directory, with their widths.
def fields : List (Nat × Nat) :=
  [(4, 0x02014b50), (2, e.madeBy.toNat), (2, e.version.toNat), (2, e.flags.toNat),
    (2, e.method.toNat), (2, e.time.toNat), (2, e.date.toNat), (4, e.crc.toNat),
    (4, e.compressedSize.toNat), (4, e.uncompressedSize.toNat), (2, e.name.length),
    (2, e.extra.length), (2, e.comment.length), (2, 0), (2, e.internal.toNat),
    (4, e.external.toNat), (4, e.localHeaderOffset.toNat)]

def header : Bytes :=
  leFields e.fields

def bytes : Bytes :=
  e.header ++ (e.name ++ e.extra ++ e.comment)

-- The local header, with what it tells of the sizes and a field of its own.
def localHeader (sizes : List (Nat × Nat)) (extra : Bytes) : Bytes :=
  leFields ([(4, 0x04034b50), (2, e.version.toNat), (2, e.flags.toNat), (2, e.method.toNat),
    (2, e.time.toNat), (2, e.date.toNat)] ++ sizes ++ [(2, e.name.length), (2, extra.length)]) ++
    e.name ++ extra

-- The member is stored where its entry says. Without a data descriptor the local header has the sizes.
def StoredIn (front : Bytes) : Prop :=
  ∃ before extra data behind, ∃ crc size plain : UInt32,
    front = before ++ (e.localHeader [(4, crc.toNat), (4, size.toNat), (4, plain.toNat)] extra ++
      data ++ behind) ∧
    before.length = e.localHeaderOffset.toNat ∧ data.length = e.compressedSize.toNat ∧
    extra.length < 2 ^ 16 ∧
    (e.flags &&& 8 = 0 → crc = e.crc ∧ size = e.compressedSize ∧ plain = e.uncompressedSize)

end Entry

-- The entries, and the digital signature that may follow them.
def directory (entries : List Entry) (signature : Option Bytes) : Bytes :=
  entries.flatMap Entry.bytes ++
    (signature.map fun s => leFields [(4, 0x05054b50), (2, s.length)] ++ s).getD []

-- The parts of an archive; in front of the directory are the members.
structure Archive where
  front        : Bytes
  entries      : List Entry
  signature    : Option Bytes := none
  comment      : Bytes
  front_lt     : front.length < 2 ^ 32
  stored       : ∀ e ∈ entries, e.StoredIn front
  entries_lt   : entries.length < 2 ^ 16
  signature_lt : ∀ s ∈ signature, s.length < 2 ^ 16
  directory_lt : (directory entries signature).length < 2 ^ 32
  comment_lt   : comment.length < 2 ^ 16

namespace Archive

variable (a : Archive)

-- The record behind the directory.
def fields : List (Nat × Nat) :=
  [(4, 0x06054b50), (2, 0), (2, 0), (2, a.entries.length), (2, a.entries.length),
    (4, (directory a.entries a.signature).length), (4, a.front.length), (2, a.comment.length)]

def ending : Bytes :=
  leFields a.fields

def file : Bytes :=
  a.front ++ (directory a.entries a.signature ++ (a.ending ++ a.comment))

end Archive

section

variable {e : Entry} {a : Archive}

@[simp] theorem length_header : e.header.length = 46 := by
  simp [Entry.header, length_leFields, Entry.fields, width]

theorem length_bytes :
    e.bytes.length = 46 + e.name.length + e.extra.length + e.comment.length := by
  simp only [Entry.bytes, List.length_append, length_header]
  omega

@[simp] theorem length_ending : a.ending.length = 22 := by
  simp [Archive.ending, length_leFields, Archive.fields, width]

end
end Zip
