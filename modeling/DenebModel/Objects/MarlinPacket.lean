import DenebModel.Primitives.CString
import Mathlib.Logic.Function.Iterate

namespace Deneb

-- One round of the bit loop of `deneb_crc8`.
def crc8Bit (crc : UInt8) : UInt8 :=
  if crc &&& 0x80 ≠ 0 then (crc <<< 1) ^^^ 0x07 else crc <<< 1

def crc8 (data : List UInt8) : UInt8 :=
  data.foldl (fun (crc b : UInt8) => crc8Bit^[8] (crc ^^^ b)) 0

def crc16CcittBit (crc : UInt16) : UInt16 :=
  if crc &&& 0x8000 ≠ 0 then (crc <<< 1) ^^^ 0x1021 else crc <<< 1

def crc16Ccitt (data : List UInt8) : UInt16 :=
  data.foldl (fun (crc : UInt16) (b : UInt8) => crc16CcittBit^[8] (crc ^^^ (b.toUInt16 <<< 8))) 0xffff

-- `DENEB_PRINTSVC_MAX_GCODE_LINE`
def maxGcodeLine : Nat := 256

namespace MarlinPacket

-- The sequence and length bytes with the payload: the part of a packet its CRC covers.
def body (sequence : UInt8) (command : CString) : List UInt8 :=
  sequence :: command.length.toUInt8 :: command

def crcBytes (data : List UInt8) : List UInt8 :=
  [(crc16Ccitt data >>> 8).toUInt8, (crc16Ccitt data &&& 0xff).toUInt8]

def encode (sequence : UInt8) (command : CString) (outSize : Nat) : Option (List UInt8) :=
  if maxGcodeLine < command.length ∨ 255 < command.length then none
  else if outSize < 2 + 1 + 1 + command.length + 2 then none
  else
    let data := body sequence command
    some (0xff :: 0xff :: data ++ crcBytes data)

-- The receiving side of the packet format as the protocol documents give it: two `0xff` bytes,
-- sequence, payload length, payload and CRC16-CCITT. A packet that does not decode is damaged.
def decode : List UInt8 → Option (UInt8 × CString)
  | 0xff :: 0xff :: sequence :: length :: rest =>
    let command := rest.take length.toNat
    if command.length = length.toNat ∧
       rest.drop length.toNat = crcBytes (sequence :: length :: command)
    then some (sequence, command)
    else none
  | _ => none

variable {sequence : UInt8} {command : CString} {outSize : Nat} {packet : List UInt8}

theorem length_le_of_encode (h : encode sequence command outSize = some packet) :
    command.length ≤ 255 := by
  by_contra hc
  simp [encode, show 255 < command.length by omega] at h

theorem packet_eq_of_encode (h : encode sequence command outSize = some packet) :
    packet = 0xff :: 0xff :: body sequence command ++ crcBytes (body sequence command) := by
  unfold encode at h
  split at h <;> try contradiction
  split at h <;> simp_all

theorem encode_isSome (h : command.length ≤ 255) (ho : 261 ≤ outSize) :
    (encode sequence command outSize).isSome := by
  simp only [encode, maxGcodeLine]
  split
  case isTrue => omega
  case isFalse =>
    split
    case isTrue  => omega
    case isFalse => rfl

theorem decode_encode (h : encode sequence command outSize = some packet) :
    decode packet = some (sequence, command) := by
  have hl := length_le_of_encode h
  have hn : command.length.toUInt8.toNat = command.length := by
    simp [Nat.toUInt8]; omega
  rw [packet_eq_of_encode h]
  simp [decode, body, hn]

end MarlinPacket
end Deneb
