import DenebModel.Primitives.BinaryFloat
import DenebModel.Primitives.CString
import DenebModel.Primitives.Dns

-- `web/mdns_advertiser.c`
namespace Deneb.Mdns

open Octets

def httpPort : Nat := 80
def classIn : Nat := 1
def classFlush : Nat := 0x8001
def typeA : Nat := 1
def typePtr : Nat := 12
def typeTxt : Nat := 16
def typeSrv : Nat := 33
def ttlSeconds : Nat := 120

-- `sizeof(p->data)`
def maxData : Nat := 1500

-- The bytes of the packet that are written.
abbrev Packet := Bytes

variable (p : Packet)

def putU8 (v : Nat) : Option Packet :=
  if maxData < p.length + 1 then none else some (p ++ [v.toUInt8])

def putU16 (v : Nat) : Option Packet :=
  if maxData < p.length + 2 then none else some (p ++ [(v >>> 8).toUInt8, (v &&& 0xff).toUInt8])

def putU32 (v : Nat) : Option Packet := do
  let p ← putU16 p (v >>> 16)
  putU16 p (v &&& 0xffff)

def putBytes (data : Bytes) : Option Packet :=
  if maxData < p.length + data.length then none else some (p ++ data)

-- The loop over the labels.
def putName (p : Packet) (name : CString) : Option Packet :=
  if name = [] then putU8 p 0
  else
    let label := name.takeWhile (· != 46)
    if 63 < label.length then none
    else do
      let p ← putU8 p label.length
      let p ← putBytes p label
      match _ : name.dropWhile (· != 46) with
      | []         => putU8 p 0
      | _ :: start => putName p start
termination_by name.length
decreasing_by
  have hs := congrArg List.length ‹_ = _ :: start›
  have := (List.dropWhile_sublist (l := name) (· != 46)).length_le
  rw [List.length_cons] at hs
  omega

-- The packet with the position at which the length of the data belongs.
def putRecordHeader (name : CString) (type klass ttl : Nat) : Option (Packet × Nat) := do
  let p ← putName p name
  let p ← putU16 p type
  let p ← putU16 p klass
  let p ← putU32 p ttl
  let rdlenPos := p.length
  let p ← putU16 p 0
  some (p, rdlenPos)

def finishRecord (rdlenPos rdataStart : Nat) : Option Packet :=
  let rdlen := p.length - rdataStart
  if 0xffff < rdlen then none
  else some ((p.set rdlenPos (rdlen >>> 8).toUInt8).set (rdlenPos + 1) (rdlen &&& 0xff).toUInt8)

-- `item` is what `snprintf` leaves in a buffer of 255 bytes, with the NUL.
def putTxtItem (key value : CString) : Option Packet :=
  let text := key ++ 61 :: value
  let item := CString.fit 255 text ++ [0]
  if 255 < text.length then none
  else do
    let p ← putU8 p text.length
    putBytes p (item.take text.length)

-- `struct in_addr`: an IPv4 address in network order.
structure InAddr where
  a : UInt8
  b : UInt8
  c : UInt8
  d : UInt8

def InAddr.bytes (addr : InAddr) : Bytes :=
  [addr.a, addr.b, addr.c, addr.d]

def inetNtop (addr : InAddr) : CString :=
  let digits (b : UInt8) := BinaryFloat.digits b.toNat
  digits addr.a ++ 46 :: digits addr.b ++ 46 :: digits addr.c ++ 46 :: digits addr.d

def service : CString := "_ultimaker._tcp.local"

-- The texts in the buffers `host` and `instance`.
def host (instanceId : CString) : CString :=
  CString.fit 128 (instanceId ++ (".local" : CString))

def fullInstance (instanceId : CString) : CString :=
  CString.fit 192 (instanceId ++ 46 :: service)

-- The four records that `build_response` puts behind the header.
def putPtr (instanceId : CString) : Option Packet := do
  let (p, rdlenPos) ← putRecordHeader p service typePtr classIn ttlSeconds
  let start := p.length
  let p ← putName p (fullInstance instanceId)
  finishRecord p rdlenPos start

def putSrv (instanceId : CString) : Option Packet := do
  let (p, rdlenPos) ← putRecordHeader p (fullInstance instanceId) typeSrv classFlush ttlSeconds
  let start := p.length
  let p ← putU16 p 0
  let p ← putU16 p 0
  let p ← putU16 p httpPort
  let p ← putName p (host instanceId)
  finishRecord p rdlenPos start

def putTxt (addr : InAddr) (instanceId printerName machine firmware : CString) : Option Packet := do
  let (p, rdlenPos) ← putRecordHeader p (fullInstance instanceId) typeTxt classFlush ttlSeconds
  let start := p.length
  let p ← putTxtItem p "type" "printer"
  let p ← putTxtItem p "name" printerName
  let p ← putTxtItem p "address" (inetNtop addr)
  let p ← putTxtItem p "machine" machine
  let p ← putTxtItem p "firmware_version" firmware
  let p ← putTxtItem p "cluster_size" "1"
  finishRecord p rdlenPos start

def putA (addr : InAddr) (instanceId : CString) : Option Packet := do
  let (p, rdlenPos) ← putRecordHeader p (host instanceId) typeA classFlush ttlSeconds
  let start := p.length
  let p ← putBytes p addr.bytes
  finishRecord p rdlenPos start

def buildResponse (addr : InAddr) (instanceId printerName machine firmware : CString) :
    Option Packet := do
  let p ← putU16 [] 0
  let p ← putU16 p 0x8400
  let p ← putU16 p 0
  let p ← putU16 p 4
  let p ← putU16 p 0
  let p ← putU16 p 0
  let p ← putPtr p instanceId
  let p ← putSrv p instanceId
  let p ← putTxt p addr instanceId printerName machine firmware
  putA p addr instanceId

end Deneb.Mdns
