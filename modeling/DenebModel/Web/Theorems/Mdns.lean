import DenebModel.Web.Mdns
import Mathlib.Data.List.TakeWhile

namespace Deneb.Mdns

open Octets Dns

section

variable {p q data : Bytes} {v n : Nat} {name : Name} {label key value : CString}

theorem be_two : be 2 v = [(v >>> 8).toUInt8, (v &&& 0xff).toUInt8] := by
  have low : (v &&& 0xff).toUInt8 = v.toUInt8 := by
    rw [Nat.and_two_pow_sub_one_eq_mod (n := 8)]
    exact UInt8.toNat_inj.mp (by simp)
  rw [low, Nat.shiftRight_eq_div_pow, be, be, be, Nat.pow_zero, Nat.div_one, Nat.pow_one]

theorem be_four : be 4 v = be 2 (v >>> 16) ++ be 2 (v &&& 0xffff) := by
  rw [Nat.and_two_pow_sub_one_eq_mod v 16, Nat.shiftRight_eq_div_pow]
  have high : v / 256 ^ 3 = v / 2 ^ 16 / 256 ^ 1 := by omega
  have next : v / 256 ^ 2 = v / 2 ^ 16 / 256 ^ 0 := by omega
  have third : (v / 256 ^ 1).toUInt8 = (v % 2 ^ 16 / 256 ^ 1).toUInt8 :=
    UInt8.toNat_inj.mp (show v / 256 ^ 1 % 256 = v % 2 ^ 16 / 256 ^ 1 % 256 by omega)
  have last : (v / 256 ^ 0).toUInt8 = (v % 2 ^ 16 / 256 ^ 0).toUInt8 :=
    UInt8.toNat_inj.mp (show v / 256 ^ 0 % 256 = v % 2 ^ 16 / 256 ^ 0 % 256 by omega)
  exact congrArg₂ List.cons (congrArg _ high) (congrArg₂ List.cons (congrArg _ next)
    (congrArg₂ List.cons third (congrArg₂ List.cons last rfl)))

theorem putU8_eq (h : p.length + 1 ≤ maxData) : putU8 p v = some (p ++ [v.toUInt8]) :=
  if_neg (Nat.not_lt.mpr h)

theorem putU16_eq (h : p.length + 2 ≤ maxData) : putU16 p v = some (p ++ be 2 v) := by
  rw [be_two]
  exact if_neg (Nat.not_lt.mpr h)

theorem putU32_eq (h : p.length + 4 ≤ maxData) : putU32 p v = some (p ++ be 4 v) := by
  rw [putU32, putU16_eq (by omega), Option.bind_eq_bind, Option.bind_some, putU16_eq, be_four,
    List.append_assoc]
  rw [List.length_append, length_be]
  omega

theorem putBytes_eq (h : p.length + data.length ≤ maxData) : putBytes p data = some (p ++ data) :=
  if_neg (Nat.not_lt.mpr h)

theorem putName_text (hn : ∀ label ∈ name, label ≠ [] ∧ label.length ≤ 63 ∧ 46 ∉ label)
    (h : p.length + (Name.bytes name).length ≤ maxData) :
    putName p (Name.text name) = some (p ++ Name.bytes name) := by
  induction name generalizing p
  case nil =>
    rw [Name.text, putName, if_pos rfl]
    exact putU8_eq h
  case cons label name ih =>
    have ⟨hne, hl, hd⟩ := hn label (.head _)
    have hall : ∀ c ∈ label, (c != 46) = true := by
      intro c hc
      rw [bne_iff_ne]
      rintro rfl
      exact hd hc
    rw [bytes_cons] at h ⊢
    simp only [List.length_append, List.length_cons] at h
    have one : (label.length.toUInt8 :: label : Bytes) = [label.length.toUInt8] ++ label := rfl
    have length : putU8 p label.length = some (p ++ [label.length.toUInt8]) := putU8_eq (by omega)
    have text : putBytes (p ++ [label.length.toUInt8]) label =
        some (p ++ label.length.toUInt8 :: label) := by
      rw [putBytes_eq (by simp; omega), List.append_assoc]
      rfl
    cases name
    case nil =>
      have all := @List.takeWhile_append_of_pos _ _ label [] hall
      have none := @List.dropWhile_append_of_pos _ _ label [] hall
      rw [List.append_nil] at all none
      rw [Name.text, putName, if_neg hne, all, none]
      simp only [List.takeWhile_nil, List.append_nil, Nat.not_lt.mpr hl, if_false, length, text,
        Option.bind_eq_bind, Option.bind_some, List.dropWhile_nil]
      rw [putU8_eq (by simp [Name.bytes] at h ⊢; omega), List.append_assoc]
      rfl
    case cons next name =>
      have first := @List.takeWhile_append_of_pos _ _ label (46 :: Name.text (next :: name)) hall
      have others := @List.dropWhile_append_of_pos _ _ label (46 :: Name.text (next :: name)) hall
      have hn' : label ++ 46 :: Name.text (next :: name) ≠ [] := by simp
      rw [Name.text, putName, if_neg hn', first, others]
      simp only [List.takeWhile_cons, bne_self_eq_false, Bool.false_eq_true, List.append_nil, if_false,
        Nat.not_lt.mpr hl, length, text, Option.bind_eq_bind, Option.bind_some]
      split
      case h_1 h => cases h
      case h_2 h =>
        cases h
        rw [ih (fun label hm => hn label (.tail _ hm)) (by simp; omega), List.append_assoc]

-- A record is put as it is written once its data is.
theorem putRecordHeader_eq {type klass ttl : Nat}
    (hn : ∀ label ∈ name, label ≠ [] ∧ label.length ≤ 63 ∧ 46 ∉ label)
    (h : p.length + (Name.bytes name).length + 10 ≤ maxData) :
    let front := p ++ (Name.bytes name ++ be 2 type ++ be 2 klass ++ be 4 ttl)
    putRecordHeader p (Name.text name) type klass ttl = some (front ++ [0, 0], front.length) := by
  have zero : be 2 0 = [0, 0] := by decide
  simp only [putRecordHeader, putName_text hn (by omega : p.length + _ ≤ maxData), Option.bind_eq_bind,
    Option.bind_some]
  rw [putU16_eq (by simp; omega), Option.bind_some, putU16_eq (by simp; omega), Option.bind_some,
    putU32_eq (by simp; omega), Option.bind_some, putU16_eq (by simp; omega), Option.bind_some, zero]
  simp only [List.append_assoc]

theorem finishRecord_eq (h : data.length ≤ 0xffff) :
    finishRecord (p ++ [0, 0] ++ data) p.length (p ++ [0, 0]).length =
      some (p ++ (be 2 data.length ++ data)) := by
  have hl : (p ++ [0, 0] ++ data).length - (p ++ [0, 0]).length = data.length := by
    rw [List.length_append]
    omega
  simp only [finishRecord, hl, Nat.not_lt.mpr h, if_false, be_two, Option.some_inj]
  simp

end

-- An item as it should be, and as it is sent.
def txtText (t : CString × CString) : Bytes :=
  t.1 ++ 61 :: t.2

def txtItem (t : CString × CString) : Bytes :=
  (CString.fit 255 (txtText t) ++ [0]).take (txtText t).length

def putTexts (p : Packet) (texts : List (CString × CString)) : Option Packet :=
  texts.foldlM (fun p t => putTxtItem p t.1 t.2) p

section

variable {p q : Packet} {t : CString × CString} {texts : List (CString × CString)}

theorem length_txtItem (h : (txtText t).length ≤ 255) : (txtItem t).length = (txtText t).length := by
  simp only [txtItem, CString.fit, List.length_take, List.length_append, List.length_singleton]
  omega

theorem txtItem_of_lt (h : (txtText t).length < 255) : txtItem t = txtText t := by
  rw [txtItem, CString.fit_of_length_lt h, List.take_left]

-- The last byte of an item that fills its buffer is lost.
theorem txtItem_of_eq (h : (txtText t).length = 255) (hz : 0 ∉ t.2) : txtItem t ≠ txtText t := by
  intro he
  have last : (txtItem t).getLast? = some 0 := by
    have hl : (CString.fit 255 (txtText t) ++ [0]).length ≤ (txtText t).length := by
      simp [CString.fit, h]
    rw [txtItem, List.take_of_length_le hl, List.getLast?_concat]
  rw [he, txtText, List.getLast?_append_of_ne_nil _ (by simp)] at last
  have hm := List.mem_of_getLast? last
  rcases List.mem_cons.mp hm with h | h
  · cases h
  · exact hz h

theorem putTxtItem_eq_ite : putTxtItem p t.1 t.2 =
    if 255 < (txtText t).length then none
    else (putU8 p (txtText t).length).bind fun p => putBytes p (txtItem t) :=
  rfl

theorem putTxtItem_eq (h : (txtText t).length ≤ 255) (hp : p.length + (txtText t).length + 1 ≤ maxData) :
    putTxtItem p t.1 t.2 = some (p ++ (txtItem t).length.toUInt8 :: txtItem t) := by
  have hl := length_txtItem h
  have text : putBytes (p ++ [(txtText t).length.toUInt8]) (txtItem t) =
      some (p ++ (txtText t).length.toUInt8 :: txtItem t) := by
    rw [putBytes_eq (by simp [hl]; omega), List.append_assoc]
    rfl
  rw [putTxtItem_eq_ite, if_neg (Nat.not_lt.mpr h), putU8_eq (by omega), hl, Option.bind_some, text]

theorem length_le_of_putTxtItem (h : putTxtItem p t.1 t.2 = some q) : (txtText t).length ≤ 255 := by
  by_contra hc
  rw [putTxtItem_eq_ite, if_pos (Nat.lt_of_not_le hc)] at h
  cases h

theorem putTexts_eq (h : ∀ t ∈ texts, (txtText t).length ≤ 255)
    (hp : p.length + (Data.txt (texts.map txtItem)).bytes.length ≤ maxData) :
    putTexts p texts = some (p ++ (Data.txt (texts.map txtItem)).bytes) := by
  induction texts generalizing p
  case nil => simp [putTexts, Data.bytes]
  case cons t texts ih =>
    have ht := h t (.head _)
    have hl := length_txtItem ht
    simp only [Data.bytes, List.map_cons, List.flatMap_cons, List.length_append, List.length_cons] at hp ih ⊢
    rw [putTexts, List.foldlM_cons, putTxtItem_eq ht (by omega)]
    refine (ih (fun t hm => h t (.tail _ hm)) ?_).trans ?_
    · simp only [List.length_append, List.length_cons]
      omega
    · rw [List.append_assoc]

theorem length_le_of_putTexts (h : putTexts p texts = some q) : ∀ t ∈ texts, (txtText t).length ≤ 255 := by
  induction texts generalizing p
  case nil => exact nofun
  case cons t texts ih =>
    rw [putTexts, List.foldlM_cons, Option.bind_eq_bind, Option.bind_eq_some_iff] at h
    obtain ⟨p', ht, h⟩ := h
    intro t' hm
    cases hm
    case head => exact length_le_of_putTxtItem ht
    case tail hm => exact ih h t' hm

end
def serviceName : Name :=
  [("_ultimaker" : CString), ("_tcp" : CString), ("local" : CString)]

def instanceName (instanceId : CString) : Name :=
  instanceId :: serviceName

def hostName (instanceId : CString) : Name :=
  [instanceId, ("local" : CString)]

def ptrRecord (instanceId : CString) : Record where
  name  := serviceName
  klass := classIn
  ttl   := ttlSeconds
  data  := .ptr (instanceName instanceId)

def srvRecord (instanceId : CString) : Record where
  name  := instanceName instanceId
  klass := classFlush
  ttl   := ttlSeconds
  data  := .srv 0 0 httpPort (hostName instanceId)

def txtRecord (instanceId : CString) (items : List Bytes) : Record where
  name  := instanceName instanceId
  klass := classFlush
  ttl   := ttlSeconds
  data  := .txt items

def aRecord (addr : InAddr) (instanceId : CString) : Record where
  name  := hostName instanceId
  klass := classFlush
  ttl   := ttlSeconds
  data  := .a addr.bytes

def response (addr : InAddr) (instanceId : CString) (items : List Bytes) : Message where
  id          := 0
  flags       := 0x8400
  questions   := []
  answers     := [ptrRecord instanceId, srvRecord instanceId, txtRecord instanceId items, aRecord addr instanceId]
  authorities := []
  additionals := []

def texts (addr : InAddr) (printerName machine firmware : CString) : List (CString × CString) := [
  ("type", "printer"), ("name", printerName), ("address", inetNtop addr), ("machine", machine),
  ("firmware_version", firmware), ("cluster_size", "1")]

-- What a packet should announce.
def announcement (addr : InAddr) (instanceId printerName machine firmware : CString) : Message :=
  response addr instanceId ((texts addr printerName machine firmware).map txtText)

-- The lengths of the items that carry a value of any length.
def itemLengths (printerName machine firmware : CString) : List Nat :=
  [5 + printerName.length, 8 + machine.length, 17 + firmware.length]

-- A text that can stand in front of the first dot of a name.
structure IsLabel (label : CString) : Prop where
  nonempty : label ≠ []
  length   : label.length ≤ 63
  no_dot   : 46 ∉ label

section

variable {p : Packet} {addr : InAddr} {instanceId printerName machine firmware : CString}
variable {record : Record} {items : List Bytes}

theorem service_label : ∀ label ∈ serviceName, label ≠ [] ∧ label.length ≤ 63 ∧ 46 ∉ label := by
  decide

theorem instance_label (h : IsLabel instanceId) :
    ∀ label ∈ instanceName instanceId, label ≠ [] ∧ label.length ≤ 63 ∧ 46 ∉ label := by
  intro label hm
  cases hm
  case head => exact ⟨h.nonempty, h.length, h.no_dot⟩
  case tail hm => exact service_label label hm

theorem host_label (h : IsLabel instanceId) :
    ∀ label ∈ hostName instanceId, label ≠ [] ∧ label.length ≤ 63 ∧ 46 ∉ label := by
  intro label hm
  cases hm
  case head => exact ⟨h.nonempty, h.length, h.no_dot⟩
  case tail hm => exact service_label label (by simp [serviceName, List.mem_singleton.mp hm])

theorem fullInstance_eq (h : IsLabel instanceId) : fullInstance instanceId = Name.text (instanceName instanceId) := by
  have : (instanceId ++ 46 :: service).length < 192 := by
    have := h.length
    rw [List.length_append, show (46 :: service : CString).length = 22 by decide]
    omega
  rw [fullInstance, CString.fit_of_length_lt this]
  rfl

theorem host_eq (h : IsLabel instanceId) : host instanceId = Name.text (hostName instanceId) := by
  have : (instanceId ++ CString.ofString ".local").length < 128 := by
    have := h.length
    rw [List.length_append, show (CString.ofString ".local").length = 6 by decide]
    omega
  rw [host, CString.fit_of_length_lt this]
  rfl

theorem length_instance : (Name.bytes (instanceName instanceId)).length = instanceId.length + 24 := by
  rw [instanceName, bytes_cons, List.length_append, List.length_cons,
    show (Name.bytes serviceName).length = 23 by decide]

theorem length_host : (Name.bytes (hostName instanceId)).length = instanceId.length + 8 := by
  rw [hostName, bytes_cons, List.length_append, List.length_cons,
    show (Name.bytes [("local" : CString)]).length = 7 by decide]

theorem length_record : record.bytes.length =
    (Name.bytes record.name).length + 10 + record.data.bytes.length := by
  simp only [Record.bytes, List.length_append, length_be]

-- A record is put as the wire format has it once its data is.
theorem putRecord_eq {put : Packet → Option Packet}
    (hn : ∀ label ∈ record.name, label ≠ [] ∧ label.length ≤ 63 ∧ 46 ∉ label)
    (h : p.length + record.bytes.length ≤ maxData)
    (hput : ∀ q : Packet, q.length + record.data.bytes.length ≤ maxData →
      put q = some (q ++ record.data.bytes)) :
    ((putRecordHeader p (Name.text record.name) record.data.type record.klass record.ttl).bind fun x =>
      (put x.1).bind fun q => finishRecord q x.2 x.1.length) = some (p ++ record.bytes) := by
  rw [length_record] at h
  have header := @putRecordHeader_eq p record.name record.data.type record.klass record.ttl hn (by omega)
  have small : record.data.bytes.length ≤ 0xffff := by
    unfold maxData at h
    omega
  rw [header, Option.bind_some, hput, Option.bind_some, finishRecord_eq small]
  · simp only [Record.bytes, List.append_assoc]
  · simp only [List.length_append, length_be, List.length_cons, List.length_nil]
    omega

theorem putPtr_eq (hi : IsLabel instanceId) (h : p.length + (ptrRecord instanceId).bytes.length ≤ maxData) :
    putPtr p instanceId = some (p ++ (ptrRecord instanceId).bytes) := by
  refine @putRecord_eq p (ptrRecord instanceId) (putName · (fullInstance instanceId)) service_label h
    fun q hq => ?_
  rw [fullInstance_eq hi]
  exact putName_text (instance_label hi) hq

theorem putSrv_eq (hi : IsLabel instanceId) (h : p.length + (srvRecord instanceId).bytes.length ≤ maxData) :
    putSrv p instanceId = some (p ++ (srvRecord instanceId).bytes) := by
  rw [putSrv, fullInstance_eq hi]
  have put := @putRecord_eq p (srvRecord instanceId) (fun q => (putU16 q 0).bind fun q => (putU16 q 0).bind
    fun q => (putU16 q httpPort).bind fun q => putName q (host instanceId)) (instance_label hi) h
  simp only [Option.bind_assoc] at put
  refine put fun q hq => ?_
  simp only [srvRecord, Data.bytes, List.length_append, length_be] at hq
  rw [putU16_eq (by omega), Option.bind_some, putU16_eq (by simp; omega), Option.bind_some,
    putU16_eq (by simp; omega), Option.bind_some, host_eq hi,
    putName_text (host_label hi) (by simp only [List.length_append, length_be]; omega)]
  simp only [srvRecord, Data.bytes, List.append_assoc]

theorem putA_eq (hi : IsLabel instanceId) (h : p.length + (aRecord addr instanceId).bytes.length ≤ maxData) :
    putA p addr instanceId = some (p ++ (aRecord addr instanceId).bytes) := by
  rw [putA, host_eq hi]
  exact @putRecord_eq p (aRecord addr instanceId) (putBytes · addr.bytes) (host_label hi) h
    fun q hq => putBytes_eq hq

theorem putTxt_eq_putTexts : putTxt p addr instanceId printerName machine firmware =
    (putRecordHeader p (fullInstance instanceId) typeTxt classFlush ttlSeconds).bind fun x =>
      (putTexts x.1 (texts addr printerName machine firmware)).bind fun q =>
        finishRecord q x.2 x.1.length := by
  simp only [putTexts, texts, List.foldlM_cons, List.foldlM_nil, Option.bind_eq_bind, Option.bind_assoc,
    Option.pure_def, Option.bind_some]
  rfl

theorem putTxt_eq (hi : IsLabel instanceId)
    (ht : ∀ t ∈ texts addr printerName machine firmware, (txtText t).length ≤ 255)
    (h : p.length + (txtRecord instanceId ((texts addr printerName machine firmware).map txtItem)).bytes.length
      ≤ maxData) :
    putTxt p addr instanceId printerName machine firmware =
      some (p ++ (txtRecord instanceId ((texts addr printerName machine firmware).map txtItem)).bytes) := by
  rw [putTxt_eq_putTexts, fullInstance_eq hi]
  refine @putRecord_eq p (txtRecord instanceId _) (putTexts · (texts addr printerName machine firmware))
    (instance_label hi) h fun q hq => putTexts_eq ht hq

theorem length_inetNtop : (inetNtop addr).length ≤ 15 := by
  have short (b : UInt8) : (BinaryFloat.digits b.toNat).length ≤ 3 := by
    have := b.toNat_lt
    rw [BinaryFloat.digits, List.length_map, Nat.length_toDigits_le_iff (by decide) (by decide)]
    omega
  have := short addr.a
  have := short addr.b
  have := short addr.c
  have := short addr.d
  simp only [inetNtop, List.length_append, List.length_cons]
  omega

theorem length_address : (txtText ("address", inetNtop addr)).length ≤ 23 := by
  rw [txtText, List.length_append, List.length_cons, show ("address" : CString).length = 7 by decide]
  exact Nat.add_le_add_left (Nat.succ_le_succ length_inetNtop) 7

theorem length_texts (ht : ∀ t ∈ texts addr printerName machine firmware, (txtText t).length ≤ 255) :
    (Data.txt ((texts addr printerName machine firmware).map txtItem)).bytes.length ≤ 820 := by
  have address := @length_address addr
  have name := ht ("name", printerName) (by simp [texts])
  have machine := ht ("machine", machine) (by simp [texts])
  have firmware := ht ("firmware_version", firmware) (by simp [texts])
  have type : (txtItem ("type", "printer")).length = 12 := by decide
  have size : (txtItem ("cluster_size", "1")).length = 14 := by decide
  have := length_txtItem name
  have := length_txtItem machine
  have := length_txtItem firmware
  have := length_txtItem (Nat.le_trans address (by decide))
  simp only [texts, List.map_cons, List.map_nil, Data.bytes, List.flatMap_cons, List.flatMap_nil,
    List.length_append, List.length_cons, List.length_nil]
  omega

theorem length_ptr : (ptrRecord instanceId).bytes.length = instanceId.length + 57 := by
  rw [length_record]
  simp only [ptrRecord, Data.bytes, length_instance, show (Name.bytes serviceName).length = 23 by decide]
  omega

theorem length_srv : (srvRecord instanceId).bytes.length = 2 * instanceId.length + 48 := by
  rw [length_record]
  simp only [srvRecord, Data.bytes, List.length_append, length_be, length_instance, length_host]
  omega

theorem length_txt : (txtRecord instanceId items).bytes.length =
    instanceId.length + 34 + (Data.txt items).bytes.length := by
  rw [length_record]
  simp only [txtRecord, length_instance]

theorem length_a : (aRecord addr instanceId).bytes.length = instanceId.length + 22 := by
  rw [length_record]
  simp only [aRecord, Data.bytes, InAddr.bytes, length_host, List.length_cons, List.length_nil]

-- Each record is put where the one before ends, and all fit.
theorem buildResponse_eq (hi : IsLabel instanceId)
    (ht : ∀ t ∈ texts addr printerName machine firmware, (txtText t).length ≤ 255) :
    buildResponse addr instanceId printerName machine firmware =
      some (response addr instanceId ((texts addr printerName machine firmware).map txtItem)).bytes := by
  have hl := hi.length
  have hd := length_texts ht
  simp only [buildResponse, Option.bind_eq_bind]
  rw [putU16_eq (by decide), Option.bind_some, putU16_eq (by decide), Option.bind_some,
    putU16_eq (by decide), Option.bind_some, putU16_eq (by decide), Option.bind_some,
    putU16_eq (by decide), Option.bind_some, putU16_eq (by decide), Option.bind_some]
  rw [putPtr_eq hi, Option.bind_some, putSrv_eq hi, Option.bind_some, putTxt_eq hi ht, Option.bind_some,
    putA_eq hi]
  · simp [response, Message.bytes]
  all_goals
    simp only [List.length_append, length_be, length_ptr, length_srv, length_txt, length_a, maxData,
      List.length_nil]
    omega

theorem response_ok (hi : IsLabel instanceId) (hn : items ≠ []) (ht : ∀ item ∈ items, item.length ≤ 255)
    (hl : (Data.txt items).bytes.length < 65536) : (response addr instanceId items).Ok := by
  have := hi.length
  have classIn_lt : classIn < 65536 := by decide
  have classFlush_lt : classFlush < 65536 := by decide
  have ttl : ttlSeconds < 2 ^ 32 := by decide
  have service : Name.Ok serviceName :=
    ⟨fun label hm => have h := service_label label hm; ⟨h.left, h.right.left⟩, by decide⟩
  have inst : Name.Ok (instanceName instanceId) :=
    ⟨fun label hm => have h := instance_label hi label hm; ⟨h.left, h.right.left⟩,
      by rw [length_instance]; omega⟩
  have host : Name.Ok (hostName instanceId) :=
    ⟨fun label hm => have h := host_label hi label hm; ⟨h.left, h.right.left⟩,
      by rw [length_host]; omega⟩
  have records : ∀ r ∈ (response addr instanceId items).answers, r.Ok := by
    intro r hm
    simp only [response, List.mem_cons, List.not_mem_nil, or_false] at hm
    rcases hm with rfl | rfl | rfl | rfl
    · exact ⟨service, classIn_lt, ttl, inst, by simp only [ptrRecord, Data.bytes, length_instance]; omega⟩
    · refine ⟨inst, classFlush_lt, ttl, ⟨by decide, by decide, by decide, host⟩, ?_⟩
      simp only [srvRecord, Data.bytes, List.length_append, length_be, length_host]
      omega
    · exact ⟨inst, classFlush_lt, ttl, ⟨hn, ht⟩, hl⟩
    · exact ⟨host, classFlush_lt, ttl, rfl, show 4 < 65536 by decide⟩
  exact {
    id          := show 0 < 65536 by decide
    flags       := show 0x8400 < 65536 by decide
    questions   := ⟨show 0 < 65536 by decide, List.forall_mem_nil _⟩
    answers     := ⟨show 4 < 65536 by decide, records⟩
    authorities := ⟨show 0 < 65536 by decide, List.forall_mem_nil _⟩
    additionals := ⟨show 0 < 65536 by decide, List.forall_mem_nil _⟩ }

theorem length_le_of_buildResponse {packet : Packet}
    (h : buildResponse addr instanceId printerName machine firmware = some packet) :
    ∀ t ∈ texts addr printerName machine firmware, (txtText t).length ≤ 255 := by
  simp only [buildResponse, Option.bind_eq_bind, Option.bind_eq_some_iff] at h
  obtain ⟨_, -, _, -, _, -, _, -, _, -, _, -, _, -, _, -, _, htxt, -⟩ := h
  rw [putTxt_eq_putTexts, Option.bind_eq_some_iff] at htxt
  obtain ⟨_, -, htxt⟩ := htxt
  obtain ⟨_, htexts, -⟩ := Option.bind_eq_some_iff.mp htxt
  exact length_le_of_putTexts htexts

-- What a receiver reads from the packet.
theorem decode_response (hi : IsLabel instanceId)
    (ht : ∀ t ∈ texts addr printerName machine firmware, (txtText t).length ≤ 255) :
    Dns.decode (response addr instanceId ((texts addr printerName machine firmware).map txtItem)).bytes =
      some (response addr instanceId ((texts addr printerName machine firmware).map txtItem)) := by
  refine decode_bytes (response_ok hi (by simp [texts]) ?_ (Nat.lt_of_le_of_lt (length_texts ht) (by decide)))
  intro item hm
  obtain ⟨t, htm, rfl⟩ := List.mem_map.mp hm
  exact (length_txtItem (ht t htm)).trans_le (ht t htm)

theorem response_inj {items items' : List Bytes}
    (h : response addr instanceId items = response addr instanceId items') : items = items' := by
  simpa [response, txtRecord] using h

theorem exists_text {n : Nat} (h : n ∈ itemLengths printerName machine firmware) :
    ∃ t ∈ texts addr printerName machine firmware, (txtText t).length = n ∧
      (t.2 = printerName ∨ t.2 = machine ∨ t.2 = firmware) := by
  simp only [itemLengths, List.mem_cons, List.not_mem_nil, or_false] at h
  rcases h with rfl | rfl | rfl
  · exact ⟨("name", printerName), by simp [texts], by simp [txtText, CString.ofString]; omega, .inl rfl⟩
  · exact ⟨("machine", machine), by simp [texts], by simp [txtText, CString.ofString]; omega, .inr (.inl rfl)⟩
  · exact ⟨("firmware_version", firmware), by simp [texts], by simp [txtText, CString.ofString]; omega,
      .inr (.inr rfl)⟩

theorem length_text {t : CString × CString} (h : t ∈ texts addr printerName machine firmware) :
    (txtText t).length ∈ itemLengths printerName machine firmware ∨ (txtText t).length < 255 := by
  simp only [texts, List.mem_cons, List.not_mem_nil, or_false] at h
  rcases h with rfl | rfl | rfl | rfl | rfl | rfl
  case inl                             => exact .inr (by decide)
  case inr.inl                         => exact .inl (by simp [itemLengths, txtText, CString.ofString]; omega)
  case inr.inr.inl                     => exact .inr (Nat.lt_of_le_of_lt length_address (by decide))
  case inr.inr.inr.inl                 => exact .inl (by simp [itemLengths, txtText, CString.ofString]; omega)
  case inr.inr.inr.inr.inl             => exact .inl (by simp [itemLengths, txtText, CString.ofString]; omega)
  case inr.inr.inr.inr.inr             => exact .inr (by decide)

-- An item that fills its buffer to the last byte is announced without that byte.
theorem lengths_of_complete (hi : IsLabel instanceId)
    (hn : 0 ∉ printerName) (hm : 0 ∉ machine) (hf : 0 ∉ firmware)
    (h : ∀ packet, buildResponse addr instanceId printerName machine firmware = some packet →
      Dns.decode packet = some (announcement addr instanceId printerName machine firmware))
    (hle : ∀ n ∈ itemLengths printerName machine firmware, n ≤ 255) :
    255 ∉ itemLengths printerName machine firmware := by
  intro hfull
  have ht : ∀ t ∈ texts addr printerName machine firmware, (txtText t).length ≤ 255 := fun t ht =>
    (length_text ht).elim (hle _) Nat.le_of_lt
  have same := h _ (buildResponse_eq hi ht)
  rw [decode_response hi ht, Option.some_inj] at same
  have items := List.map_inj_left.mp (response_inj same)
  obtain ⟨t, hmem, hl, hv⟩ := @exists_text addr printerName machine firmware _ hfull
  have hz : 0 ∉ t.2 := by rcases hv with h | h | h <;> rwa [h]
  exact txtItem_of_eq hl hz (items t hmem)

theorem decode_of_lengths (hi : IsLabel instanceId) {packet : Packet}
    (hp : buildResponse addr instanceId printerName machine firmware = some packet)
    (h : 255 ∉ itemLengths printerName machine firmware) :
    Dns.decode packet = some (announcement addr instanceId printerName machine firmware) := by
  have ht := length_le_of_buildResponse hp
  have all : (texts addr printerName machine firmware).map txtItem =
      (texts addr printerName machine firmware).map txtText := by
    refine List.map_inj_left.mpr fun t hmem => txtItem_of_lt ?_
    rcases length_text hmem with hl | hl
    · exact Nat.lt_of_le_of_ne (ht t hmem) fun he => h (he ▸ hl)
    · exact hl
  rw [buildResponse_eq hi ht, Option.some_inj] at hp
  rw [← hp, decode_response hi ht, all]
  rfl

-- A packet announces the printer completely if and only if no item is as long as the format allows;
-- there is no packet when one is longer.
theorem announcement_complete (hi : IsLabel instanceId)
    (hn : 0 ∉ printerName) (hm : 0 ∉ machine) (hf : 0 ∉ firmware) :
    (∀ packet, buildResponse addr instanceId printerName machine firmware = some packet →
      Dns.decode packet = some (announcement addr instanceId printerName machine firmware)) ↔
    (∃ n ∈ itemLengths printerName machine firmware, 255 < n) ∨
      255 ∉ itemLengths printerName machine firmware := by
  constructor
  case mp =>
    intro h
    by_contra hc
    push Not at hc
    exact lengths_of_complete hi hn hm hf h hc.left hc.right
  case mpr =>
    rintro (⟨n, hn, hlong⟩ | h) packet hp
    case inl =>
      obtain ⟨t, ht, rfl, -⟩ := @exists_text addr printerName machine firmware _ hn
      exact absurd (length_le_of_buildResponse hp t ht) (Nat.not_le.mpr hlong)
    case inr => exact decode_of_lengths hi hp h

end

theorem printer_complete :
    ∃ packet, buildResponse ⟨192, 168, 1, 20⟩ ("ultimakersystem-a1b2" : CString) ("Deneb UM2C" : CString)
        ("deneb_um2c" : CString) ("4.0.0" : CString) = some packet ∧
      Dns.decode packet = some (announcement ⟨192, 168, 1, 20⟩ ("ultimakersystem-a1b2" : CString)
        ("Deneb UM2C" : CString) ("deneb_um2c" : CString) ("4.0.0" : CString)) := by
  have built : (buildResponse ⟨192, 168, 1, 20⟩ ("ultimakersystem-a1b2" : CString) ("Deneb UM2C" : CString)
      ("deneb_um2c" : CString) ("4.0.0" : CString)).isSome := by decide +kernel
  obtain ⟨packet, h⟩ := Option.isSome_iff_exists.mp built
  refine ⟨packet, h, ?_⟩
  exact (announcement_complete ⟨by decide, by decide, by decide⟩ (by decide) (by decide) (by decide)).mpr
    (.inr (by decide)) packet h

-- A machine whose item is as long as the format allows is announced without its last byte.
theorem last_byte_lost :
    ¬∀ (addr : InAddr) (instanceId printerName machine firmware : CString), IsLabel instanceId →
      0 ∉ printerName → 0 ∉ machine → 0 ∉ firmware →
      ∀ packet, buildResponse addr instanceId printerName machine firmware = some packet →
        Dns.decode packet = some (announcement addr instanceId printerName machine firmware) := by
  intro h
  have complete := h ⟨192, 168, 1, 20⟩ ("ultimakersystem-a1b2" : CString) ("Deneb UM2C" : CString)
    (.replicate 247 65) ("4.0.0" : CString) ⟨by decide, by decide, by decide⟩ (by decide) (by decide)
    (by decide)
  have lengths : itemLengths ("Deneb UM2C" : CString) (.replicate 247 65) ("4.0.0" : CString) =
      [15, 255, 22] := by
    rw [itemLengths, List.length_replicate]
    decide
  exact lengths_of_complete ⟨by decide, by decide, by decide⟩ (by decide) (by decide) (by decide)
    complete (by rw [lengths]; decide) (by rw [lengths]; decide)

end Deneb.Mdns
