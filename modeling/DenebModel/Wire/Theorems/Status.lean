import DenebModel.Primitives.Theorems.Numeral
import DenebModel.Wire.Status
import DenebModel.Wire.Theorems.JsonField

namespace Deneb

open CString BinaryFloat Json

namespace Json

variable {s : CString}

-- The length of a text in JSON: quotes and backslashes take two bytes, and control bytes none.
def textWidth (s : CString) : Nat :=
  s.countP (32 ≤ ·) + s.count 34 + s.count 92

theorem length_escape : (escape s).length = textWidth s := by
  induction s
  case nil => rfl
  case cons c s ih =>
    rw [escape_cons, List.length_append, ih]
    unfold textWidth
    by_cases hq : c = 34
    case pos =>
      subst hq
      simp [escapeByte]
      omega
    case neg =>
      by_cases hb : c = 92
      case pos =>
        subst hb
        simp [escapeByte]
        omega
      case neg =>
        by_cases hc : 32 ≤ c <;> simp [escapeByte, hq, hb, hc]
        omega

theorem length_escapeString {size : Nat} (h : 2 * s.length < size) :
    (escapeString s size).length = textWidth s := by
  rw [escapeString_eq h, length_escape]

end Json

namespace Status

variable {status : Status} {size : Nat}

structure Texts where
  file             : CString
  source           : CString
  uuid             : CString
  cloudJobId       : CString
  req              : CString
  firmware         : CString
  machineType      : CString
  flowLastResponse : CString
  detail           : CString

def texts (status : Status) : Texts where
  file             := status.file
  source           := status.source
  uuid             := status.uuid
  cloudJobId       := status.cloudJobId
  req              := status.req
  firmware         := status.firmware
  machineType      := status.machineType
  flowLastResponse := status.flowLastResponse
  detail           := status.error.detail

-- The lengths that the array sizes of `deneb_status_t` leave for its texts.
structure Texts.Sized (texts : Texts) : Prop where
  file             : texts.file.length < 128
  source           : texts.source.length < 32
  uuid             : texts.uuid.length < 64
  cloudJobId       : texts.cloudJobId.length < 96
  req              : texts.req.length < 32
  firmware         : texts.firmware.length < 64
  machineType      : texts.machineType.length < 16
  flowLastResponse : texts.flowLastResponse.length < 96
  detail           : texts.detail.length < 128

abbrev Sized (status : Status) : Prop :=
  status.texts.Sized

-- The decimal digits of a number.
def digitCount (n : Nat) : Nat :=
  Nat.log 10 n + 1

def widthD (n : Int) : Nat :=
  digitCount n.natAbs + if n < 0 then 1 else 0

def widthU (n : UInt32) : Nat :=
  digitCount n.toNat

-- A number with `p` decimals: the digits of the number in units of the last one, of which one is in
-- front of the point.
def widthF (p : Nat) : BinaryFloat → Nat
  | .nan       => 3
  | .inf s     => 3 + if s then 1 else 0
  | .fin s m e =>
    let (n, d) := scale m 1 (-e)
    max (p + 1) (digitCount (roundQuotient (n * 10 ^ p) d)) + 1 + if s then 1 else 0

def widthB (value : Bool) : Nat :=
  if value then 4 else 5

-- The bytes that the values of a status take: its texts, without their quotes, and its numbers.
def textsWidth (status : Status) : Nat :=
  2 * textWidth (safeValue status.file) + textWidth status.flowLastResponse +
  textWidth status.error.detail + textWidth (safeValue status.firmware) +
  textWidth (safeValue status.machineType) + textWidth status.uuid + textWidth status.source +
  textWidth status.cloudJobId + textWidth status.safeReq

def namesWidth (status : Status) : Nat :=
  (PrintControl.phaseName (PrintControl.phaseFromState status.state)).length +
  status.error.key.length + status.error.category.length

def flagsWidth (status : Status) : Nat :=
  widthB status.topcapPresent + widthB status.homeDistanceValid + widthB status.hasActivePrint +
  widthB (PrintControl.phaseStopAllowed (PrintControl.phaseFromState status.state)) +
  widthB status.pcbIdValid + if status.fault then 3 else 2

def measuresWidth (status : Status) : Nat :=
  widthF 1 status.headTSet + widthF 1 status.headTCur + widthF 1 status.bedTSet +
  widthF 1 status.bedTCur + widthF 1 status.topcapTCur + widthF 3 status.x + widthF 3 status.y +
  widthF 3 status.z + widthF 3 status.e + widthF 3 status.homeX + widthF 3 status.homeY +
  widthF 3 status.homeZ

def countersWidth (status : Status) : Nat :=
  widthU status.flowInflight + widthU status.flowSent + widthU status.flowAck +
  widthU status.flowResend + widthU status.flowReject + widthU status.jobQueueDepth +
  widthU status.jobLineNumber + widthU status.commandLatencyMs +
  widthU status.plannerStarvationCount + widthU status.positionReportCount +
  widthD status.pcbId + widthD status.timeTotal + widthD status.timeLeft

def width (status : Status) : Nat :=
  status.textsWidth + status.namesWidth + status.flagsWidth + status.measuresWidth +
  status.countersWidth

theorem length_digits {n : Nat} : (digits n).length = digitCount n := by
  by_cases hn : n = 0
  case pos => rw [hn]; rfl
  case neg =>
    refine BinaryFloat.length_digits (Nat.succ_pos _) ?_ ?_
    case refine_1 => exact Nat.pow_log_le_self 10 hn
    case refine_2 => exact Nat.lt_pow_succ_log_self (by decide) n

theorem length_formatD {n : Int} : (formatD n).length = widthD n := by
  unfold formatD widthD
  split <;> simp [length_digits]

theorem length_formatU {n : UInt32} : (formatU n).length = widthU n :=
  length_digits

theorem length_formatF {p : Nat} {x : BinaryFloat} (hp : 0 < p) :
    (formatF p x).length = widthF p x := by
  cases x
  case nan   => rfl
  case inf s => cases s <;> rfl
  case fin s m e =>
    have hs : (formatG.sign s).length = if s then 1 else 0 := by cases s <;> rfl
    simp only [formatF, widthF, List.length_append, hs, hp.ne', if_neg, not_false_eq_true,
      List.length_cons, List.length_take, List.length_drop, padLeft, List.length_replicate,
      length_digits]
    omega

theorem length_boolValue {value : Bool} : (boolValue value).length = widthB value := by
  cases value <;> rfl

theorem length_quotedValue {value : CString} : (quotedValue value).length = value.length + 2 := by
  simp [quotedValue]

theorem length_intercalate {l : List CString} (h : l ≠ []) :
    (List.intercalate [44] l).length + 1 = (l.map (·.length + 1)).sum := by
  induction l
  case nil => contradiction
  case cons first l ih =>
    cases l
    case nil => simp [List.intercalate]
    case cons second l =>
      have := ih nofun
      simp [List.intercalate, List.intersperse] at this ⊢
      omega

-- The keys do not depend on the status.
theorem fields_keys : status.fields.map Prod.fst = ({} : Status).fields.map Prod.fst :=
  rfl

theorem length_payload : status.payload.length =
    (({} : Status).fields.map fun field => field.1.length + 4).sum +
      (status.fields.map fun field => field.2.length).sum + 1 := by
  have hm {fields : List (CString × CString)} : ((fields.map member).map (·.length + 1)).sum =
      ((fields.map Prod.fst).map (·.length + 4)).sum + (fields.map (·.2.length)).sum := by
    induction fields
    case nil => rfl
    case cons field fields ih =>
      simp only [List.map_cons, List.sum_cons, ih, member, List.length_append, List.length_cons,
        List.length_nil]
      omega
  have hl := length_intercalate (l := status.fields.map member) nofun
  rw [hm, fields_keys, List.map_map] at hl
  have : status.payload.length = (List.intercalate [44] (status.fields.map member)).length + 2 := by
    simp [payload]
  have same : (fun field : CString × CString => field.1.length + 4) =
      (fun key : CString => key.length + 4) ∘ Prod.fst := rfl
  rw [same]
  omega

theorem Sized.values_length (h : status.Sized) :
    (status.fields.map fun field => field.2.length).sum = 28 + status.width := by
  have safe {value : CString} {n : Nat} (hv : value.length < n) (hn : 4 < n) :
      (safeValue value).length < n := by
    unfold safeValue
    split
    case isTrue  => exact hn
    case isFalse => exact hv
  have req : status.safeReq.length < 32 := by
    unfold safeReq
    split
    case isTrue  => cases status.state <;> decide
    case isFalse => exact h.req
  have text {s : CString} {n : Nat} (size : Nat) (hs : s.length < n) (hn : 2 * n ≤ size + 1) :
      (escapeString s size).length = textWidth s := length_escapeString (by omega)
  have file        := text 256 (safe h.file (by decide)) (by decide)
  have firmware    := text 128 (safe h.firmware (by decide)) (by decide)
  have machineType := text 48 (safe h.machineType (by decide)) (by decide)
  have response    := text 192 h.flowLastResponse (by decide)
  have detail      := text 256 h.detail (by decide)
  have uuid        := text 128 h.uuid (by decide)
  have source      := text 80 h.source (by decide)
  have cloudJobId  := text 192 h.cloudJobId (by decide)
  have req         := text 80 req (by decide)
  have faults : (if status.fault then ("[1]" : CString) else "[]").length =
      if status.fault then 3 else 2 := by cases status.fault <;> rfl
  have zero : widthU 0 = 1 := by simp [widthU, digitCount]
  simp only [texts] at file firmware machineType response detail uuid source cloudJobId
  simp only [fields, reportFields, counterFields, phaseFields, jobFields, List.map_append,
    List.map_cons, List.map_nil, List.sum_append, List.sum_cons, List.sum_nil, length_quotedValue,
    length_boolValue, length_formatD, length_formatU, @length_formatF 1 _ (by decide),
    @length_formatF 3 _ (by decide), faults, zero, file, firmware, machineType, response, detail, uuid,
    source, cloudJobId, req, width, textsWidth, namesWidth, flagsWidth, measuresWidth, countersWidth]
  omega

theorem Sized.payload_length (h : status.Sized) : status.payload.length = 691 + status.width := by
  have keys : (({} : Status).fields.map fun field => field.1.length + 4).sum = 662 := by
    decide +kernel
  rw [length_payload, h.values_length, keys]
  omega

-- The room that the values of a status have in the payload.
theorem Sized.serializeFrame_isSome (h : status.Sized) (hs : 1600 ≤ size) :
    (status.serializeFrame size).isSome ↔ status.width ≤ 844 := by
  have hl := h.payload_length
  have topic : (ofString "10001<").length = 6 := rfl
  unfold serializeFrame serializePayload snprintf
  by_cases fits : status.payload.length < 1536
  case pos =>
    have room : (ofString "10001<" ++ status.payload).length < size := by
      rw [List.length_append, topic]
      omega
    simp only [if_pos fits, Option.bind_eq_bind, Option.bind_some, if_pos room, Option.isSome_some,
      true_iff]
    omega
  case neg =>
    simp only [if_neg fits, Option.bind_eq_bind, Option.bind_none, Option.isSome_none,
      Bool.false_eq_true, false_iff]
    omega

end Status

end Deneb
