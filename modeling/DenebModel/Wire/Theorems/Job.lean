import DenebModel.Primitives.Theorems.Decimal
import DenebModel.Wire.Command
import DenebModel.Wire.Theorems.JsonField

namespace Deneb.Command

open CString Json BinaryFloat

def fileMember (path : CString) : List Member :=
  [("file", .text path)]

-- The members that may be missing from a JOB frame.
def optText (key value : CString) : List Member :=
  if value.isEmpty then [] else [(key, .text value)]

def optTarget (key : CString) (k : Nat) : List Member :=
  if k = 0 then [] else [(key, .bare (tenths k))]

section

variable {size k : Nat} {key value out frame : CString} {ms : List Member}

theorem appendField_eq_some (h : appendField size key value (out ++ ms.flatMap Member.render) = some frame) :
    frame = out ++ (ms ++ optText key value).flatMap Member.render := by
  unfold appendField at h
  unfold optText
  split_ifs at h ⊢ with hv
  · simp_all
  · simp only [Option.bind_eq_bind, Option.bind_eq_some_iff] at h
    obtain ⟨a, ⟨b, hb, ha⟩, h⟩ := h
    rw [(append_eq_some h).left, appendEscaped_eq_some ha, (append_eq_some hb).left]
    simp only [List.flatMap_append, List.flatMap_cons, List.flatMap_nil, Member.render, Value.render,
      List.append_assoc, List.append_nil]
    rfl

theorem appendTarget_eq_some (hkey : key.length < 80) (hk : k < 10000)
    (h : appendTarget size key (literal k 10) (out ++ ms.flatMap Member.render) = some frame) :
    frame = out ++ (ms ++ optTarget key k).flatMap Member.render := by
  unfold appendTarget at h
  unfold optTarget
  rcases Nat.eq_zero_or_pos k with rfl | hpos
  · have hz : lt zero (literal 0 10) = false := by decide
    rw [hz] at h
    simp_all
  · have hlen := tenths_length_le hk
    rw [if_pos (literal_pos hpos hk), formatF_literal hpos hk, ← tenths] at h
    rw [(append_eq_some h).left, if_neg hpos.ne', fit_of_length_lt]
    · simp only [List.flatMap_append, List.flatMap_cons, List.flatMap_nil, Member.render,
        Value.render, List.append_assoc, List.append_nil]
      rfl
    · simp only [List.length_append]
      have h₁ : (ofString ",\"").length = 2 := rfl
      have h₂ : (ofString "\":").length = 2 := rfl
      omega

end

section

variable {path source uuid cloudJobId : CString} {bed head size : Nat} {frame : CString}

-- The members of a JOB frame in their order.
def jobMembers (path source uuid cloudJobId : CString) (bed head : Nat) : List Member :=
  fileMember path ++ optText "source" source ++ optText "uuid" uuid ++
    optText "cloud_job_id" cloudJobId ++ optTarget "bedTset" bed ++ optTarget "headTset" head

theorem formatJob_eq_some (hb : bed < 10000) (hh : head < 10000)
    (h : formatJob path source uuid cloudJobId (literal bed 10) (literal head 10) size = some frame) :
    path ≠ [] ∧ frame = "JOB<" ++ object (jobMembers path source uuid cloudJobId bed head) := by
  unfold formatJob at h
  split_ifs at h with he
  simp only [Option.bind_eq_bind, Option.bind_eq_some_iff] at h
  obtain ⟨a, ⟨b, ⟨c, hc, hb'⟩, ha⟩, d, hd, e, he', f, hf, g, hg, i, hi, h⟩ := h
  have hfile : a = "JOB<\x7b" ++ ((fileMember path).flatMap Member.render).drop 1 := by
    rw [(append_eq_some ha).left, appendEscaped_eq_some hb', (append_eq_some hc).left]
    simp only [fileMember, List.flatMap_cons, List.flatMap_nil, Member.render, Value.render,
      List.append_assoc, List.append_nil]
    rfl
  have hd' := @appendField_eq_some size "source" source a d [] (by simpa using hd)
  subst hd'
  have he'' := appendField_eq_some he'
  subst he''
  have hf' := appendField_eq_some hf
  subst hf'
  have hg' := appendTarget_eq_some (by decide) hb hg
  subst hg'
  have hi' := appendTarget_eq_some (by decide) hh hi
  subst hi'
  refine ⟨fun hp => he (.inl (by simp [hp])), ?_⟩
  rw [(append_eq_some h).left, hfile, object, members, jobMembers]
  simp only [fileMember, List.nil_append, List.append_assoc, List.cons_append, List.flatMap_cons,
    List.flatMap_nil, List.append_nil]
  rfl

end

-- No member has the name, and all of them can be rendered.
structure Apart (key : CString) (ms : List Member) : Prop where
  valid : ∀ m ∈ ms, m.IsValid
  ne    : ∀ m ∈ ms, m.1 ≠ key

section

variable {key : CString}

theorem Apart.append {ms ns : List Member} (hm : Apart key ms) (hn : Apart key ns) :
    Apart key (ms ++ ns) where
  valid m h := (List.mem_append.mp h).elim (hm.valid m) (hn.valid m)
  ne m h    := (List.mem_append.mp h).elim (hm.ne m) (hn.ne m)

theorem Apart.singleton {m : Member} (h : m.IsValid) (hne : m.1 ≠ key) : Apart key [m] where
  valid := by simpa using h
  ne    := by simpa using hne

theorem Apart.nil : Apart key [] where
  valid := by simp
  ne    := by simp

theorem Apart.optText {name value : CString} (hname : IsName name) (hv : Visible value)
    (hne : name ≠ key) : Apart key (optText name value) := by
  unfold Command.optText
  split_ifs
  · exact .nil
  · exact .singleton ⟨hname, .text hv⟩ hne

theorem Apart.optTarget {name : CString} {k : Nat} (hname : IsName name) (hne : name ≠ key) :
    Apart key (optTarget name k) := by
  unfold Command.optTarget
  split_ifs
  · exact .nil
  · exact .singleton ⟨hname, .bare quote_notMem_tenths⟩ hne

end

-- A text is found behind the members in front of it: none of their values is taken for its name, and
-- it ends before the payload is cut off.
def ReadableText (front : List Member) (key value : CString) : Prop :=
  value = [] ∨ (∀ m ∈ front, m.2.hides key = false) ∧
    valueAt front key + (escape value).length + 2 ≤ 511 + spare value

-- The same for a temperature, of which a last zero and the point in front of it can be missing.
def ReadableTarget (front : List Member) (key : CString) (k : Nat) : Prop :=
  k = 0 ∨ (∀ m ∈ front, m.2.hides key = false) ∧
    valueAt front key + (tenths k).length + 1 ≤ 511 + if k % 10 = 0 then 2 else 0

theorem numeric_of_mem_tenths {k : Nat} : ∀ c ∈ tenths k, Numeric c := by
  intro c hc
  rcases List.mem_append.mp hc with hc | hc
  · exact .inl (isDigit_of_mem_digits c hc)
  · simp only [List.mem_cons, List.not_mem_nil, or_false] at hc
    rcases hc with rfl | rfl
    · exact .inr rfl
    · exact .inl (digit_isDigit (by omega))

theorem isToken_tenths {k : Nat} : IsToken (tenths k) := by
  intro c hc
  have hr := (numeric_of_mem_tenths c hc).range
  have hne : ∀ d : UInt8, d.toNat < 46 ∨ 57 < d.toNat → c ≠ d := by
    rintro d hd rfl
    omega
  simp [isBare, Json.isSpace, hne 44 (by decide), hne 125 (by decide), hne 32 (by decide),
    hne 9 (by decide), hne 13 (by decide), hne 10 (by decide), hne 58 (by decide), hne 34 (by decide)]

theorem getFloatValue_of_nothing {json key : CString} {value : BinaryFloat}
    (h : (getValue json key 64).2 = []) : getFloatValue json key value = value := by
  have hnone : Scan.strtof [] = none := by decide
  simp only [getFloatValue, h, hnone, ite_self]

theorem getFloatValue_tenths {json key : CString} {k c : Nat}
    (h : getValue json key 64 = (0, (tenths k).take c)) :
    getFloatValue json key zero = ((Scan.strtof ((tenths k).take c)).map (·.1)).getD zero := by
  simp only [getFloatValue, h]
  cases hs : Scan.strtof ((tenths k).take c)
  case none => rfl
  case some p =>
    obtain ⟨v, rest⟩ := p
    simp [strtof_tenths_rest hs]

section

variable {key : CString} {front back : List Member} (hkey : IsName key) (hlen : key.length < 126)
  (hf : Apart key front) (hb : Apart key back)

include hkey hlen hf hb

theorem extract_text_iff {value : CString} {size : Nat} (hv : Visible value)
    (hl : value.length < size) :
    extractJsonString ((object (front ++ optText key value ++ back)).take 511) key size = value ↔
      ReadableText front key value := by
  rw [extractJsonString, ReadableText]
  by_cases hnil : value = []
  · have habs := (hf.append Apart.nil).append hb
    simp only [hnil, optText, List.isEmpty_nil, if_true, true_or, iff_true]
    exact getValue_absent hkey hlen habs.valid habs.ne
  · have ho : front ++ optText key value ++ back = front ++ (key, .text value) :: back := by
      simp [optText, hnil]
    rw [ho]
    by_cases hh : ∀ m ∈ front, m.2.hides key = false
    · rw [getValue_member hkey hlen hf.valid hf.ne (.text hv) hh]
      have hpos := List.length_pos_iff.mpr hnil
      have hle := length_le_length_escape hv
      have hspare := @spare_le value
      split_ifs with hcut
      · rw [Value.render, List.append_assoc, List.cons_append, List.cons_append, List.nil_append]
        refine (readValue_text hnil hv hl).trans ?_
        simp only [hnil, false_or]
        exact ⟨fun h => ⟨hh, by omega⟩, fun h => by omega⟩
      · simp only [Ne.symm hnil, hnil, false_or, false_iff, not_and]
        omega
    · have hex : ∃ m ∈ front, m.2.hides key := by
        simpa using hh
      rw [getValue_hidden hkey hlen hf.valid hf.ne hex]
      simp only [Ne.symm hnil, hnil, false_or, false_iff, not_and]
      exact fun h => absurd h hh

theorem extract_target_iff {k : Nat} {other : CString} (hk : k < 10000) (ho : IsName other)
    (hol : other.length < 126) (habs : Apart other (front ++ optTarget key k ++ back)) :
    extractTarget ((object (front ++ optTarget key k ++ back)).take 511) key other =
        literal k 10 ↔
      ReadableTarget front key k := by
  have hother : ∀ value, getFloatValue ((object (front ++ optTarget key k ++ back)).take 511) other
      value = value :=
    fun _ => getFloatValue_of_nothing (getValue_absent ho hol habs.valid habs.ne)
  simp only [extractTarget, hother, ite_self]
  rw [ReadableTarget]
  rcases Nat.eq_zero_or_pos k with rfl | hpos
  · have happ := (hf.append Apart.nil).append hb
    simp only [optTarget, if_true, true_or, iff_true, literal_zero]
    exact getFloatValue_of_nothing (getValue_absent hkey hlen happ.valid happ.ne)
  · have hz : zero ≠ literal k 10 := fun h =>
      absurd (literal_injective (by decide) hk (literal_zero.trans h)) hpos.ne
    have ho : front ++ optTarget key k ++ back = front ++ (key, .bare (tenths k)) :: back := by
      simp [optTarget, hpos.ne']
    rw [ho]
    simp only [hpos.ne', false_or]
    by_cases hh : ∀ m ∈ front, m.2.hides key = false
    · have hm : getValue ((object (front ++ (key, .bare (tenths k)) :: back)).take 511) key 64 = _ :=
        getValue_member hkey hlen hf.valid hf.ne (.bare quote_notMem_tenths) hh
      have hlen5 := tenths_length_le hk
      have hlen3 := @tenths_length k
      rw [Value.render, readValue_bare isToken_tenths (by omega)] at hm
      split_ifs at hm with hcut
      · rw [getFloatValue_tenths hm, strtof_tenths_iff hpos hk]
        refine ⟨fun h => ⟨hh, ?_⟩, fun h => ?_⟩
        all_goals split_ifs at * <;> omega
      · rw [getFloatValue_of_nothing (congrArg Prod.snd hm)]
        simp only [hz, false_iff, not_and]
        intro _
        split_ifs <;> omega
    · have hex : ∃ m ∈ front, m.2.hides key := by
        simpa using hh
      rw [getFloatValue_of_nothing (getValue_hidden hkey hlen hf.valid hf.ne hex)]
      simp only [hz, false_iff, not_and]
      exact fun h => absurd h hh

end

theorem extract_file_iff {path : CString} {back : List Member} (hne : path ≠ [])
    (hp : Visible path) (hl : path.length < 256) (hb : Apart "path" back) :
    extractFile ((object (fileMember path ++ back)).take 511) = path ↔
      (escape path).length + 10 ≤ 511 := by
  have hname : IsName "file" := by decide
  have hpath : Apart "path" (fileMember path ++ back) :=
    (Apart.singleton ⟨hname, .text hp⟩ (show ofString "file" ≠ "path" by decide)).append hb
  have hm : getValue ((object (fileMember path ++ back)).take 511) "file" 256 = _ :=
    @getValue_member "file" 511 256 hname (by decide) [] back (by simp) (by simp) _ (.text hp) (by simp)
  have hat : valueAt [] "file" = 7 := by decide
  rw [hat, if_pos (by decide), Value.render, List.append_assoc, List.cons_append, List.cons_append,
    List.nil_append] at hm
  rw [extractFile, hm]
  by_cases hcut : (escape path).length + 10 ≤ 511
  · rw [readValue_text_closed hp hl (by omega)]
    simp [hcut]
  · have hopen : (readValue ((58 :: 34 :: (escape path ++ 34 :: members back)).take (511 - 7)) 256).1 =
        -1 := @readValue_text_open path (members back) 502 256 hp hl (by omega)
    have hother : (getValue ((object (fileMember path ++ back)).take 511) "path" 256).2 = [] :=
      getValue_absent (by decide) (by decide) hpath.valid hpath.ne
    simp only [hopen, hother, hcut, Int.reduceNeg, iff_false]
    simpa using Ne.symm hne

section

variable {path source uuid cloudJobId : CString} {bed head size : Nat} {frame : CString}

-- The members of a frame in front of its targets.
def textMembers (path source uuid cloudJobId : CString) : List Member :=
  fileMember path ++ optText "source" source ++ optText "uuid" uuid ++
    optText "cloud_job_id" cloudJobId

-- Every field of a frame is found and read in full.
structure JobReadable (path source uuid cloudJobId : CString) (bed head : Nat) : Prop where
  file_kept   : (escape path).length + 10 ≤ 511
  source_read : ReadableText (fileMember path) "source" source
  uuid_read   : ReadableText (fileMember path ++ optText "source" source) "uuid" uuid
  cloud_read  : ReadableText (fileMember path ++ optText "source" source ++ optText "uuid" uuid)
    "cloud_job_id" cloudJobId
  bed_read    : ReadableTarget (textMembers path source uuid cloudJobId) "bedTset" bed
  head_read   : ReadableTarget (textMembers path source uuid cloudJobId ++ optTarget "bedTset" bed)
    "headTset" head

-- Parsing a frame gives a JOB command with exactly these values.
def JobRoundTrips (path source uuid cloudJobId : CString) (bed head : Nat) (frame : CString) : Prop :=
  ∃ command, parse frame = some command ∧ command.kind = .job ∧ command.file = path ∧
    command.source = source ∧ command.uuid = uuid ∧ command.cloudJobId = cloudJobId ∧
    command.bedTarget = literal bed 10 ∧ command.headTarget = literal head 10

theorem parse_job {json : CString} :
    parse ("JOB<" ++ json) = some {
      kind := .job, verb := "JOB", payload := json.take 511
      file       := extractFile (json.take 511)
      source     := extractJsonString (json.take 511) "source" 32
      uuid       := extractJsonString (json.take 511) "uuid" 64
      cloudJobId := extractJsonString (json.take 511) "cloud_job_id" 96
      bedTarget  := extractTarget (json.take 511) "bedTset" "bed_temperature"
      headTarget := extractTarget (json.take 511) "headTset" "nozzle_temperature" } := rfl

section

variable {key : CString}

theorem Apart.fileMember (hp : Visible path) (hne : ofString "file" ≠ key) :
    Apart key (fileMember path) :=
  have hname : IsName "file" := by decide
  .singleton ⟨hname, .text hp⟩ hne

theorem Apart.textMembers (hp : Visible path) (hs : Visible source) (hu : Visible uuid)
    (hc : Visible cloudJobId)
    (hne : key ∉ [ofString "file", "source", "uuid", "cloud_job_id"]) :
    Apart key (textMembers path source uuid cloudJobId) := by
  simp only [List.mem_cons, List.not_mem_nil, or_false, not_or] at hne
  refine (((Apart.fileMember hp ?_).append (.optText (by decide) hs ?_)).append
    (.optText (by decide) hu ?_)).append (.optText (by decide) hc ?_)
  · exact Ne.symm hne.left
  · exact Ne.symm hne.right.left
  · exact Ne.symm hne.right.right.left
  · exact Ne.symm hne.right.right.right

end

theorem job_round_trips_iff (hpath : Printable path) (hsource : Printable source)
    (huuid : Printable uuid) (hcloud : Printable cloudJobId) (hpl : path.length < 256)
    (hsl : source.length < 32) (hul : uuid.length < 64) (hcl : cloudJobId.length < 96)
    (hb : bed < 10000) (hh : head < 10000)
    (h : formatJob path source uuid cloudJobId (literal bed 10) (literal head 10) size = some frame) :
    JobRoundTrips path source uuid cloudJobId bed head frame ↔
      JobReadable path source uuid cloudJobId bed head := by
  obtain ⟨hne, rfl⟩ := formatJob_eq_some hb hh h
  replace hpath := hpath.visible
  replace hsource := hsource.visible
  replace huuid := huuid.visible
  replace hcloud := hcloud.visible
  have hf {key : CString} (hk : ofString "file" ≠ key) := Apart.fileMember hpath hk
  have hs {key : CString} (hk : ofString "source" ≠ key) : Apart key (optText "source" source) :=
    .optText (by decide) hsource hk
  have hu {key : CString} (hk : ofString "uuid" ≠ key) : Apart key (optText "uuid" uuid) :=
    .optText (by decide) huuid hk
  have hc {key : CString} (hk : ofString "cloud_job_id" ≠ key) :
      Apart key (optText "cloud_job_id" cloudJobId) := .optText (by decide) hcloud hk
  have ht {key : CString} (hk : ofString "bedTset" ≠ key) : Apart key (optTarget "bedTset" bed) :=
    .optTarget (by decide) hk
  have hn {key : CString} (hk : ofString "headTset" ≠ key) : Apart key (optTarget "headTset" head) :=
    .optTarget (by decide) hk
  have hfile := extract_file_iff hne hpath hpl ((hs (by decide)).append <| (hu (by decide)).append <|
    (hc (by decide)).append <| (ht (by decide)).append (hn (by decide)))
  have hsrc := extract_text_iff (show IsName "source" by decide) (by decide) (hf (by decide)) ((hu (by decide)).append <|
    (hc (by decide)).append <| (ht (by decide)).append (hn (by decide))) hsource hsl
  have huid := extract_text_iff (show IsName "uuid" by decide) (by decide) ((hf (by decide)).append (hs (by decide)))
    ((hc (by decide)).append <| (ht (by decide)).append (hn (by decide))) huuid hul
  have hcld := extract_text_iff (show IsName "cloud_job_id" by decide) (by decide)
    (((hf (by decide)).append (hs (by decide))).append (hu (by decide)))
    ((ht (by decide)).append (hn (by decide))) hcloud hcl
  have hbed := extract_target_iff (show IsName "bedTset" by decide) (by decide)
    (Apart.textMembers hpath hsource huuid hcloud (by decide)) (hn (by decide)) hb
    (show IsName "bed_temperature" by decide) (by decide)
    (((Apart.textMembers hpath hsource huuid hcloud (by decide)).append (ht (by decide))).append
      (hn (by decide)))
  have hhd := extract_target_iff (show IsName "headTset" by decide) (by decide)
    ((Apart.textMembers hpath hsource huuid hcloud (by decide)).append (ht (by decide))) .nil hh
    (show IsName "nozzle_temperature" by decide) (by decide)
    ((((Apart.textMembers hpath hsource huuid hcloud (by decide)).append (ht (by decide))).append
      (hn (by decide))).append .nil)
  simp only [textMembers, List.append_assoc, List.append_nil] at hfile hsrc huid hcld hbed hhd
  simp only [JobRoundTrips, parse_job, jobMembers, Option.some.injEq, exists_eq_left',
    List.append_assoc, true_and]
  rw [hfile, hsrc, huid, hcld, hbed, hhd]
  constructor
  · rintro ⟨h₁, h₂, h₃, h₄, h₅, h₆⟩
    exact ⟨h₁, h₂, h₃, by simpa using h₄, by simpa [textMembers] using h₅,
      by simpa [textMembers] using h₆⟩
  · rintro ⟨h₁, h₂, h₃, h₄, h₅, h₆⟩
    exact ⟨h₁, h₂, h₃, by simpa using h₄, by simpa [textMembers] using h₅,
      by simpa [textMembers] using h₆⟩

-- A job from the web interface, with a bed at 60.0 and a nozzle at 210.5 degrees.
def webFrame : CString :=
  "JOB<\x7b\"file\":\"/sd/cube.gcode\",\"source\":\"web\",\"bedTset\":60.0,\"headTset\":210.5\x7d"

theorem job_round_trips_web :
    formatJob "/sd/cube.gcode" "web" "" "" (literal 600 10) (literal 2105 10) 512 = some webFrame ∧
      (JobRoundTrips "/sd/cube.gcode" "web" "" "" 600 2105 webFrame ↔
        JobReadable "/sd/cube.gcode" "web" "" "" 600 2105) :=
  have h : formatJob "/sd/cube.gcode" "web" "" "" (literal 600 10) (literal 2105 10) 512 =
      some webFrame := by
    decide +kernel
  ⟨h, job_round_trips_iff (by decide) (by decide) (by decide) (by decide) (by decide) (by decide)
    (by decide) (by decide) (by decide) (by decide) h⟩

-- The source is taken for the name of the next field.
def uuidFrame : CString :=
  "JOB<\x7b\"file\":\"/sd/cube.gcode\",\"source\":\"uuid\",\"uuid\":\"4f1c\"\x7d"

theorem job_source_uuid_not_round_trips :
    formatJob "/sd/cube.gcode" "uuid" "4f1c" "" (literal 0 10) (literal 0 10) 512 = some uuidFrame ∧
      ¬ JobRoundTrips "/sd/cube.gcode" "uuid" "4f1c" "" 0 0 uuidFrame := by
  refine ⟨by decide +kernel, ?_⟩
  rintro ⟨command, hp, -, -, -, hu, -⟩
  have hparse : (parse uuidFrame).map (·.uuid) = some [] := by decide +kernel
  rw [hp, Option.map_some, hu] at hparse
  revert hparse
  decide

end

end Deneb.Command
