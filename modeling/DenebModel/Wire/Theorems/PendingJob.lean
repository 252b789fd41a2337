import DenebModel.Primitives.Theorems.Decimal
import DenebModel.Wire.PendingJob
import DenebModel.Wire.Theorems.JsonField

namespace Deneb.PendingJob

open CString Json BinaryFloat

def key (glue name : CString) : CString × Token :=
  (glue, .name name)

def val (glue value : CString) : CString × Token :=
  (glue, .value (visible value))

-- What stands between a name and the next token, when the value in between is not quoted.
def bare (value : CString) : CString :=
  58 :: value

def pair (name value : CString) : List (CString × Token) :=
  [key "," name, val (bare []) value]

def zero : CString :=
  bare ("0" ++ ",")

section

variable (job : PendingJob) (line : CString) (now : Nat)

def created : CString :=
  fit 40 (createdAt (if 0 ≤ job.tracker then job.tracker.toNat else now))

end

-- The tokens of the pieces.
def pathTokens (uuid createdAt name path : CString) : List (CString × Token) :=
  [key "[\x7b" "uuid", val (bare []) uuid] ++ pair "created_at" createdAt ++ pair "name" name ++
    pair "path" path

def statusTokens (cloudJobId variant : CString) (hasChanges : Bool) : List (CString × Token) :=
  (if cloudJobId.isEmpty then [] else pair "cloud_job_id" cloudJobId) ++
    [key "," "status", key (bare []) (if hasChanges then "wait_user_action" else "pre_print"),
      key "," "time_total", key zero "time_elapsed", key zero "started",
      key (bare ((if hasChanges then ofString "false" else ofString "true") ++ ",")) "force",
      key (bare ("false" ++ ",")) "machine_variant", val (bare []) variant]

def ownerTokens (owner printerUuid nozzle : CString) (hasChanges : Bool) : List (CString × Token) :=
  pair "owner" owner ++ (if hasChanges then [] else pair "printer_uuid" printerUuid) ++
    pair "assigned_to" printerUuid ++
    [key "," "build_plate", key (bare "\x7b") "type", key (bare []) "glass",
      key "\x7d," "configuration", key (bare "[\x7b") "extruder_index", key zero "print_core_id",
      val (bare []) nozzle]

def materialTokens (guid brand material color family : CString) (hasGuid : Bool) :
    List (CString × Token) :=
  key "," "material" ::
    (if hasGuid then [key (bare "\x7b") "guid", val (bare []) guid, key "," "brand"]
    else [key (bare "\x7b") "brand"]) ++
    [val (bare []) brand] ++ pair "material" material ++ pair "color" color ++
    [key "\x7d\x7d]," "constraints", key (bare ("\x7b\x7d" ++ ",")) "compatible_machine_families",
      val (bare "[") family]

-- The last text of a pending file is the machine variant once more.
def variantTokens (variant : CString) : List (CString × Token) :=
  [val "," variant, key "]," "impediments_to_printing"]

-- The tokens of an entry of the changes, up to its closing brace.
def changeTokens (glue kind originId originName targetId targetName : CString) :
    List (CString × Token) :=
  [key glue "type_of_change", key (bare []) kind, key "," "index", key zero "origin_id",
    val (bare []) originId] ++ pair "origin_name" originName ++ pair "target_id" targetId ++
    pair "target_name" targetName

section

variable (job : PendingJob) (line : CString) (now : Nat)

-- A name of which no byte is left is replaced.
def originNameOrGuid : CString :=
  if (visible job.originMaterialName).isEmpty then job.originMaterialGuid else job.originMaterialName

def targetNameOrType : CString :=
  if (visible job.targetMaterialName).isEmpty then job.materialType else job.targetMaterialName

-- The tokens of the changes, and the text behind them up to the closing bracket.
def changesTokens : List (CString × Token) :=
  (if job.materialChangeRequired then
    changeTokens (bare ("[" ++ "\x7b")) "material_change" job.originMaterialGuid job.originNameOrGuid
      job.materialGuid job.targetNameOrType
  else []) ++
  if job.printCoreChangeRequired then
    changeTokens (if job.materialChangeRequired then ofString "\x7d" ++ "," ++ "\x7b"
      else bare ("[" ++ "\x7b")) "print_core_change" job.originNozzleId job.originNozzleId
      job.nozzleId job.nozzleId
  else []

-- The tokens behind those of the first `snprintf`.
def tailTokens : List (CString × Token) :=
  key (":[]" ++ ",") "deneb_tracker" ::
    if job.hasChanges then
      key (bare (formatD job.tracker ++ ",")) "configuration_changes_required" :: job.changesTokens
    else []

def tail : CString :=
  if job.hasChanges then "\x7d" ++ "]" ++ "\x7d]\n" else bare (formatD job.tracker ++ "\x7d]\n")

def headTokens : List (CString × Token) :=
  pathTokens job.uuid (job.created now) job.name job.path ++
    statusTokens job.cloudJobId job.machineVariant job.hasChanges ++
    ownerTokens job.owner (printerIdentityGuid line) job.nozzleId job.hasChanges ++
    materialTokens job.materialGuid job.materialBrand job.materialType job.materialColor
      job.machineFamily (isClusterGuid job.materialGuid) ++
    variantTokens job.machineVariant

end

theorem field_append {key value rest : CString} :
    field key value ++ rest = 34 :: (key ++ 34 :: 58 :: 34 :: (value ++ 34 :: rest)) := by
  simp only [field, List.append_assoc]
  rfl

theorem bareField_append {key value rest : CString} :
    bareField key value ++ rest = 34 :: (key ++ 34 :: 58 :: (value ++ rest)) := by
  simp only [bareField, List.append_assoc]
  rfl

@[simp] theorem tokens_nil {tail : CString} : tokens [] tail = tail := rfl

@[simp] theorem tokens_key {glue name tail : CString} {ts : List (CString × Token)} :
    tokens (key glue name :: ts) tail = glue ++ 34 :: (name ++ 34 :: tokens ts tail) := by
  simp [tokens, key, Token.render]

@[simp] theorem tokens_val {glue value tail : CString} {ts : List (CString × Token)} :
    tokens (val glue value :: ts) tail = glue ++ 34 :: (escape value ++ 34 :: tokens ts tail) := by
  simp [tokens, val, Token.render, escape_visible]

section

variable {rest : CString}

theorem pathText_eq {uuid createdAt name path : CString} (hc : escape createdAt = createdAt) :
    pathText (escape uuid) createdAt (escape name) (escape path) ++ rest =
      tokens (pathTokens uuid createdAt name path) rest := by
  simp only [pathText, pathTokens, pair, bare, tokens_key, tokens_val, tokens_nil, hc,
    List.append_assoc, List.cons_append, List.nil_append, field_append]

theorem statusText_eq {cloudJobId variant : CString} {hasChanges : Bool} :
    statusText (if cloudJobId.isEmpty then [] else field "cloud_job_id" (escape cloudJobId) ++ ",")
        (if hasChanges then "wait_user_action" else "pre_print")
        (if hasChanges then "false" else "true") (escape variant) ++ rest =
      tokens (statusTokens cloudJobId variant hasChanges) rest := by
  simp only [statusText, statusTokens, List.append_assoc, field_append, bareField_append]
  cases cloudJobId.isEmpty
  all_goals
    simp only [pair, bare, zero, tokens_key, tokens_val, tokens_nil, if_true, if_false,
      Bool.false_eq_true, List.cons_append, List.nil_append, List.append_assoc, field_append,
      bareField_append]

theorem ownerText_eq {owner printerUuid nozzle : CString} {hasChanges : Bool} :
    ownerText (escape owner)
        (if hasChanges then [] else field "printer_uuid" (escape printerUuid) ++ ",")
        (escape printerUuid) (escape nozzle) ++ rest =
      tokens (ownerTokens owner printerUuid nozzle hasChanges) rest := by
  simp only [ownerText, ownerTokens, List.append_assoc, field_append, bareField_append]
  cases hasChanges
  all_goals
    simp only [pair, bare, zero, tokens_key, tokens_val, tokens_nil, if_true, if_false,
      Bool.false_eq_true, List.cons_append, List.nil_append, List.append_assoc, field_append,
      bareField_append]

theorem materialText_eq {guid brand material color family variant : CString} {hasGuid : Bool} :
    materialText (if hasGuid then field "guid" (escape guid) ++ "," else []) (escape brand)
        (escape material) (escape color) (escape family) (escape variant) ++ rest =
      tokens (materialTokens guid brand material color family hasGuid ++ variantTokens variant)
        (":[]" ++ rest) := by
  have hq : ofString "\"" = [34] := by decide
  have hqcq : ofString "\",\"" = 34 :: (ofString "," ++ [34]) := by decide
  have hqb : ofString "\"]," = 34 :: ofString "]," := by decide
  have hend : ofString ":[]" = 58 :: ofString "[]" := by decide
  delta materialText
  simp only [materialTokens, variantTokens, hq, hqcq, hqb, hend, List.append_assoc, field_append,
    bareField_append]
  cases hasGuid
  all_goals
    simp only [pair, bare, zero, tokens_key, tokens_val, tokens_nil, if_true, if_false,
      Bool.false_eq_true, List.cons_append, List.nil_append, List.append_assoc, field_append,
      bareField_append]

end

theorem escape_length_le {s : CString} : (escape s).length ≤ 2 * s.length := by
  induction s
  case nil => simp
  case cons c s hi =>
    have hb : (escapeByte c).length ≤ 2 := by
      unfold escapeByte
      split_ifs <;> simp
    simp only [escape_cons, List.length_append, List.length_cons]
    omega

theorem isClusterGuid_length {s : CString} (h : isClusterGuid s) : s.length = 36 := by
  simp only [isClusterGuid, Bool.decide_and, Bool.and_eq_true, decide_eq_true_eq] at h
  exact h.left

theorem hexValue_isSome {c : UInt8} (h : (Scan.hexValue c).isSome) : 45 ≤ c.toNat ∧ c ≠ 92 := by
  constructor
  · by_contra hlt
    have hle : ∀ d : UInt8, 45 ≤ d.toNat → ¬ d ≤ c := by
      intro d hd
      rw [UInt8.le_iff_toNat_le]
      omega
    simp [Scan.hexValue, isDigit, hle 48 (by decide), hle 97 (by decide), hle 65 (by decide)] at h
  · rintro rfl
    exact absurd h (by decide)

-- The bytes of a GUID are hexadecimal digits and dashes.
theorem isClusterGuid_mem {s : CString} (h : isClusterGuid s) {c : UInt8} (hc : c ∈ s) :
    45 ≤ c.toNat ∧ c ≠ 92 := by
  simp only [isClusterGuid, Bool.decide_and, Bool.and_eq_true, decide_eq_true_eq] at h
  obtain ⟨i, hi, rfl⟩ := List.getElem_of_mem hc
  have hp := h.right (s[i], i) (by simp [List.mem_zipIdx_iff_getElem?])
  split_ifs at hp with hd
  · have hp' : s[i] = 45 := hp
    rw [hp']
    decide
  · exact hexValue_isSome hp

theorem printerIdentityGuid_isClusterGuid {line : CString} :
    isClusterGuid (printerIdentityGuid line) := by
  simp only [printerIdentityGuid]
  split_ifs with h
  · exact h
  · decide

section

variable {job : PendingJob} {line : CString} {now : Nat}

theorem isDigit_of_mem_padLeft {width n : Nat} : ∀ c ∈ padLeft width (digits n), isDigit c := by
  intro c hc
  rcases List.mem_append.mp hc with hc | hc
  · rw [List.eq_of_mem_replicate hc]
    decide
  · exact isDigit_of_mem_digits c hc

theorem padLeft_digits_ne_nil {width n : Nat} : padLeft width (digits n) ≠ [] := by
  simp [padLeft, digits_ne_nil]

theorem padLeft_plain {width n : Nat} :
    ∀ c ∈ padLeft width (digits n), c ≠ 34 ∧ c ≠ 92 ∧ 32 ≤ c := by
  intro c hc
  have hr := Numeric.range (.inl (isDigit_of_mem_padLeft c hc))
  have h32 : (32 : UInt8).toNat = 32 := rfl
  refine ⟨?_, ?_, ?_⟩
  · rintro rfl
    exact absurd hr (by decide)
  · rintro rfl
    exact absurd hr (by decide)
  · rw [UInt8.le_iff_toNat_le]
    omega

theorem createdAt_plain {time : Nat} : ∀ c ∈ createdAt time, c ≠ 34 ∧ c ≠ 92 ∧ 32 ≤ c := by
  have hdash : ∀ c ∈ ofString "-", c ≠ 34 ∧ c ≠ 92 ∧ 32 ≤ c := by decide
  have htime : ∀ c ∈ ofString "T", c ≠ 34 ∧ c ≠ 92 ∧ 32 ≤ c := by decide
  have hcolon : ∀ c ∈ ofString ":", c ≠ 34 ∧ c ≠ 92 ∧ 32 ≤ c := by decide
  have hend : ∀ c ∈ ofString ".000Z", c ≠ 34 ∧ c ≠ 92 ∧ 32 ≤ c := by decide
  simp only [createdAt, List.forall_mem_append]
  exact ⟨⟨⟨⟨⟨⟨⟨⟨⟨⟨⟨padLeft_plain, hdash⟩, padLeft_plain⟩, hdash⟩, padLeft_plain⟩, htime⟩,
    padLeft_plain⟩, hcolon⟩, padLeft_plain⟩, hcolon⟩, padLeft_plain⟩, hend⟩

-- A time is never taken for a name, since it begins with a digit.
theorem created_ne {name : CString} (h : ∀ c ∈ name.head?, isDigit c = false) :
    job.created now ≠ name := by
  rintro rfl
  obtain ⟨c, s, hs⟩ := List.exists_cons_of_ne_nil
    (@padLeft_digits_ne_nil 4 (civil ((if 0 ≤ job.tracker then job.tracker.toNat else now) / 86400)).1)
  have hd : isDigit c := isDigit_of_mem_padLeft c (hs ▸ List.mem_cons_self)
  have hc : (job.created now).head? = some c := by
    simp only [created, createdAt, hs]
    rfl
  rw [h c hc] at hd
  contradiction

theorem escape_created : escape (job.created now) = job.created now := by
  have hmem : ∀ c ∈ job.created now, c ≠ 34 ∧ c ≠ 92 ∧ 32 ≤ c :=
    fun c hc => createdAt_plain c (List.mem_of_mem_take hc)
  have hplain : Plain (job.created now) := fun c hc => ⟨(hmem c hc).left, (hmem c hc).right.left⟩
  exact hplain.escape_eq fun c hc => (hmem c hc).right.right

theorem escape_identity : escapeString (printerIdentityGuid line) 128 = escape (printerIdentityGuid line) := by
  have hl := isClusterGuid_length (@printerIdentityGuid_isClusterGuid line)
  exact escapeString_eq (by rw [hl]; decide)

theorem escape_isEmpty {s : CString} : (escape s).isEmpty = (visible s).isEmpty := by
  have hl := length_le_length_escape (@visible_visible s)
  rw [escape_visible] at hl
  cases hv : visible s
  case nil => rw [← escape_visible, hv]; rfl
  case cons c v =>
    rw [hv, List.length_cons] at hl
    cases he : escape s
    case nil  => simp [he] at hl
    case cons => rfl

theorem field_length {name value : CString} :
    (field name value).length = name.length + value.length + 5 := by
  have h := congrArg List.length (@field_append name value [])
  simp only [List.append_nil, List.length_append, List.length_cons] at h
  omega

theorem fit_field {name value : CString} {size : Nat}
    (h : name.length + 2 * value.length + 6 < size) :
    fit size (field name (escape value) ++ ",") = field name (escape value) ++ "," := by
  have hl := @escape_length_le value
  have hc : (ofString ",").length = 1 := rfl
  refine fit_of_length_lt ?_
  rw [List.length_append, field_length, hc]
  omega

theorem isClusterGuid_visible {s : CString} (h : isClusterGuid s) : Visible s := by
  intro c hc
  have hr := (isClusterGuid_mem h hc).left
  have h32 : (32 : UInt8).toNat = 32 := rfl
  rw [UInt8.le_iff_toNat_le]
  omega

theorem head_eq {rest : CString} (hf : job.Fits) (hu : isClusterGuid job.uuid)
    (hc : Visible job.cloudJobId) :
    job.head line now ++ rest = tokens (job.headTokens line now) (":[]" ++ rest) := by
  have huuid : escapeString (clusterJobUuidOrDefault job.uuid) 128 = escape job.uuid := by
    have hl := hf.uuid
    rw [clusterJobUuidOrDefault, if_pos hu, escapeString_eq (by omega)]
  have hname := @escapeString_eq job.name 256 (by have := hf.name; omega)
  have hpath := @escapeString_eq job.path 512 (by have := hf.path; omega)
  have hcloud := @escapeString_eq job.cloudJobId 192 (by have := hf.cloudJobId; omega)
  have hvariant := @escapeString_eq job.machineVariant 128 (by have := hf.machineVariant; omega)
  have howner := @escapeString_eq job.owner 80 (by have := hf.owner; omega)
  have hnozzle := @escapeString_eq job.nozzleId 48 (by have := hf.nozzleId; omega)
  have hguid := @escapeString_eq job.materialGuid 128 (by have := hf.materialGuid; omega)
  have hbrand := @escapeString_eq job.materialBrand 80 (by have := hf.materialBrand; omega)
  have hmaterial := @escapeString_eq job.materialType 80 (by have := hf.materialType; omega)
  have hcolor := @escapeString_eq job.materialColor 40 (by have := hf.materialColor; omega)
  have hfamily := @escapeString_eq job.machineFamily 128 (by have := hf.machineFamily; omega)
  have hcb : binding 224 "cloud_job_id" (escape job.cloudJobId) =
      if job.cloudJobId.isEmpty then []
      else field "cloud_job_id" (escape job.cloudJobId) ++ ofString "," := by
    have hl := hf.cloudJobId
    have hn : (ofString "cloud_job_id").length = 12 := rfl
    rw [binding, escape_isEmpty, hc.visible_eq, fit_field (by omega)]
  have hgb : binding 160 "guid" job.guid =
      if isClusterGuid job.materialGuid then field "guid" (escape job.materialGuid) ++ ofString ","
      else [] := by
    rw [guid, hguid]
    split_ifs with hg
    · have hl := isClusterGuid_length hg
      have hne : job.materialGuid.isEmpty = false := by
        cases hm : job.materialGuid
        case nil  => simp [hm] at hl
        case cons => rfl
      have hn : (ofString "guid").length = 4 := rfl
      rw [binding, escape_isEmpty, (isClusterGuid_visible hg).visible_eq, hne, fit_field (by omega)]
      rfl
    · rfl
  have hpb : fit 192 (field "printer_uuid" (escape (printerIdentityGuid line)) ++ ",") =
      field "printer_uuid" (escape (printerIdentityGuid line)) ++ "," := by
    have hl := isClusterGuid_length (@printerIdentityGuid_isClusterGuid line)
    have hn : (ofString "printer_uuid").length = 12 := rfl
    exact fit_field (by omega)
  have hcreated : fit 40 (createdAt (if 0 ≤ job.tracker then job.tracker.toNat else now)) =
      job.created now := rfl
  rw [head, huuid, escape_identity, hname, hpath, hcloud, hvariant, howner, hnozzle, hbrand, hmaterial,
    hcolor, hfamily, hcb, hgb, hpb, hcreated]
  simp only [headTokens, List.append_assoc, tokens_append]
  rw [pathText_eq escape_created, statusText_eq, ownerText_eq, materialText_eq, tokens_append]

theorem change_append {glue kind originId originName targetId targetName rest : CString} :
    glue ++ (change kind (escape originId) (escape originName) (escape targetId) (escape targetName) ++
        rest) =
      tokens (changeTokens (glue ++ "\x7b") kind originId originName targetId targetName)
        ("\x7d" ++ rest) := by
  simp only [change, changeTokens, pair, bare, zero, tokens_key, tokens_val, tokens_nil,
    List.cons_append, List.nil_append, List.append_assoc, field_append, bareField_append]

theorem bareField_length {name value : CString} :
    (bareField name value).length = name.length + value.length + 3 := by
  have h := congrArg List.length (@bareField_append name value [])
  simp only [List.append_nil, List.length_append, List.length_cons] at h
  omega

theorem change_length {kind originId originName targetId targetName : CString} :
    (change kind originId originName targetId targetName).length =
      kind.length + originId.length + originName.length + targetId.length + targetName.length +
        95 := by
  have hopen : (ofString "\x7b").length = 1 := rfl
  have hclose : (ofString "\x7d").length = 1 := rfl
  have hcomma : (ofString ",").length = 1 := rfl
  have hzero : (ofString "0").length = 1 := rfl
  have hkind : (ofString "type_of_change").length = 14 := rfl
  have hindex : (ofString "index").length = 5 := rfl
  have hoid : (ofString "origin_id").length = 9 := rfl
  have honame : (ofString "origin_name").length = 11 := rfl
  have htid : (ofString "target_id").length = 9 := rfl
  have htname : (ofString "target_name").length = 11 := rfl
  simp only [change, List.length_append, field_length, bareField_length, hopen, hclose, hcomma,
    hzero, hkind, hindex, hoid, honame, htid, htname]
  omega

theorem changes_eq (hf : job.Fits) :
    job.changes =
      (if job.materialChangeRequired then
        change "material_change" (escape job.originMaterialGuid) (escape job.originNameOrGuid)
          (escape job.materialGuid) (escape job.targetNameOrType)
      else []) ++
      if job.printCoreChangeRequired then
        (if job.materialChangeRequired then ofString "," else []) ++
          change "print_core_change" (escape job.originNozzleId) (escape job.originNozzleId)
            (escape job.nozzleId) (escape job.nozzleId)
      else [] := by
  have horigin := @escapeString_eq job.originMaterialGuid 128 (by have := hf.originMaterialGuid; omega)
  have hguid := @escapeString_eq job.materialGuid 128 (by have := hf.materialGuid; omega)
  have honame := @escapeString_eq job.originMaterialName 128 (by have := hf.originMaterialName; omega)
  have htname := @escapeString_eq job.targetMaterialName 128 (by have := hf.targetMaterialName; omega)
  have htype := @escapeString_eq job.materialType 80 (by have := hf.materialType; omega)
  have hnozzle := @escapeString_eq job.nozzleId 48 (by have := hf.nozzleId; omega)
  have honozzle := @escapeString_eq job.originNozzleId 48 (by have := hf.originNozzleId; omega)
  have hon : (if (escape job.originMaterialName).isEmpty then escape job.originMaterialGuid
      else escape job.originMaterialName) = escape job.originNameOrGuid := by
    rw [escape_isEmpty, originNameOrGuid]
    split_ifs <;> rfl
  have htn : (if (escape job.targetMaterialName).isEmpty then escape job.materialType
      else escape job.targetMaterialName) = escape job.targetNameOrType := by
    rw [escape_isEmpty, targetNameOrType]
    split_ifs <;> rfl
  have hkind : (ofString "material_change").length = 15 := rfl
  have hkind' : (ofString "print_core_change").length = 17 := rfl
  have hcomma : (ofString ",").length = 1 := rfl
  have hml : (change "material_change" (escape job.originMaterialGuid) (escape job.originNameOrGuid)
      (escape job.materialGuid) (escape job.targetNameOrType)).length ≤ 617 := by
    have h₁ := @escape_length_le job.originMaterialGuid
    have h₂ := @escape_length_le job.originNameOrGuid
    have h₃ := @escape_length_le job.materialGuid
    have h₄ := @escape_length_le job.targetNameOrType
    have ho : job.originNameOrGuid.length < 64 := by
      rw [originNameOrGuid]
      split_ifs
      · exact hf.originMaterialGuid
      · exact hf.originMaterialName
    have ht : job.targetNameOrType.length < 64 := by
      rw [targetNameOrType]
      split_ifs
      · exact Nat.lt_trans hf.materialType (by decide)
      · exact hf.targetMaterialName
    have h₅ := hf.originMaterialGuid
    have h₆ := hf.materialGuid
    rw [change_length, hkind]
    omega
  have hcl : (change "print_core_change" (escape job.originNozzleId) (escape job.originNozzleId)
      (escape job.nozzleId) (escape job.nozzleId)).length ≤ 299 := by
    have h₁ := @escape_length_le job.originNozzleId
    have h₂ := @escape_length_le job.nozzleId
    have h₃ := hf.originNozzleId
    have h₄ := hf.nozzleId
    rw [change_length, hkind']
    omega
  simp only [changes, horigin, hguid, honame, htname, htype, hnozzle, honozzle, hon, htn]
  cases job.materialChangeRequired
  · cases job.printCoreChangeRequired
    · rfl
    · simp only [Bool.false_eq_true, if_false, if_true, List.isEmpty_nil, List.nil_append,
        List.length_nil, Nat.sub_zero]
      exact fit_of_length_lt (by omega)
  · rw [if_pos rfl, if_pos rfl, fit_of_length_lt (by omega)]
    cases job.printCoreChangeRequired
    · simp
    · have hne : (change "material_change" (escape job.originMaterialGuid)
          (escape job.originNameOrGuid) (escape job.materialGuid)
          (escape job.targetNameOrType)).isEmpty = false := by
        rw [List.isEmpty_eq_false_iff, ← List.length_pos_iff_ne_nil, change_length]
        omega
      simp only [hne, Bool.false_eq_true, if_false, if_true]
      rw [fit_of_length_lt]
      rw [List.length_append, hcomma]
      omega

theorem changes_isEmpty (hf : job.Fits) : job.changes.isEmpty = !job.hasChanges := by
  have hne : ∀ kind oi on ti tn, change kind oi on ti tn ≠ [] := by
    intro kind oi on ti tn h
    have hl := congrArg List.length h
    rw [change_length] at hl
    simp at hl
  rw [changes_eq hf, hasChanges, changeCount]
  cases job.materialChangeRequired
  all_goals
    cases job.printCoreChangeRequired
    all_goals simp [hne]

theorem changes_append {rest : CString} (hf : job.Fits) (h : job.hasChanges) :
    bare ("[" ++ (job.changes ++ ("]" ++ rest))) =
      tokens job.changesTokens ("\x7d" ++ ("]" ++ rest)) := by
  have hbare : ∀ text, bare ("[" ++ text) = bare "[" ++ text := fun _ => rfl
  have hglue : bare ("[" ++ "\x7b") = bare "[" ++ "\x7b" := rfl
  rw [changes_eq hf, changesTokens]
  rw [hasChanges, changeCount] at h
  cases hm : job.materialChangeRequired
  all_goals cases hc : job.printCoreChangeRequired
  · simp [hm, hc] at h
  all_goals
    simp only [Bool.false_eq_true, if_false, if_true, List.nil_append, List.append_nil,
      List.append_assoc, tokens_append]
    rw [hbare, hglue, change_append]
  -- The second change stands behind the brace and the comma of the first one.
  rw [← List.append_assoc (ofString "\x7d"), change_append, List.append_assoc]

theorem appendTo_eq_some {size : Nat} {text out new : CString} (h : appendTo size text out = some new) :
    new = out ++ text ∧ new.length < size := by
  rw [appendTo] at h
  split_ifs at h with hl
  injection h with h
  refine ⟨h.symm, ?_⟩
  rw [← h, List.length_append]
  omega

-- A text that is written is the text of its tokens.
theorem serialize_eq_some {size : Nat} {json : CString} (hf : job.Fits) (hu : isClusterGuid job.uuid)
    (hc : Visible job.cloudJobId) (ht : 0 ≤ job.tracker)
    (h : job.serialize line now size = some json) :
    job.path ≠ [] ∧ json = tokens (job.headTokens line now ++ job.tailTokens) job.tail ∧
      json.length < size := by
  have hend : (ofString "\x7d]\n").length = 3 := rfl
  rw [serialize] at h
  by_cases hp : size = 0 ∨ job.path.isEmpty
  · rw [if_pos hp] at h
    contradiction
  rw [if_neg hp, changes_isEmpty hf] at h
  simp only [ht, if_true] at h
  refine ⟨fun he => hp (.inr (by rw [he]; rfl)), ?_⟩
  rw [tokens_append, tailTokens, tail]
  cases hh : job.hasChanges
  · simp only [hh, Bool.not_false, if_true, Option.bind_eq_bind, Option.bind_eq_some_iff,
      Option.some.injEq, exists_eq_left'] at h
    obtain ⟨out, hout, out', hout', h⟩ := h
    obtain ⟨rfl, -⟩ := appendTo_eq_some hout
    obtain ⟨rfl, -⟩ := appendTo_eq_some hout'
    split_ifs at h with hl
    injection h with h
    rw [← h]
    refine ⟨?_, by rw [List.length_append, hend]; omega⟩
    simp only [List.nil_append, List.append_assoc]
    rw [head_eq hf hu hc]
    simp only [Bool.false_eq_true, if_false, bareField_append, tokens_key, tokens_nil, bare,
      List.append_assoc]
  · simp only [hh, Bool.not_true, Bool.false_eq_true, if_false, Option.bind_eq_bind,
      Option.bind_eq_some_iff] at h
    obtain ⟨out, hout, out', hout', out'', hout'', h⟩ := h
    obtain ⟨rfl, -⟩ := appendTo_eq_some hout
    obtain ⟨rfl, -⟩ := appendTo_eq_some hout'
    obtain ⟨rfl, -⟩ := appendTo_eq_some hout''
    split_ifs at h with hl
    injection h with h
    rw [← h]
    refine ⟨?_, by rw [List.length_append, hend]; omega⟩
    have hchanges := @changes_append job ("\x7d]\n") hf hh
    simp only [bare] at hchanges
    simp only [List.nil_append, List.append_assoc]
    rw [head_eq hf hu hc]
    simp only [if_true, bareField_append, tokens_key, bare, List.cons_append, List.append_assoc,
      hchanges]

end

end Deneb.PendingJob
