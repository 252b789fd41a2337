import DenebModel.Wire.Theorems.PendingJob

namespace Deneb.PendingJob

open CString Json BinaryFloat

-- The names of the fields that are read consist of small letters and underscores, and no text in
-- front of a token begins with one of these.
def isWord (name : CString) : Bool :=
  name.all fun c => isLower c || c == 95

def isPunctuation (glue : CString) : Bool :=
  glue.all (fun c => c != 0 && c != 34) && glue.head?.any fun c => [44, 58, 91, 93, 125].contains c

inductive IsJson : List (CString × Token) → Prop
  | nil : IsJson []
  | key {glue name : CString} {ts : List (CString × Token)} :
    isPunctuation glue → isWord name → IsJson ts → IsJson (key glue name :: ts)
  | val {glue value : CString} {ts : List (CString × Token)} :
    isPunctuation glue → IsJson ts → IsJson (val glue value :: ts)

theorem IsJson.append {ts us : List (CString × Token)} (ht : IsJson ts) (hu : IsJson us) :
    IsJson (ts ++ us) := by
  induction ht
  case nil           => exact hu
  case key hg hn _ hi => exact .key hg hn hi
  case val hg _ hi    => exact .val hg hi

section

variable {word : CString} (hw : isWord word)

include hw in
theorem isWord_mem {c : UInt8} (h : c ∈ word) : 95 ≤ c.toNat := by
  have hc := List.all_eq_true.mp hw c h
  simp only [isLower, Bool.or_eq_true, Bool.and_eq_true, decide_eq_true_eq, beq_iff_eq,
    UInt8.le_iff_toNat_le] at hc
  rcases hc with hc | rfl
  · have h97 : (97 : UInt8).toNat = 97 := rfl
    omega
  · decide

include hw in
theorem notMem_word {c : UInt8} (h : c.toNat < 95) : c ∉ word := fun hc => by
  have := isWord_mem hw hc
  omega

include hw in
theorem isName_word : IsName word where
  no_quote     := notMem_word hw (by decide)
  no_backslash := notMem_word hw (by decide)
  no_comma     := notMem_word hw (by decide)
  no_colon     := notMem_word hw (by decide)

include hw in
theorem isGlue_of_isPunctuation {glue : CString} (h : isPunctuation glue) : IsGlue word glue := by
  simp only [isPunctuation, Bool.and_eq_true, List.all_eq_true, Option.any_eq_true,
    bne_iff_ne] at h
  obtain ⟨hall, c, hc, hmem⟩ := h
  refine ⟨fun hq => (hall 34 hq).right rfl, c, hc, ?_⟩
  have h93 : c ∈ [44, 58, 91, 93, 125] := by simpa using hmem
  simp only [List.mem_cons, List.not_mem_nil, or_false] at h93
  rcases h93 with rfl | rfl | rfl | rfl | rfl
  · exact notMem_word hw (by decide)
  · exact notMem_word hw (by decide)
  · exact notMem_word hw (by decide)
  · exact notMem_word hw (by decide)
  · exact fun hm => by
      have hc := List.all_eq_true.mp hw 125 hm
      exact absurd hc (by decide)

include hw in
theorem IsJson.isTokens {ts : List (CString × Token)} (h : IsJson ts) : IsTokens word ts := by
  induction h
  case nil => exact ⟨by simp, by simp⟩
  case key hg hn _ hi =>
    constructor
    · exact List.forall_mem_cons.mpr ⟨isGlue_of_isPunctuation hw hg, hi.glue⟩
    · exact List.forall_mem_cons.mpr ⟨.name (isName_word hn).no_quote, hi.valid⟩
  case val hg _ hi =>
    constructor
    · exact List.forall_mem_cons.mpr ⟨isGlue_of_isPunctuation hw hg, hi.glue⟩
    · exact List.forall_mem_cons.mpr ⟨.value visible_visible, hi.valid⟩

end

theorem mem_escape {s : CString} : ∀ c ∈ escape s, 32 ≤ c := by
  intro c hc
  obtain ⟨d, -, hd⟩ := List.mem_flatMap.mp hc
  simp only [escapeByte] at hd
  split_ifs at hd with hq hv
  · simp only [List.mem_cons, List.not_mem_nil, or_false] at hd
    rcases hd with rfl | rfl
    · decide
    · rcases hq with rfl | rfl <;> decide
  · rw [List.mem_singleton.mp hd]
    exact hv
  · contradiction

-- A text of such tokens is a C string.
theorem IsJson.no_zero {ts : List (CString × Token)} {tail : CString} (h : IsJson ts)
    (ht : 0 ∉ tail) : 0 ∉ tokens ts tail := by
  have hpunct : ∀ {glue : CString}, isPunctuation glue → 0 ∉ glue := by
    intro glue hg hz
    simp only [isPunctuation, Bool.and_eq_true, List.all_eq_true] at hg
    exact absurd (hg.left 0 hz).left (by decide)
  induction h
  case nil => exact ht
  case key hg hn _ hi =>
    have hz := notMem_word hn (show (0 : UInt8).toNat < 95 by decide)
    simp [hpunct hg, hz, hi]
  case val hg _ hi =>
    have hz : ∀ s : CString, 0 ∉ escape s := fun s hm => absurd (mem_escape 0 hm) (by decide)
    simp [hpunct hg, hz, hi]

theorem isJson_path {uuid createdAt name path : CString} :
    IsJson (pathTokens uuid createdAt name path) := by
  simp only [pathTokens, pair, List.cons_append, List.nil_append]
  exact .key rfl rfl <| .val rfl <| .key rfl rfl <| .val rfl <| .key rfl rfl <| .val rfl <|
    .key rfl rfl <| .val rfl .nil

theorem isJson_pair {name value : CString} (h : isWord name) : IsJson (pair name value) :=
  .key rfl h (.val rfl .nil)

theorem isJson_status {cloudJobId variant : CString} {hasChanges : Bool} :
    IsJson (statusTokens cloudJobId variant hasChanges) := by
  have hc : IsJson (if cloudJobId.isEmpty then [] else pair "cloud_job_id" cloudJobId) := by
    split_ifs
    · exact .nil
    · exact isJson_pair rfl
  refine hc.append ?_
  cases hasChanges
  all_goals
    exact .key rfl rfl <| .key rfl rfl <| .key rfl rfl <| .key rfl rfl <| .key rfl rfl <|
      .key rfl rfl <| .key rfl rfl <| .val rfl .nil

theorem isJson_owner {owner printerUuid nozzle : CString} {hasChanges : Bool} :
    IsJson (ownerTokens owner printerUuid nozzle hasChanges) := by
  have hp : IsJson (if hasChanges then [] else pair "printer_uuid" printerUuid) := by
    split_ifs
    · exact .nil
    · exact isJson_pair rfl
  refine (((isJson_pair rfl).append hp).append (isJson_pair rfl)).append ?_
  exact .key rfl rfl <| .key rfl rfl <| .key rfl rfl <| .key rfl rfl <| .key rfl rfl <|
    .key rfl rfl <| .val rfl .nil

theorem isJson_material {guid brand material color family : CString} {hasGuid : Bool} :
    IsJson (materialTokens guid brand material color family hasGuid) := by
  have hg : IsJson (if hasGuid then [key (bare "\x7b") "guid", val (bare []) guid, key "," "brand"]
      else [key (bare "\x7b") "brand"]) := by
    split_ifs
    · exact .key rfl rfl <| .val rfl <| .key rfl rfl .nil
    · exact .key rfl rfl .nil
  refine .key rfl rfl ((((hg.append (.val rfl .nil)).append (isJson_pair rfl)).append
    (isJson_pair rfl)).append ?_)
  exact .key rfl rfl <| .key rfl rfl <| .val rfl .nil

theorem isJson_variant {variant : CString} : IsJson (variantTokens variant) :=
  .val rfl <| .key rfl rfl .nil

theorem isJson_change {glue kind originId originName targetId targetName : CString}
    (hg : isPunctuation glue) (hk : isWord kind) :
    IsJson (changeTokens glue kind originId originName targetId targetName) := by
  refine ((IsJson.append ?_ (isJson_pair rfl)).append (isJson_pair rfl)).append (isJson_pair rfl)
  exact .key hg rfl <| .key rfl hk <| .key rfl rfl <| .key rfl rfl <| .val rfl .nil

theorem isPunctuation_tracker {n : Int} (h : 0 ≤ n) : isPunctuation (bare (formatD n ++ ",")) := by
  have hd : ∀ c ∈ formatD n, isDigit c := by
    rw [formatD, if_neg (by omega)]
    exact isDigit_of_mem_digits
  simp only [isPunctuation, bare, Bool.and_eq_true, List.all_eq_true]
  refine ⟨fun c hc => ?_, rfl⟩
  rcases List.mem_cons.mp hc with rfl | hc
  · decide
  · rcases List.mem_append.mp hc with hc | hc
    · have hr := Numeric.range (.inl (hd c hc))
      constructor
      all_goals
        rw [bne_iff_ne]
        rintro rfl
        exact absurd hr (by decide)
    · rw [List.mem_singleton.mp hc]
      decide

section

variable {job : PendingJob} {line : CString} {now : Nat}

theorem isJson_changes : IsJson job.changesTokens := by
  refine .append ?_ ?_
  · split_ifs
    · exact isJson_change rfl rfl
    · exact .nil
  · split_ifs
    · exact isJson_change rfl rfl
    · exact isJson_change rfl rfl
    · exact .nil

theorem isJson_tail (ht : 0 ≤ job.tracker) : IsJson job.tailTokens := by
  refine .key rfl rfl ?_
  split_ifs
  · exact .key (isPunctuation_tracker ht) rfl isJson_changes
  · exact .nil

theorem isJson_head : IsJson (job.headTokens line now) :=
  (((isJson_path.append isJson_status).append isJson_owner).append isJson_material).append
    isJson_variant

theorem separated_key {glue name tail : CString} {ts : List (CString × Token)}
    (h : Separated ts tail) : Separated (key glue name :: ts) tail :=
  h

theorem separated_val {glue value tail : CString} {ts : List (CString × Token)}
    (he : IsEnd (tokens ts tail)) (h : Separated ts tail) : Separated (val glue value :: ts) tail :=
  ⟨he, h⟩

theorem separated_pair {name value tail : CString} (h : IsEnd tail) :
    Separated (pair name value) tail :=
  separated_key (separated_val h trivial)

-- The tokens in front of the machine variant at the end of the first text.
def frontTokens (job : PendingJob) (line : CString) (now : Nat) : List (CString × Token) :=
  pathTokens job.uuid (job.created now) job.name job.path ++
    (statusTokens job.cloudJobId job.machineVariant job.hasChanges ++
    (ownerTokens job.owner (printerIdentityGuid line) job.nozzleId job.hasChanges ++
    materialTokens job.materialGuid job.materialBrand job.materialType job.materialColor
      job.machineFamily (isClusterGuid job.materialGuid)))

theorem headTokens_eq :
    job.headTokens line now = job.frontTokens line now ++ variantTokens job.machineVariant := by
  simp only [headTokens, frontTokens, List.append_assoc]

theorem separated_path {uuid createdAt name path text : CString} (h : IsEnd text) :
    Separated (pathTokens uuid createdAt name path) text := by
  refine separated_key <| separated_val (.inl rfl) <| separated_key <| separated_val (.inl rfl) <|
    separated_key <| separated_val (.inl rfl) <| separated_key <| separated_val h trivial

theorem isEnd_status {cloudJobId variant text : CString} {hasChanges : Bool} :
    IsEnd (tokens (statusTokens cloudJobId variant hasChanges) text) := by
  unfold statusTokens
  split_ifs
  all_goals exact .inl rfl

theorem separated_status {cloudJobId variant text : CString} {hasChanges : Bool} (h : IsEnd text) :
    Separated (statusTokens cloudJobId variant hasChanges) text := by
  refine .append ?_ ?_
  · cases cloudJobId.isEmpty
    case true  => trivial
    case false => exact separated_pair (.inl rfl)
  · exact separated_key <| separated_key <| separated_key <| separated_key <| separated_key <|
      separated_key <| separated_key <| separated_val h trivial

theorem isEnd_owner {owner printerUuid nozzle text : CString} {hasChanges : Bool} :
    IsEnd (tokens (ownerTokens owner printerUuid nozzle hasChanges) text) :=
  .inl rfl

theorem separated_owner {owner printerUuid nozzle text : CString} {hasChanges : Bool} (h : IsEnd text) :
    Separated (ownerTokens owner printerUuid nozzle hasChanges) text := by
  unfold ownerTokens
  split_ifs
  all_goals refine .append (.append (.append (separated_pair (.inl rfl)) ?_) (separated_pair (.inl rfl))) ?_
  · trivial
  · exact separated_key <| separated_key <| separated_key <| separated_key <| separated_key <|
      separated_key <| separated_val h trivial
  · exact separated_pair (.inl rfl)
  · exact separated_key <| separated_key <| separated_key <| separated_key <| separated_key <|
      separated_key <| separated_val h trivial

theorem isEnd_material {guid brand material color family text : CString} {hasGuid : Bool} :
    IsEnd (tokens (materialTokens guid brand material color family hasGuid) text) :=
  .inl rfl

theorem separated_material {guid brand material color family text : CString} {hasGuid : Bool}
    (h : IsEnd text) : Separated (materialTokens guid brand material color family hasGuid) text := by
  have hrest : Separated ([val (bare []) brand] ++ pair "material" material ++ pair "color" color ++
      [key "\x7d\x7d]," "constraints", key (bare ("\x7b\x7d" ++ ",")) "compatible_machine_families",
        val (bare "[") family]) text :=
    separated_val (.inl rfl) <| separated_key <| separated_val (.inl rfl) <| separated_key <|
      separated_val (.inr rfl) <| separated_key <| separated_key <| separated_val h trivial
  unfold materialTokens
  split_ifs
  · exact separated_key <| separated_key <| separated_val (.inl rfl) <| separated_key hrest
  · exact separated_key <| separated_key hrest

theorem separated_front {text : CString} (h : IsEnd text) :
    Separated (job.frontTokens line now) text := by
  refine (separated_path ?_).append ((separated_status ?_).append ((separated_owner ?_).append
    (separated_material h)))
  · rw [tokens_append]
    exact isEnd_status
  · rw [tokens_append]
    exact isEnd_owner
  · exact isEnd_material

theorem separated_change {glue kind originId originName targetId targetName text : CString}
    (h : IsEnd text) :
    Separated (changeTokens glue kind originId originName targetId targetName) text :=
  separated_key <| separated_key <| separated_key <| separated_key <| separated_val (.inl rfl) <|
    separated_key <| separated_val (.inl rfl) <| separated_key <| separated_val (.inl rfl) <|
    separated_key <| separated_val h trivial

theorem separated_changes {text : CString} (h : IsEnd text) :
    Separated job.changesTokens text := by
  unfold changesTokens
  split_ifs
  · exact (separated_change (.inr rfl)).append (separated_change h)
  · rw [List.append_nil]
    exact separated_change h
  · exact separated_change h
  · trivial

theorem separated_tail : Separated job.tailTokens job.tail := by
  refine separated_key ?_
  unfold tail
  split_ifs
  · exact separated_key (separated_changes (.inr rfl))
  · trivial

theorem names_key {glue name : CString} {ts : List (CString × Token)} :
    names (key glue name :: ts) = name :: names ts := rfl

theorem names_val {glue value : CString} {ts : List (CString × Token)} :
    names (val glue value :: ts) = names ts := rfl

theorem names_nil : names [] = [] := rfl

theorem values_nil : values [] = [] := rfl

theorem values_key {glue name : CString} {ts : List (CString × Token)} :
    values (key glue name :: ts) = values ts := rfl

-- The names in the first text, apart from the optional one of the cloud job.
def headNames : List CString :=
  ["uuid", "created_at", "name", "path", "status", "wait_user_action", "pre_print", "time_total",
    "time_elapsed", "started", "force", "machine_variant", "owner", "printer_uuid", "assigned_to",
    "build_plate", "type", "glass", "configuration", "extruder_index", "print_core_id", "material",
    "guid", "brand", "color", "constraints", "compatible_machine_families", "impediments_to_printing"]

theorem names_pathTokens {uuid createdAt name path : CString} :
    names (pathTokens uuid createdAt name path) ⊆ headNames := by
  simp [pathTokens, pair, names_key, names_val, names_nil, headNames]

theorem names_statusTokens {cloudJobId variant : CString} {hasChanges : Bool} :
    names (statusTokens cloudJobId variant hasChanges) ⊆
      headNames ++ if cloudJobId.isEmpty then [] else [ofString "cloud_job_id"] := by
  unfold statusTokens
  cases cloudJobId.isEmpty
  all_goals
    cases hasChanges
    all_goals
      simp [pair, names_key, names_val, names_nil, headNames]

theorem names_ownerTokens {owner printerUuid nozzle : CString} {hasChanges : Bool} :
    names (ownerTokens owner printerUuid nozzle hasChanges) ⊆ headNames := by
  unfold ownerTokens
  cases hasChanges
  all_goals
    simp [pair, names_key, names_val, names_nil, headNames]

theorem names_materialTokens {guid brand material color family : CString} {hasGuid : Bool} :
    names (materialTokens guid brand material color family hasGuid) ⊆ headNames := by
  unfold materialTokens
  cases hasGuid
  all_goals
    simp [pair, names_key, names_val, names_nil, headNames]

theorem names_front :
    names (job.frontTokens line now) ⊆
      headNames ++ if job.cloudJobId.isEmpty then [] else [ofString "cloud_job_id"] := by
  simp only [frontTokens, names_append]
  refine List.append_subset.mpr ⟨?_, List.append_subset.mpr ⟨names_statusTokens,
    List.append_subset.mpr ⟨?_, ?_⟩⟩⟩
  · exact List.subset_append_of_subset_left _ names_pathTokens
  · exact List.subset_append_of_subset_left _ names_ownerTokens
  · exact List.subset_append_of_subset_left _ names_materialTokens

-- The names that are not among them.
theorem notMem_headNames : ∀ name ∈ [ofString "cloud_job_id", "source", "deneb_tracker", "origin_name",
    "target_name", "material_change", "print_core_change"], name ∉ headNames := by
  decide +kernel

theorem notMem_front {name : CString} (h : name ∉ headNames)
    (hc : job.cloudJobId = [] ∨ name ≠ ofString "cloud_job_id") : name ∉ names (job.frontTokens line now) := by
  intro hm
  rcases List.mem_append.mp (names_front hm) with hm | hm
  case inl => exact h hm
  case inr =>
    split_ifs at hm with he
    case pos => cases hm
    case neg =>
      rcases hc with hc | hc
      case inl => exact he (List.isEmpty_iff.mpr hc)
      case inr => exact hc (List.mem_singleton.mp hm)

theorem values_pathTokens {uuid createdAt name path : CString} :
    values (pathTokens uuid createdAt name path) =
      [visible uuid, visible createdAt, visible name, visible path] := rfl

theorem values_statusTokens {cloudJobId variant : CString} {hasChanges : Bool} :
    values (statusTokens cloudJobId variant hasChanges) =
      (if cloudJobId.isEmpty then [] else [visible cloudJobId]) ++ [visible variant] := by
  unfold statusTokens
  cases cloudJobId.isEmpty <;> rfl

theorem values_ownerTokens {owner printerUuid nozzle : CString} {hasChanges : Bool} :
    values (ownerTokens owner printerUuid nozzle hasChanges) =
      [visible owner] ++ (if hasChanges then [] else [visible printerUuid]) ++
        [visible printerUuid, visible nozzle] := by
  cases hasChanges <;> rfl

theorem values_materialTokens {guid brand material color family : CString} {hasGuid : Bool} :
    values (materialTokens guid brand material color family hasGuid) =
      (if hasGuid then [visible guid] else []) ++
        [visible brand, visible material, visible color, visible family] := by
  cases hasGuid <;> rfl

-- The texts that are written in front of the tracker, and those of the changes.
def texts (job : PendingJob) : List CString :=
  [job.name, job.path, job.cloudJobId, job.machineVariant, job.owner, job.nozzleId,
    job.materialBrand, job.materialType, job.materialColor, job.machineFamily]

def changeTexts (job : PendingJob) : List CString :=
  (if job.materialChangeRequired then
    [job.originMaterialGuid, job.originNameOrGuid, job.materialGuid, job.targetNameOrType]
  else []) ++
  if job.printCoreChangeRequired then [job.originNozzleId, job.nozzleId] else []

-- A text that is taken for the name of a field, once its control characters are dropped.
def Hides (name : CString) (texts : List CString) : Prop :=
  ∃ s ∈ texts, hides (visible s) name

instance (name : CString) (texts : List CString) : Decidable (Hides name texts) :=
  inferInstanceAs (Decidable (∃ s ∈ texts, hides (visible s) name))

-- The names that are looked for are neither GUIDs nor empty.
structure IsField (name : CString) : Prop where
  word   : isWord name
  ne_nil : name ≠ []
  length : name.length ≠ 36

instance (name : CString) : Decidable (IsField name) :=
  decidable_of_iff (isWord name ∧ name ≠ [] ∧ name.length ≠ 36)
    ⟨fun ⟨h₁, h₂, h₃⟩ => ⟨h₁, h₂, h₃⟩, fun ⟨h₁, h₂, h₃⟩ => ⟨h₁, h₂, h₃⟩⟩

section

variable {name : CString} (hn : IsField name)

include hn in
theorem hides_empty : hides (visible []) name = false := by
  have h := @hides_of_notMem (visible []) name (by simp [visible])
  rw [Bool.eq_false_iff, Ne, h]
  exact Ne.symm hn.ne_nil

include hn in
theorem hides_guid {guid : CString} (h : isClusterGuid guid) : hides (visible guid) name = false := by
  rw [(isClusterGuid_visible h).visible_eq, Bool.eq_false_iff, Ne, hides_of_notMem]
  · rintro rfl
    exact hn.length (isClusterGuid_length h)
  · exact fun hm => absurd (isClusterGuid_mem h hm).left (by decide)

include hn in
theorem hides_created : hides (visible (job.created now)) name = false := by
  have hplain : ∀ c ∈ job.created now, c ≠ 34 ∧ c ≠ 92 ∧ 32 ≤ c :=
    fun c hc => createdAt_plain c (List.mem_of_mem_take hc)
  have hv : Visible (job.created now) := fun c hc => (hplain c hc).right.right
  rw [hv.visible_eq, Bool.eq_false_iff, Ne, hides_of_notMem fun hm => (hplain 34 hm).left rfl]
  refine created_ne fun c hc => ?_
  have hm := isWord_mem hn.word (List.mem_of_mem_head? hc)
  by_contra hd
  have hr := Numeric.range (.inl ((Bool.not_eq_false _).mp hd))
  omega

include hn in
theorem hides_front (hu : isClusterGuid job.uuid) :
    (∃ s ∈ values (job.frontTokens line now), hides s name) ↔ Hides name job.texts := by
  have huuid := hides_guid hn hu
  have hprinter := hides_guid hn (@printerIdentityGuid_isClusterGuid line)
  have hcreated := @hides_created job now name hn
  have hcloud : (∃ s ∈ if job.cloudJobId.isEmpty then [] else [visible job.cloudJobId],
      hides s name) ↔ hides (visible job.cloudJobId) name := by
    cases hc : job.cloudJobId
    case nil  => simp [hides_empty hn]
    case cons => simp
  have hguid : (∃ s ∈ if isClusterGuid job.materialGuid then [visible job.materialGuid] else [],
      hides s name) ↔ False := by
    cases hg : isClusterGuid job.materialGuid
    case false => simp
    case true  => simp [hides_guid hn hg]
  have hidentity : (∃ s ∈ if job.hasChanges then [] else [visible (printerIdentityGuid line)],
      hides s name) ↔ False := by
    cases job.hasChanges
    case false => simp [hprinter]
    case true  => simp
  simp only [frontTokens, values_append, values_pathTokens, values_statusTokens, values_ownerTokens,
    values_materialTokens, List.mem_append, or_and_right, exists_or, hcloud, hguid, hidentity]
  simp [huuid, hcreated, hprinter, Hides, texts, or_assoc]

end

theorem names_change {glue kind originId originName targetId targetName : CString} :
    names (changeTokens glue kind originId originName targetId targetName) =
      [ofString "type_of_change", kind, "index", "origin_id", "origin_name", "target_id", "target_name"] := rfl

theorem values_change {glue kind originId originName targetId targetName : CString} :
    values (changeTokens glue kind originId originName targetId targetName) =
      [visible originId, visible originName, visible targetId, visible targetName] := rfl

theorem names_changes {name : CString}
    (hn : name ∉ [ofString "type_of_change", "index", "origin_id", "origin_name", "target_id",
      "target_name"]) :
    name ∈ names job.changesTokens ↔
      job.materialChangeRequired ∧ name = "material_change" ∨
        job.printCoreChangeRequired ∧ name = "print_core_change" := by
  simp only [List.mem_cons, List.not_mem_nil, or_false, not_or] at hn
  rw [changesTokens, names_append]
  cases job.materialChangeRequired
  all_goals
    cases job.printCoreChangeRequired
    all_goals simp [names_change, hn, names_nil]

theorem hides_changes {name : CString} :
    (∃ s ∈ values job.changesTokens, hides s name) ↔ Hides name job.changeTexts := by
  rw [changesTokens, changeTexts, values_append]
  cases job.materialChangeRequired
  all_goals
    cases job.printCoreChangeRequired
    all_goals simp [values_change, Hides, values_nil]

theorem not_hasChanges (h : job.hasChanges = false) :
    job.materialChangeRequired = false ∧ job.printCoreChangeRequired = false := by
  rw [hasChanges, changeCount] at h
  cases hm : job.materialChangeRequired
  all_goals cases hc : job.printCoreChangeRequired
  all_goals simp_all

-- Whether a name is in a pending file as a whole.
theorem behind_isSome_all {name : CString} (hn : IsField name) (hu : isClusterGuid job.uuid)
    (hhead : name ∉ headNames ++ [ofString "cloud_job_id", "deneb_tracker",
      "configuration_changes_required"])
    (hnames : name ∉ [ofString "type_of_change", "index", "origin_id", "origin_name", "target_id",
      "target_name"]) :
    (behind name (job.headTokens line now ++ job.tailTokens)).isSome ↔
      (job.materialChangeRequired ∧ name = "material_change" ∨
        job.printCoreChangeRequired ∧ name = "print_core_change") ∨
      Hides name (job.texts ++ job.changeTexts) := by
  simp only [List.mem_append, List.mem_cons, List.not_mem_nil, or_false, not_or] at hhead
  obtain ⟨hhead, hcloud, htracker, hchanges⟩ := hhead
  have hfront : name ∉ names (job.frontTokens line now) := notMem_front hhead (.inr hcloud)
  have hvariant : Hides name [job.machineVariant] → Hides name job.texts := by
    rintro ⟨s, hs, hh⟩
    rw [List.mem_singleton.mp hs] at hh
    exact ⟨job.machineVariant, by simp [texts], hh⟩
  have himpediments : name ≠ "impediments_to_printing" := by
    rintro rfl
    exact hhead (by simp [headNames])
  have hnv : names (variantTokens job.machineVariant) = [ofString "impediments_to_printing"] := rfl
  have hvv : values (variantTokens job.machineVariant) = [visible job.machineVariant] := rfl
  have happend : Hides name (job.texts ++ job.changeTexts) ↔
      Hides name job.texts ∨ Hides name job.changeTexts := by
    simp only [Hides, List.mem_append, or_and_right, exists_or]
  rw [behind_isSome_iff, headTokens_eq, happend]
  simp only [names_append, values_append, List.mem_append, hfront, false_or, hnv, hvv,
    List.mem_singleton, himpediments, or_and_right, exists_or, hides_front hn hu]
  have hv : (∃ s, s = visible job.machineVariant ∧ hides s name) → Hides name job.texts := by
    rintro ⟨s, rfl, hs⟩
    exact hvariant ⟨_, List.mem_cons_self, hs⟩
  rw [or_iff_left_of_imp hv, tailTokens, names_key, values_key]
  cases hh : job.hasChanges
  · obtain ⟨hm, hc⟩ := not_hasChanges hh
    simp [names_nil, values_nil, htracker, hm, hc, changeTexts, Hides]
  · simp only [if_true, names_key, values_key, List.mem_cons, htracker, hchanges, false_or,
      names_changes hnames, hides_changes]

theorem tail_mem (ht : 0 ≤ job.tracker) : ∀ c ∈ job.tail, c ≠ 0 ∧ c ≠ 34 := by
  have hdigits : ∀ c ∈ formatD job.tracker, c ≠ 0 ∧ c ≠ 34 := by
    rw [formatD, if_neg (by omega)]
    intro c hc
    have hr := Numeric.range (.inl (isDigit_of_mem_digits c hc))
    constructor
    all_goals
      rintro rfl
      exact absurd hr (by decide)
  have hend : ∀ c ∈ ofString "\x7d]\n", c ≠ 0 ∧ c ≠ 34 := by decide
  have hclose : ∀ c ∈ ofString "\x7d" ++ "]" ++ "\x7d]\n", c ≠ 0 ∧ c ≠ 34 := by decide
  rw [tail]
  split_ifs
  · exact hclose
  · exact List.forall_mem_cons.mpr ⟨by decide, List.forall_mem_append.mpr ⟨hdigits, hend⟩⟩

-- The text of a pending file.
def text (job : PendingJob) (line : CString) (now : Nat) : CString :=
  tokens (job.headTokens line now ++ job.tailTokens) job.tail

theorem getValue_text {name : CString} {size : Nat} (hn : IsField name) (hl : name.length < 126)
    (ht : 0 ≤ job.tracker) :
    getValue (job.text line now) name size =
      match behind name (job.headTokens line now ++ job.tailTokens) with
      | none    => (-1, [])
      | some ts => readValue (tokens ts job.tail) size := by
  have hj := (isJson_head.append (isJson_tail ht) : IsJson (job.headTokens line now ++ job.tailTokens))
  exact getValue_tokens (isName_word hn.word) hl (hj.isTokens hn.word)
    fun hm => (tail_mem ht 34 hm).right rfl

theorem behind_key {name glue word : CString} {ts : List (CString × Token)} :
    behind name (key glue word :: ts) = if word = name then some ts else behind name ts := by
  simp only [behind, key, Token.hides, decide_eq_true_eq]

theorem behind_self {name glue : CString} {ts : List (CString × Token)} :
    behind name (key glue name :: ts) = some ts := by
  rw [behind_key, if_pos rfl]

theorem behind_ne {name glue word : CString} {ts : List (CString × Token)} (h : word ≠ name) :
    behind name (key glue word :: ts) = behind name ts := by
  rw [behind_key, if_neg h]

theorem behind_val {name glue value : CString} {ts : List (CString × Token)} :
    behind name (val glue value :: ts) =
      if hides (visible value) name then some ts else behind name ts := rfl

theorem readValue_val {value text : CString} {ts : List (CString × Token)} {size : Nat}
    (hl : value.length < size) :
    readValue (tokens (val (bare []) value :: ts) text) size = (0, visible value) :=
  readValue_value visible_visible (Nat.lt_of_le_of_lt (List.length_filter_le _ _) hl)

-- A value that is taken for the name is read as an empty one.
theorem getValue_hidden_text {name : CString} {size : Nat} (hn : IsField name)
    (hl : name.length < 126) (ht : 0 ≤ job.tracker) (hu : isClusterGuid job.uuid)
    (hnames : name ∉ names (job.frontTokens line now)) (hh : Hides name job.texts) :
    getValue (job.text line now) name size = (0, []) := by
  have hs : (behind name (job.frontTokens line now)).isSome :=
    behind_isSome_iff.mpr (.inr ((hides_front hn hu).mpr hh))
  obtain ⟨ts, hts⟩ := Option.isSome_iff_exists.mp hs
  rw [getValue_text hn hl ht, headTokens_eq, List.append_assoc, behind_append, hts]
  refine readValue_end ?_
  rw [tokens_append]
  exact (separated_front (.inl rfl)).behind hnames hts

-- A field that is not there has no value, even if a value is taken for its name.
theorem getValue_absent_text {name : CString} {size : Nat} (hn : IsField name)
    (hl : name.length < 126) (ht : 0 ≤ job.tracker) (hu : isClusterGuid job.uuid)
    (hnames : name ∉ names (job.frontTokens line now))
    (himp : name ≠ "impediments_to_printing") (htail : name ∉ names job.tailTokens) :
    (getValue (job.text line now) name size).2 = [] := by
  by_cases hh : Hides name job.texts
  · rw [getValue_hidden_text hn hl ht hu hnames hh]
  · have hfront : behind name (job.frontTokens line now) = none := by
      rw [← Option.not_isSome_iff_eq_none, behind_isSome_iff, not_or]
      exact ⟨hnames, (hides_front hn hu).not.mpr hh⟩
    have hvariant : behind name (variantTokens job.machineVariant) = none := by
      have hv : hides (visible job.machineVariant) name = false := by
        rw [Bool.eq_false_iff]
        exact fun hv => hh ⟨job.machineVariant, by simp [texts], hv⟩
      rw [variantTokens, behind_val, hv, behind_key, if_neg (Ne.symm himp)]
      rfl
    rw [getValue_text hn hl ht, headTokens_eq, behind_append, behind_append, hfront, hvariant]
    rcases hts : behind name job.tailTokens with _ | ts
    · rfl
    · exact congrArg Prod.snd (readValue_end (separated_tail.behind htail hts))

section

variable (hu : isClusterGuid job.uuid) (ht : 0 ≤ job.tracker)

-- The tokens behind those of the path.
def restTokens (job : PendingJob) (line : CString) : List (CString × Token) :=
  statusTokens job.cloudJobId job.machineVariant job.hasChanges ++
    (ownerTokens job.owner (printerIdentityGuid line) job.nozzleId job.hasChanges ++
    (materialTokens job.materialGuid job.materialBrand job.materialType job.materialColor
      job.machineFamily (isClusterGuid job.materialGuid) ++
    (variantTokens job.machineVariant ++ job.tailTokens)))

theorem allTokens_eq :
    job.headTokens line now ++ job.tailTokens =
      key "[\x7b" "uuid" :: val (bare []) job.uuid :: key "," "created_at" ::
        val (bare []) (job.created now) :: key "," "name" :: val (bare []) job.name ::
        key "," "path" :: val (bare []) job.path :: job.restTokens line := by
  simp only [headTokens, restTokens, pathTokens, pair, List.append_assoc, List.cons_append,
    List.nil_append]

include hu in
-- Neither the identity nor the time is taken for a name.
theorem behind_name {name : CString} (hn : IsField name) (huuid : ofString "uuid" ≠ name)
    (hcreated : ofString "created_at" ≠ name) :
    behind name (job.headTokens line now ++ job.tailTokens) =
      behind name (key "," "name" :: val (bare []) job.name :: key "," "path" ::
        val (bare []) job.path :: job.restTokens line) := by
  rw [allTokens_eq, behind_ne huuid, behind_val, hides_guid hn hu, if_neg (by decide),
    behind_ne hcreated, behind_val, hides_created hn, if_neg (by decide)]

include hu ht in
theorem read_uuid (hl : job.uuid.length < 64) :
    (getValue (job.text line now) "uuid" 64).2 = job.uuid := by
  rw [getValue_text (by decide) (by decide) ht, allTokens_eq, behind_self]
  exact (congrArg Prod.snd (readValue_val hl)).trans (isClusterGuid_visible hu).visible_eq

include hu ht in
theorem read_name (hv : Visible job.name) (hl : job.name.length < 128) :
    (getValue (job.text line now) "name" 128).2 = job.name := by
  have hn : IsField "name" := by decide
  rw [getValue_text hn (by decide) ht, behind_name hu hn (by decide) (by decide), behind_self]
  exact (congrArg Prod.snd (readValue_val hl)).trans hv.visible_eq

include hu ht in
theorem read_path (hv : Visible job.path) (hl : job.path.length < 1024) :
    (getValue (job.text line now) "path" 1024).2 =
      if hides (visible job.name) "path" then [] else job.path := by
  have hn : IsField "path" := by decide
  rw [getValue_text hn (by decide) ht, behind_name hu hn (by decide) (by decide),
    behind_ne (by decide), behind_val, behind_self]
  split_ifs
  · exact congrArg Prod.snd (readValue_end (.inl rfl))
  · exact (congrArg Prod.snd (readValue_val hl)).trans hv.visible_eq

include hu ht in
theorem read_source : (getValue (job.text line now) "source" 32).2 = [] := by
  have hfront : ofString "source" ∉ names (job.frontTokens line now) :=
    notMem_front (notMem_headNames _ (by simp)) (.inr (by decide))
  have htail : ofString "source" ∉ names job.tailTokens := by
    rw [tailTokens, names_key]
    split_ifs
    · have hc := @names_changes job "source" (by decide +kernel)
      rw [names_key, List.mem_cons, List.mem_cons, hc]
      simp only [not_or, not_and]
      exact ⟨by decide, by decide, fun _ => by decide, fun _ => by decide⟩
    · decide
  exact getValue_absent_text (by decide) (by decide) ht hu hfront (by decide) htail

include hu ht in
theorem read_cloud (hv : Visible job.cloudJobId) (hl : job.cloudJobId.length < 96) :
    (getValue (job.text line now) "cloud_job_id" 96).2 =
      if Hides "cloud_job_id" [job.name, job.path] then [] else job.cloudJobId := by
  have hn : IsField "cloud_job_id" := by decide
  by_cases hc : job.cloudJobId = []
  · have hfront : ofString "cloud_job_id" ∉ names (job.frontTokens line now) :=
      notMem_front (notMem_headNames _ (.head _)) (.inl hc)
    have htail : ofString "cloud_job_id" ∉ names job.tailTokens := by
      rw [tailTokens, names_key]
      split_ifs
      · have hc := @names_changes job "cloud_job_id" (by decide +kernel)
        rw [names_key, List.mem_cons, List.mem_cons, hc]
        simp only [not_or, not_and]
        exact ⟨by decide, by decide, fun _ => by decide, fun _ => by decide⟩
      · decide
    rw [getValue_absent_text hn (by decide) ht hu hfront (by decide) htail, hc, ite_self]
  · have hrest : ∃ ts, job.restTokens line =
        key "," "cloud_job_id" :: val (bare []) job.cloudJobId :: key "," "status" :: ts := by
      have he : job.cloudJobId.isEmpty = false := by
        rw [List.isEmpty_eq_false_iff]
        exact hc
      rw [restTokens, statusTokens, he]
      exact ⟨_, rfl⟩
    obtain ⟨ts, hts⟩ := hrest
    rw [getValue_text hn (by decide) ht, behind_name hu hn (by decide) (by decide), hts,
      behind_ne (by decide), behind_val, behind_ne (by decide), behind_val, behind_self]
    by_cases hname : hides (visible job.name) "cloud_job_id"
    · rw [if_pos hname, if_pos ⟨_, List.mem_cons_self, hname⟩]
      exact congrArg Prod.snd (readValue_end (.inl rfl))
    by_cases hpath : hides (visible job.path) "cloud_job_id"
    · rw [if_neg hname, if_pos hpath, if_pos ⟨_, .tail _ List.mem_cons_self, hpath⟩]
      exact congrArg Prod.snd (readValue_end (.inl rfl))
    · have hno : ¬ Hides "cloud_job_id" [job.name, job.path] := by
        rintro ⟨s, hs, hh⟩
        simp only [List.mem_cons, List.not_mem_nil, or_false] at hs
        rcases hs with rfl | rfl
        · exact hname hh
        · exact hpath hh
      rw [if_neg hname, if_neg hpath, if_neg hno]
      exact (congrArg Prod.snd (readValue_val hl)).trans hv.visible_eq

theorem isToken_formatD {n : Int} (h : 0 ≤ n) : IsToken (formatD n) := by
  rw [formatD, if_neg (by omega)]
  intro c hc
  have hd := isDigit_of_mem_digits c hc
  have hr := Numeric.range (.inl hd)
  have hspace := Numeric.not_space (.inl hd)
  refine ⟨?_, ?_, ?_⟩
  · have hs : Json.isSpace c = false := by
      simp only [Json.isSpace, Bool.or_eq_false_iff, beq_eq_false_iff_ne]
      refine ⟨⟨⟨?_, ?_⟩, ?_⟩, ?_⟩
      all_goals
        rintro rfl
        exact absurd hr (by decide)
    simp only [isBare, hs, Bool.and_eq_true, bne_iff_ne]
    refine ⟨⟨?_, ?_⟩, rfl⟩
    all_goals
      rintro rfl
      exact absurd hr (by decide)
  · rintro rfl
    exact absurd hd (by decide)
  · rintro rfl
    exact absurd hd (by decide)

theorem integer_formatD {n : Int} (h : 0 ≤ n) : Scan.integer (formatD n) = some (n, []) := by
  rw [formatD, if_neg (by omega)]
  obtain ⟨c, s, hs⟩ := List.exists_cons_of_ne_nil (@digits_ne_nil n.natAbs)
  have hc : isDigit c := isDigit_of_mem_digits c (hs ▸ List.mem_cons_self)
  have hskip : skipSpaces (digits n.natAbs) = digits n.natAbs := by
    rw [hs, skipSpaces, List.dropWhile_cons, Numeric.not_space (.inl hc), if_neg (by decide)]
  have hsign : Scan.sign (digits n.natAbs) = (false, digits n.natAbs) := by
    have hr := Numeric.range (.inl hc)
    rw [hs, Scan.sign]
    · rintro _ he
      injection he with he
      exact absurd (he ▸ hc) (by decide)
    · rintro _ he
      injection he with he
      exact absurd (he ▸ hc) (by decide)
  have htake : (digits n.natAbs).takeWhile isDigit = digits n.natAbs := by
    have h := @takeWhile_digits n.natAbs [] (by simp)
    rwa [List.append_nil] at h
  have hdrop : (digits n.natAbs).dropWhile isDigit = [] := by
    have h := @dropWhile_digits n.natAbs [] (by simp)
    rwa [List.append_nil] at h
  have hne : (digits n.natAbs).isEmpty = false := by
    rw [List.isEmpty_eq_false_iff]
    exact digits_ne_nil
  simp only [Scan.integer, hskip, hsign, htake, hdrop, hne, Bool.false_eq_true, if_false,
    decimal_digits]
  rw [Int.natAbs_of_nonneg h]

theorem strtol_formatD {n : Int} (h : 0 ≤ n) (hn : n < 2 ^ 31) : Scan.strtol (formatD n) = n := by
  rw [Scan.strtol, integer_formatD h]
  dsimp only
  omega

theorem formatD_length {n : Int} (h : 0 ≤ n) (hn : n < 2 ^ 31) : (formatD n).length < 64 := by
  have hl : (Nat.toDigits 10 n.natAbs).length ≤ 10 :=
    (Nat.length_toDigits_le_iff (by decide) (by decide)).mpr (by omega)
  rw [formatD, if_neg (by omega), digits, List.length_map]
  omega

include hu ht in
theorem read_tracker (hlt : job.tracker < 2 ^ 31) :
    getIntValue (job.text line now) "deneb_tracker" (-1) =
      if Hides "deneb_tracker" job.texts then -1 else job.tracker := by
  have hn : IsField "deneb_tracker" := by decide
  have hfront : ofString "deneb_tracker" ∉ names (job.frontTokens line now) :=
    notMem_front (notMem_headNames _ (by simp)) (.inr (by decide))
  by_cases hh : Hides "deneb_tracker" job.texts
  · rw [getIntValue, getValue_hidden_text hn (by decide) ht hu hfront hh, if_pos hh]
    rfl
  · have hb : behind "deneb_tracker" (job.frontTokens line now) = none := by
      rw [← Option.not_isSome_iff_eq_none, behind_isSome_iff, not_or]
      exact ⟨hfront, (hides_front hn hu).not.mpr hh⟩
    have hvariant : behind "deneb_tracker" (variantTokens job.machineVariant) = none := by
      have hv : hides (visible job.machineVariant) "deneb_tracker" = false := by
        rw [Bool.eq_false_iff]
        exact fun hv => hh ⟨job.machineVariant, by simp [texts], hv⟩
      rw [variantTokens, behind_val, hv, behind_ne (by decide)]
      rfl
    have htext : ∃ rest, IsEnd rest ∧ tokens (if job.hasChanges then
        key (bare (formatD job.tracker ++ ",")) "configuration_changes_required" :: job.changesTokens
        else []) job.tail = 58 :: (formatD job.tracker ++ rest) := by
      rw [tail]
      split_ifs
      · refine ⟨ofString "," ++ 34 :: (ofString "configuration_changes_required" ++
          34 :: tokens job.changesTokens ("\x7d" ++ "]" ++ "\x7d]\n")), .inl rfl, ?_⟩
        simp only [tokens_key, bare, List.cons_append, List.append_assoc]
      · exact ⟨_, .inr rfl, rfl⟩
    obtain ⟨rest, hrest, htext⟩ := htext
    have hv : getValue (job.text line now) "deneb_tracker" 64 = (0, formatD job.tracker) := by
      rw [getValue_text hn (by decide) ht, headTokens_eq, behind_append, behind_append, hb, hvariant,
        tailTokens, behind_self]
      dsimp only [Option.map_none, Option.none_or]
      rw [htext]
      exact readValue_token (isToken_formatD ht) (by rw [formatD, if_neg (by omega)]; exact digits_ne_nil)
        hrest (formatD_length ht hlt)
    rw [getIntValue, hv, if_neg hh]
    simp [integer_formatD ht, strtol_formatD ht hlt]

end

-- Reading the file gives the job that was written.
def RoundTrips (job : PendingJob) (content : CString) : Prop :=
  ∃ file, PendingJobFile.load content = some file ∧ file.path = job.path ∧ file.name = job.name ∧
    file.uuid = job.uuid ∧ file.source = job.source ∧ file.cloudJobId = job.cloudJobId ∧
    file.tracker = job.tracker ∧
    (file.hasConflict ↔ job.materialChangeRequired ∨ job.printCoreChangeRequired) ∧
    (file.hasMaterialChange ↔ job.materialChangeRequired) ∧
    (file.hasPrintCoreChange ↔ job.printCoreChangeRequired)

-- There is no source, which is never written, and no text is taken for the name of a later field.
structure Recoverable (job : PendingJob) : Prop where
  no_source     : job.source = []
  path_found    : ¬ Hides "path" [job.name]
  cloud_found   : job.cloudJobId = [] ∨ ¬ Hides "cloud_job_id" [job.name, job.path]
  tracker_found : ¬ Hides "deneb_tracker" job.texts
  no_material   : job.materialChangeRequired ∨ ¬ Hides "material_change" (job.texts ++ job.changeTexts)
  no_print_core :
    job.printCoreChangeRequired ∨ ¬ Hides "print_core_change" (job.texts ++ job.changeTexts)

theorem contains_iff {name text : CString} :
    contains text (34 :: name ++ [34]) ↔ (find name text).isSome := by
  rw [contains, find, Option.isSome_map]

theorem contains_text {name : CString} (hn : IsField name) (ht : 0 ≤ job.tracker) :
    contains (job.text line now) (34 :: name ++ [34]) ↔
      (behind name (job.headTokens line now ++ job.tailTokens)).isSome := by
  have hj := (isJson_head.append (isJson_tail ht) : IsJson (job.headTokens line now ++ job.tailTokens))
  rw [contains_iff, text, find_tokens (isName_word hn.word) (hj.isTokens hn.word)
    fun hm => (tail_mem ht 34 hm).right rfl, Option.isSome_map]

theorem contains_changes (ht : 0 ≤ job.tracker) (h : job.hasChanges) :
    contains (job.text line now) "\"configuration_changes_required\"" := by
  have hq : ofString "\"configuration_changes_required\"" =
      34 :: "configuration_changes_required" ++ [34] := by decide
  rw [hq, contains_text (by decide) ht, behind_isSome_iff, names_append, tailTokens, h, names_key]
  exact .inl (List.mem_append_right _ (.tail _ List.mem_cons_self))

theorem contains_change {name : CString} (hn : IsField name) (hu : isClusterGuid job.uuid)
    (ht : 0 ≤ job.tracker) (hmem : name ∈ [ofString "material_change", "print_core_change"]) :
    contains (job.text line now) (34 :: name ++ [34]) ↔
      (job.materialChangeRequired ∧ name = "material_change" ∨
        job.printCoreChangeRequired ∧ name = "print_core_change") ∨
      Hides name (job.texts ++ job.changeTexts) := by
  simp only [List.mem_cons, List.not_mem_nil, or_false] at hmem
  rw [contains_text hn ht, behind_isSome_all hn hu]
  · have hhead : name ∉ headNames := notMem_headNames _ (by rcases hmem with rfl | rfl <;> simp)
    rw [List.mem_append, not_or]
    refine ⟨hhead, ?_⟩
    rcases hmem with rfl | rfl <;> decide
  · rcases hmem with rfl | rfl <;> decide

theorem takeWhile_no_zero {text : CString} (h : 0 ∉ text) : text.takeWhile (· != 0) = text := by
  have ht := @List.takeWhile_append_of_pos _ (· != (0 : UInt8)) text [] fun c hc =>
    bne_iff_ne.mpr fun he => h (he ▸ hc)
  rwa [List.append_nil, List.takeWhile_nil, List.append_nil] at ht

theorem readRawArray_eq {text : CString} (hh : text.head? = some 91) (hz : 0 ∉ text)
    (hl : text.length < 8191) : PendingJobFile.readRawArray text 8192 = some text := by
  obtain ⟨rest, rfl⟩ := List.head?_eq_some_iff.mp hh
  have hread : PendingJobFile.readFile (91 :: rest) 8192 = some (91 :: rest) := by
    rw [PendingJobFile.readFile, if_neg (by simp only [List.isEmpty_cons, Bool.false_eq_true, false_or]; omega),
      takeWhile_no_zero hz]
  rw [PendingJobFile.readRawArray, hread]
  rfl

theorem load_text (ht : 0 ≤ job.tracker) (hl : (job.text line now).length < 4096) :
    PendingJobFile.readRawArray (job.text line now) 8192 = some (job.text line now) := by
  have hj := (isJson_head.append (isJson_tail ht) : IsJson (job.headTokens line now ++ job.tailTokens))
  exact readRawArray_eq rfl (hj.no_zero fun hm => (tail_mem ht 0 hm).left rfl) (by omega)

theorem writeFile_eq_some {target content : CString} {results : WriteResults}
    (h : job.writeFile line now target results = some content) :
    job.serialize line now 4096 = some content := by
  rw [writeFile] at h
  by_cases htarget : target.isEmpty
  · rw [if_pos htarget] at h
    contradiction
  rw [if_neg htarget] at h
  obtain ⟨json, hjson, h⟩ := Option.bind_eq_some_iff.mp h
  split_ifs at h
  injection h with h
  exact h ▸ hjson

theorem pending_job_round_trips_iff {target content : CString} {results : WriteResults}
    (hf : job.Fits) (hpath : Printable job.path) (hname : Printable job.name)
    (hcloud : Printable job.cloudJobId) (hu : isClusterGuid job.uuid) (ht : 0 ≤ job.tracker)
    (hlt : job.tracker < 2 ^ 31) (h : job.writeFile line now target results = some content) :
    RoundTrips job content ↔ Recoverable job := by
  obtain ⟨hne, hcontent, hl⟩ := serialize_eq_some hf hu hcloud.visible ht (writeFile_eq_some h)
  replace hcontent : content = job.text line now := hcontent
  subst hcontent
  have hp := @read_path job line now hu ht hpath.visible (Nat.lt_trans hf.path (by decide))
  have hn := @read_name job line now hu ht hname.visible hf.name
  have hid := @read_uuid job line now hu ht hf.uuid
  have hs := @read_source job line now hu ht
  have hc := @read_cloud job line now hu ht hcloud.visible hf.cloudJobId
  have htr := @read_tracker job line now hu ht hlt
  have hpathHides : Hides "path" [job.name] ↔ hides (visible job.name) "path" := by
    simp [Hides]
  have hqm : ofString "\"material_change\"" = 34 :: "material_change" ++ [34] := by decide
  have hqc : ofString "\"print_core_change\"" = 34 :: "print_core_change" ++ [34] := by decide
  have hm : contains (job.text line now) "\"material_change\"" ↔ job.materialChangeRequired ∨
      Hides "material_change" (job.texts ++ job.changeTexts) := by
    rw [hqm, contains_change (by decide) hu ht (by decide)]
    simp [show ofString "material_change" ≠ "print_core_change" by decide]
  have hpc : contains (job.text line now) "\"print_core_change\"" ↔ job.printCoreChangeRequired ∨
      Hides "print_core_change" (job.texts ++ job.changeTexts) := by
    rw [hqc, contains_change (by decide) hu ht (by decide)]
    simp [show ofString "print_core_change" ≠ "material_change" by decide]
  simp only [RoundTrips, PendingJobFile.load, load_text ht hl, Option.bind_eq_bind, Option.bind_some,
    Option.pure_def, Option.some.injEq, exists_eq_left', hp, hn, hid, hs, hc, htr, true_and,
    PendingJobFile.hasConflict, PendingJobFile.isPending, Bool.and_eq_true, Bool.or_eq_true, hm, hpc]
  constructor
  · rintro ⟨hpath', hsource, hcloud', htracker, -, hmaterial, hcore⟩
    refine ⟨hsource.symm, ?_, ?_, ?_, ?_, ?_⟩
    · rw [hpathHides]
      intro hh
      rw [if_pos hh] at hpath'
      exact hne hpath'.symm
    · refine or_iff_not_imp_left.mpr fun hc' hh => ?_
      rw [if_pos hh] at hcloud'
      exact hc' hcloud'.symm
    · intro hh
      rw [if_pos hh] at htracker
      omega
    · exact or_iff_not_imp_left.mpr fun hr hh => hr (hmaterial.mp (.inr hh))
    · exact or_iff_not_imp_left.mpr fun hr hh => hr (hcore.mp (.inr hh))
  · intro hr
    have hmaterial : job.materialChangeRequired ∨ Hides "material_change" (job.texts ++ job.changeTexts) ↔
        job.materialChangeRequired := or_iff_left_of_imp fun hh => hr.no_material.resolve_right (not_not.mpr hh)
    have hcore : job.printCoreChangeRequired ∨ Hides "print_core_change" (job.texts ++ job.changeTexts) ↔
        job.printCoreChangeRequired := or_iff_left_of_imp fun hh => hr.no_print_core.resolve_right (not_not.mpr hh)
    refine ⟨?_, hr.no_source.symm, ?_, ?_, ?_, hmaterial, hcore⟩
    · rw [if_neg (hpathHides.not.mp hr.path_found)]
    · split_ifs with hh
      · exact (hr.cloud_found.resolve_right (not_not.mpr hh)).symm
      · rfl
    · rw [if_neg hr.tracker_found]
    · rw [if_neg hr.tracker_found, hmaterial, hcore]
      refine and_iff_right_of_imp fun hch => ⟨by simpa using ht, contains_changes ht ?_⟩
      by_contra hh
      obtain ⟨hm', hc'⟩ := not_hasChanges ((Bool.not_eq_true _).mp hh)
      simp [hm', hc'] at hch

-- A job as it is registered, and a writing of it that succeeds.
def cubeJob (source : CString) : PendingJob where
  path                    := "/sd/cube.gcode"
  name                    := "cube.gcode"
  uuid                    := "4f1c2a70-9b3e-4d55-8c61-0a7be93d1f24"
  source                  := source
  cloudJobId              := []
  owner                   := "Deneb"
  machineVariant          := "Ultimaker 2+ Connect"
  machineFamily           := "ultimaker2_plus_connect"
  materialGuid            := []
  originMaterialGuid      := []
  originMaterialName      := []
  targetMaterialName      := []
  materialBrand           := "Generic"
  materialType            := "PLA"
  materialColor           := "#FFFFFF"
  nozzleId                := "0.4 mm"
  originNozzleId          := "0.4 mm"
  tracker                 := 12
  materialChangeRequired  := false
  printCoreChangeRequired := false

def written : WriteResults where
  opened  := true
  written := true
  closed  := true
  renamed := true

theorem cubeJob_fits : (cubeJob []).Fits := by
  constructor <;> decide +kernel

theorem pending_job_round_trips_cube :
    ∃ content, (cubeJob []).writeFile "" 0 "/tmp/deneb_pending_job.json" written = some content ∧
      (RoundTrips (cubeJob []) content ↔ Recoverable (cubeJob [])) := by
  have h : ((cubeJob []).writeFile "" 0 "/tmp/deneb_pending_job.json" written).isSome := by
    decide +kernel
  obtain ⟨content, hc⟩ := Option.isSome_iff_exists.mp h
  exact ⟨content, hc, pending_job_round_trips_iff cubeJob_fits (by decide) (by decide) (by decide)
    (by decide +kernel) (by decide) (by decide) hc⟩

-- The source of a job from the USB drive is not in its pending file.
theorem pending_job_source_not_round_trips :
    ∃ content, (cubeJob "USB").writeFile "" 0 "/tmp/deneb_pending_job.json" written = some content ∧
      ¬ RoundTrips (cubeJob "USB") content := by
  have hload : (((cubeJob "USB").writeFile "" 0 "/tmp/deneb_pending_job.json" written).bind
      PendingJobFile.load).map (·.source) = some [] := by
    decide +kernel
  obtain ⟨loaded, hb, hempty⟩ := Option.map_eq_some_iff.mp hload
  obtain ⟨content, hc, hl⟩ := Option.bind_eq_some_iff.mp hb
  refine ⟨content, hc, ?_⟩
  rintro ⟨file, hf, -, -, -, hs, -⟩
  obtain rfl := Option.some.inj (hf.symm.trans hl)
  rw [hs] at hempty
  revert hempty
  decide

end

end Deneb.PendingJob
