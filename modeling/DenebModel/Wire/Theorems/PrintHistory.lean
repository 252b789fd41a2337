import DenebModel.Primitives.Theorems.JsonText
import DenebModel.Wire.PrintHistory
import DenebModel.Wire.Theorems.JsonString
import DenebModel.Wire.Theorems.PendingJob

namespace Deneb.PrintHistory

open CString Json JsonText BinaryFloat

variable {content history front back entry s : CString} {es : List CString} {c : UInt8}

section Texts

theorem forall_mem_fit {p : UInt8 → Prop} {size : Nat} (h : ∀ c ∈ s, p c) : ∀ c ∈ fit size s, p c :=
  fun c hc => h c (List.mem_of_mem_take hc)

theorem formatUtcTime_plain {time : Int} :
    ∀ c ∈ formatUtcTime time, c ≠ 34 ∧ c ≠ 92 ∧ 32 ≤ c := by
  have hdash : ∀ c ∈ ofString "-", c ≠ 34 ∧ c ≠ 92 ∧ 32 ≤ c := by decide
  have htime : ∀ c ∈ ofString "T", c ≠ 34 ∧ c ≠ 92 ∧ 32 ≤ c := by decide
  have hcolon : ∀ c ∈ ofString ":", c ≠ 34 ∧ c ≠ 92 ∧ 32 ≤ c := by decide
  have hend : ∀ c ∈ ofString "Z", c ≠ 34 ∧ c ≠ 92 ∧ 32 ≤ c := by decide
  unfold formatUtcTime
  split
  case isTrue  => exact List.forall_mem_nil _
  case isFalse =>
    dsimp only
    split
    case isTrue  => exact List.forall_mem_nil _
    case isFalse =>
      refine forall_mem_fit ?_
      simp only [List.forall_mem_append]
      exact ⟨⟨⟨⟨⟨⟨⟨⟨⟨⟨⟨PendingJob.padLeft_plain, hdash⟩, PendingJob.padLeft_plain⟩, hdash⟩,
        PendingJob.padLeft_plain⟩, htime⟩, PendingJob.padLeft_plain⟩, hcolon⟩,
        PendingJob.padLeft_plain⟩, hcolon⟩, PendingJob.padLeft_plain⟩, hend⟩

end Texts

section Entry

-- The text of an entry behind the key of one of its members.
def member (key rest : CString) : CString :=
  34 :: (key ++ 34 :: 58 :: rest)

def textMember (key value rest : CString) : CString :=
  member key (34 :: (value ++ 34 :: rest))

variable {entry : PrintHistoryEntry}

theorem entryText_eq : entryText entry =
    123 :: textMember "name" (escapeString entry.name 256) (44 ::
      textMember "uuid" (escapeString entry.uuid 128) (44 ::
      textMember "source" (escapeString entry.source 128) (44 ::
      textMember "state" (escapeString entry.state 64) (44 ::
      member "time_total" (formatD entry.timeTotal ++ 44 ::
      member "time_elapsed" (formatD entry.timeElapsed ++ 44 ::
      member "progress" (formatF 1 entry.progress ++ 44 ::
      textMember "started_at" (formatUtcTime entry.startedAt) (44 ::
      textMember "finished_at" (formatUtcTime entry.finishedAt) [125])))))))) := by
  delta entryText
  simp only [textMember, member, List.append_assoc]
  rfl

variable {key value rest t : CString} {size : Nat}

theorem escapeString_cut (h : CutAtSpecial s size) :
    ∃ front c, (c = 34 ∨ c = 92) ∧ escapeString s size = escape front ++ [c] := by
  obtain ⟨front, c, back, rfl, hc, rfl⟩ := h
  exact ⟨front, c, hc, escapeLoop_cut hc⟩

theorem escapeString_whole (h : ¬CutAtSpecial s (size + 1)) :
    ∃ front, escapeString s (size + 1) = escape front := by
  have ⟨front, _, hf, _⟩ := @escapeLoop_whole s size fun front c back hs hc hl =>
    h ⟨front, c, back, hs, hc, by omega⟩
  exact ⟨front, hf⟩

-- What is written of an entry is an object exactly if this holds of it.
structure WellFormed (entry : PrintHistoryEntry) : Prop where
  name   : ¬CutAtSpecial entry.name 256
  uuid   : ¬CutAtSpecial entry.uuid 128
  source : ¬CutAtSpecial entry.source 128
  state  : ¬CutAtSpecial entry.state 64
  number : entry.progress ≠ .nan
  finite : ∀ negative, entry.progress ≠ .inf negative

theorem text_textMember (hk : Characters key key) (h : ¬CutAtSpecial s (size + 1))
    (ht : Text .members rest t) :
    Text .members (textMember key (escapeString s (size + 1)) (44 :: rest)) t := by
  have ⟨front, hf⟩ := escapeString_whole h
  exact .to_members (.string (hf ▸ characters_escape)) hk ht

theorem WellFormed.isObject (h : WellFormed entry) : IsObject (entryText entry) := by
  rw [entryText_eq]
  have time {time : Int} : Characters (formatUtcTime time) (formatUtcTime time) :=
    characters_of_plain formatUtcTime_plain
  have key {key : CString} (h : ∀ c ∈ key, c ≠ 34 ∧ c ≠ 92 ∧ 32 ≤ c) : Characters key key :=
    characters_of_plain h
  refine ⟨rfl, .object ?_ (skip_cons rfl)⟩
  refine text_textMember (key (by decide)) h.name ?_
  refine text_textMember (key (by decide)) h.uuid ?_
  refine text_textMember (key (by decide)) h.source ?_
  refine text_textMember (key (by decide)) h.state ?_
  refine .to_members (.number _ number_formatD) (key (by decide)) ?_
  refine .to_members (.number _ number_formatD) (key (by decide)) ?_
  refine .to_members (.number _ (number_formatF h.number h.finite)) (key (by decide)) ?_
  refine .to_members (.string time) (key (by decide)) ?_
  exact .single (.to_member (.string time) (key (by decide)))

-- A quote or a backslash that is cut off ends the string too early or too late.
theorem whole_of_text (hk : Characters key key) (hx : JsonText.isSpace c = false) (hc : c ≠ 44 ∧ c ≠ 125)
    (h : Text .members (textMember key (escapeString s size) (44 :: 34 :: c :: rest)) t)
    (ht : skip t = [125]) : ¬CutAtSpecial s size := by
  intro hcut
  have ⟨front, d, hd, he⟩ := escapeString_cut hcut
  have ⟨t₂, hv, hn⟩ := h.of_members hk
  rw [skip_cons rfl, he, List.append_assoc] at hv
  have next : ∃ x u, t₂ = x :: u ∧ JsonText.isSpace x = false ∧ x ≠ 44 ∧ x ≠ 125 := by
    rcases hd with rfl | rfl
    case inl => exact ⟨34, _, hv.of_string characters_escape, by decide, by decide, by decide⟩
    case inr =>
      have text : Characters (escape front ++ [92, 34, 44]) (visible front ++ [34, 44]) := by
        refine characters_escape.append (.escaped 34 34 (by decide) ?_)
        exact .plain 44 (by decide) (by decide) (by decide) .nil
      have hv : Text .value (34 :: (escape front ++ [92, 34, 44] ++ 34 :: c :: rest)) t₂ := by
        simpa using hv
      exact ⟨c, rest, hv.of_string text, hx, hc⟩
  obtain ⟨x, u, rfl, hs, h44, h125⟩ := next
  rcases hn with rfl | ⟨_, hn, _⟩
  case inl =>
    rw [skip_cons hs] at ht
    exact h125 (List.cons.inj ht).1
  case inr =>
    rw [skip_cons hs] at hn
    exact h44 (List.cons.inj hn).1

-- The text behind a member.
theorem rest_of_text (hk : Characters key key) (h : ¬CutAtSpecial s (size + 1))
    (hm : Text .members (textMember key (escapeString s (size + 1)) (44 :: rest)) t)
    (ht : skip t = [125]) : Text .members rest t := by
  have ⟨front, hf⟩ := escapeString_whole h
  have ⟨t₂, hv, hn⟩ := hm.of_members hk
  rw [skip_cons rfl, hf] at hv
  obtain rfl := hv.of_string characters_escape
  rcases hn with rfl | ⟨_, hn, hm⟩
  case inl => exact absurd (List.cons.inj ht).1 (by decide)
  case inr =>
    rw [skip_cons rfl] at hn
    rwa [(List.cons.inj hn).2]

theorem rest_of_number (hk : Characters key key) (hv : Number value)
    (hm : Text .members (member key (value ++ 44 :: rest)) t) (ht : skip t = [125]) :
    Text .members rest t := by
  have ⟨t₂, h, hn⟩ := hm.of_members hk
  have start : skip (value ++ 44 :: rest) = value ++ 44 :: rest := (Text.number _ hv).skip_eq
  rw [start] at h
  have ends : ∀ d ∈ (skip t₂).head?, isNumeric d = false := by
    rcases hn with rfl | ⟨_, hn, _⟩
    case inl => rw [ht]; rintro _ ⟨⟩; rfl
    case inr => rw [hn]; rintro _ ⟨⟩; rfl
  obtain rfl := h.of_number hv rfl ends
  rcases hn with rfl | ⟨_, hn, hm⟩
  case inl => exact absurd (List.cons.inj ht).1 (by decide)
  case inr =>
    rw [skip_cons rfl] at hn
    rwa [(List.cons.inj hn).2]

theorem finite_of_text (hk : Characters key key)
    (hm : Text .members (member key (formatF 1 entry.progress ++ 44 :: rest)) t) :
    entry.progress ≠ .nan ∧ ∀ negative, entry.progress ≠ .inf negative := by
  have ⟨_, h, _⟩ := hm.of_members hk
  refine ⟨fun hn => ?_, fun negative hi => ?_⟩
  case refine_1 =>
    rw [hn] at h
    exact not_text_nan h
  case refine_2 =>
    rw [hi] at h
    cases negative
    case false => exact not_text_inf h
    case true  => exact not_text_minus_inf h

theorem isObject_entryText : IsObject (entryText entry) ↔ WellFormed entry := by
  refine ⟨fun h => ?_, WellFormed.isObject⟩
  have key {key : CString} (h : ∀ c ∈ key, c ≠ 34 ∧ c ≠ 92 ∧ 32 ≤ c) : Characters key key :=
    characters_of_plain h
  rw [entryText_eq] at h
  rcases h.text.of_brace with h | ⟨t, h, ht⟩
  case inl => exact absurd (List.cons.inj h).1 (by decide)
  case inr =>
    have name := whole_of_text (key (by decide)) (by decide) (by decide) h ht
    have h := rest_of_text (key (by decide)) name h ht
    have uuid := whole_of_text (key (by decide)) (by decide) (by decide) h ht
    have h := rest_of_text (key (by decide)) uuid h ht
    have source := whole_of_text (key (by decide)) (by decide) (by decide) h ht
    have h := rest_of_text (key (by decide)) source h ht
    have state := whole_of_text (key (by decide)) (by decide) (by decide) h ht
    have h := rest_of_text (key (by decide)) state h ht
    have h := rest_of_number (key (by decide)) number_formatD h ht
    have h := rest_of_number (key (by decide)) number_formatD h ht
    have ⟨number, finite⟩ := finite_of_text (key (by decide)) h
    exact { name, uuid, source, state, number, finite }

end Entry

section Array

-- The bracket that closes the array is among the bytes that are read of the file, and there is no
-- white space in front of the array.
structure InReach (content : CString) : Prop where
  bracket : content.head? = some 91
  closed  : (strip content).length ≤ 65535

def singleArray (entry : CString) : CString :=
  91 :: 10 :: (entry ++ [10, 93, 10])

theorem solid_singleArray : solid (singleArray entry) = solid entry + 2 := by
  simp [singleArray, solid, JsonText.isSpace, List.countP_append]

theorem singleArray_iff (he : IsObject entry) :
    ObjectArray (es ++ [entry]) (singleArray entry) ↔ es = [] := by
  constructor
  case mp =>
    intro h
    rcases h.solid_eq with ⟨hn, _⟩ | ⟨_, hs⟩
    case inl => simp at hn
    case inr =>
      rw [solid_singleArray, weight_append] at hs
      have : weight [entry] = solid entry + 1 := by simp [weight]
      exact weight_eq_zero.mp (by omega)
  case mpr =>
    rintro rfl
    have skipped : skip (10 :: (entry ++ [10, 93, 10])) = entry ++ [10, 93, 10] := he.skip_append
    exact .objects (skip_cons rfl) (.single skipped he) rfl rfl

theorem InReach.of_blank {rest : CString} (hh : front.head? = some 91) (hl : front.length < 65535)
    (hb : Blank rest) : InReach (front ++ 93 :: rest) where
  bracket := by
    obtain ⟨front, rfl⟩ := List.head?_eq_some_iff.mp hh
    rfl
  closed := by
    rw [strip_append rfl hb, List.length_append]
    exact hl

-- What the search for the last bracket finds of an array whose closing bracket is in reach.
theorem InReach.strrchr {rest : CString} (h : InReach (front ++ 93 :: rest)) (hb : Blank rest) :
    ∃ back, CString.strrchr ((front ++ 93 :: rest).take 65535) 93 = some (front, back) := by
  have hl := h.closed
  rw [strip_append rfl hb, List.length_append, List.length_singleton] at hl
  obtain ⟨room, hr⟩ := Nat.exists_eq_add_of_le hl
  refine ⟨rest.take room, ?_⟩
  have whole : front ++ 93 :: rest = (front ++ [93]) ++ rest := by simp
  rw [whole, List.take_append, List.take_of_length_le (by simpa using hl), List.length_append,
    List.length_singleton, hr, Nat.add_sub_cancel_left, List.append_assoc]
  refine strrchr_append fun hm => ?_
  exact absurd (hb 93 (List.mem_of_mem_take hm)) (by decide)

theorem solid_trimEnd : solid (trimEnd front) = solid front := by
  cases front
  case nil         => rfl
  case cons c rest =>
    have : trimEnd (c :: rest) = [c] ++ strip rest := rfl
    rw [this, solid_append, solid_strip, ← solid_append]
    rfl

def extended (front entry : CString) : CString :=
  trimEnd front ++ 44 :: 10 :: (entry ++ [10, 93, 10])

-- What the edit does to the text of an array.
theorem appended_cases (h : ObjectArray es content) :
    ¬InReach content ∧ appended (content.take 65535) entry = singleArray entry ∨
    ∃ front back rest, strrchr (content.take 65535) 93 = some (front, back) ∧
      content = front ++ 93 :: rest ∧ front.head? = some 91 ∧ front.length < 65535 ∧
      appended (content.take 65535) entry = extended front entry := by
  have single : ofString "[\n" ++ entry ++ ofString "\n]\n" = singleArray entry := by
    simp only [List.append_assoc]
    rfl
  have head : (content.take 65535).head? = content.head? := by
    rw [List.head?_take, if_neg (by decide)]
  unfold appended
  dsimp only
  rw [single, head]
  split
  case isTrue hh => exact .inl ⟨fun hr => hh hr.bracket, rfl⟩
  case isFalse hh =>
    have hh := Decidable.not_not.mp hh
    split
    case h_1 hn =>
      refine .inl ⟨fun hr => ?_, rfl⟩
      rcases h.split hh with ⟨_, sp, tail, rfl, _, hb⟩ | ⟨body, sp, tail, rfl, _, hb, _⟩
      case inl =>
        have ⟨back, hs⟩ := @InReach.strrchr (91 :: sp) tail hr hb
        rw [List.cons_append, hn] at hs
        cases hs
      case inr =>
        have ⟨back, hs⟩ := @InReach.strrchr (91 :: (body ++ [125] ++ sp)) tail hr hb
        rw [List.cons_append, hn] at hs
        cases hs
    case h_2 front back hs =>
      have he := (strrchr_eq_some hs).left
      have hl := congrArg List.length he
      rw [List.length_take, List.length_append, List.length_cons] at hl
      have whole : content = front ++ 93 :: (back ++ content.drop 65535) := by
        conv_lhs => rw [← List.take_append_drop 65535 content, he]
        simp
      have start : front.head? = some 91 := by
        cases front
        case nil       => rw [whole] at hh; cases hh
        case cons c fs => rwa [whole] at hh
      refine .inr ⟨front, back, _, hs, whole, start, by omega, ?_⟩
      have nonempty : front.isEmpty = false := by
        cases front
        case nil  => cases start
        case cons => rfl
      rw [nonempty, if_neg Bool.false_ne_true, extended]
      simp only [List.append_assoc]
      rfl

-- The entry joins the elements if the array has elements and its end is in reach, and also if it has
-- none and the file is replaced.
theorem appended_iff (h : ObjectArray es content) (he : IsObject entry) :
    ObjectArray (es ++ [entry]) (appended (content.take 65535) entry) ↔ (es ≠ [] ↔ InReach content) := by
  rcases @appended_cases _ entry _ h with ⟨hr, ht⟩ | ⟨front, back, rest, hs, hc, hh, hl, ht⟩
  case inl =>
    rw [ht, singleArray_iff he]
    simp [hr]
  case inr =>
    rw [ht]
    have first : 1 ≤ solid front := by
      obtain ⟨fs, rfl⟩ := List.head?_eq_some_iff.mp hh
      rw [solid_cons rfl]
      exact Nat.succ_pos _
    have old : solid content = solid front + (solid rest + 1) := by
      rw [hc, solid_append, solid_cons rfl]
    have reach (hz : solid rest = 0) : InReach content :=
      hc ▸ .of_blank hh hl (solid_eq_zero.mp hz)
    constructor
    case mp =>
      intro h'
      have new : solid (extended front entry) = solid front + solid entry + 2 := by
        have punctuation : solid (44 :: 10 :: (entry ++ [10, 93, 10])) = solid entry + 2 := by
          simp [solid, JsonText.isSpace, List.countP_append]
        rw [extended, solid_append, solid_trimEnd, punctuation]
        omega
      have one : weight [entry] = solid entry + 1 := by simp [weight]
      rcases h'.solid_eq with ⟨hn, _⟩ | ⟨_, hs'⟩
      case inl => simp at hn
      case inr =>
        rw [new, weight_append, one] at hs'
        have ne : es ≠ [] := fun hn => by
          have := weight_eq_zero.mpr hn
          omega
        rcases h.solid_eq with ⟨hn, _⟩ | ⟨_, hw⟩
        case inl => exact absurd hn ne
        case inr => exact iff_of_true ne (reach (by omega))
    case mpr =>
      intro hi
      have ne : es ≠ [] := by
        rintro rfl
        rcases h.solid_eq with ⟨_, hw⟩ | ⟨hn, _⟩
        case inl => exact absurd rfl (hi.mpr (reach (by omega)))
        case inr => exact absurd rfl hn
      have hr := hi.mp ne
      rcases h.split hr.bracket with ⟨hn, _⟩ | ⟨body, sp, tail, he', hsp, hb, objects⟩
      case inl => exact absurd hn ne
      case inr =>
        have found := @InReach.strrchr (91 :: (body ++ [125] ++ sp)) tail (he' ▸ hr) hb
        rw [List.cons_append, ← he', hs] at found
        obtain ⟨_, found⟩ := found
        obtain rfl : front = _ := (Prod.mk.inj (Option.some.inj found)).1
        have trimmed : trimEnd (91 :: (body ++ [125] ++ sp)) = 91 :: (body ++ [125]) := by
          have : trimEnd (91 :: (body ++ [125] ++ sp)) = 91 :: strip (body ++ 125 :: sp) := by
            simp [trimEnd, strip]
            rfl
          rw [this, strip_append rfl hsp]
        have last : Objects [entry] (10 :: (entry ++ [10, 93, 10])) [10, 93, 10] :=
          .single he.skip_append he
        rw [extended, trimmed, List.cons_append]
        exact .objects (skip_cons rfl) ((objects _).append (skip_cons rfl) last) rfl rfl

end Array

section Files

theorem readText_eq {size : Nat} (h : 0 ∉ content) :
    JsonFile.readText content size = content.take (size - 1) := by
  refine List.takeWhile_eq_self_iff.mpr fun c hc => bne_iff_ne.mpr ?_
  rintro rfl
  exact h (List.mem_of_mem_take hc)

variable {path new : CString} {entry : PrintHistoryEntry} {results : AppendResults}

theorem appendEntry_eq_some {content : Option CString}
    (h : appendEntry path content entry results = some new) :
    new = appended (if results.read then (content.map (JsonFile.readText · 65536)).getD [] else [])
      (entryText entry) := by
  unfold appendEntry buildEntryJson at h
  dsimp only at h
  split at h
  case isTrue  => cases h
  case isFalse =>
    split at h
    case h_1 => cases h
    case h_2 json hj =>
      split at hj
      case isFalse => cases hj
      case isTrue =>
        rw [Option.some.inj hj]
        split at h
        case isTrue  => cases h
        case isFalse =>
          split at h <;> cases h
          rfl

theorem appended_read_iff {json : CString} {read : Bool} (h : ObjectArray es content)
    (he : IsObject json) :
    ObjectArray (es ++ [json])
        (appended (if read then JsonFile.readText content 65536 else []) json) ↔
      (es ≠ [] ↔ read ∧ InReach content) := by
  cases read
  case true =>
    rw [if_pos rfl, readText_eq h.no_zero, appended_iff h he]
    simp
  case false =>
    have replaced : appended [] json = singleArray json := by
      simp only [appended, List.append_assoc]
      rfl
    rw [if_neg Bool.false_ne_true, replaced, singleArray_iff he]
    simp

-- The entry of a finished print, and calls that succeed.
def cubeEntry : PrintHistoryEntry where
  name      := "cube.gcode"
  uuid      := "0b3c"
  source    := "Cura"
  state     := "completed"
  timeTotal := 120
  progress  := .ofNat 100

def succeeded : AppendResults where
  read    := true
  opened  := true
  closed  := true
  renamed := true

theorem cubeEntry_wellFormed : WellFormed cubeEntry where
  name   := by decide
  uuid   := by decide
  source := by decide
  state  := by decide
  number := by decide
  finite := fun negative => by cases negative <;> decide

end Files

end Deneb.PrintHistory
