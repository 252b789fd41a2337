import DenebModel.Primitives.ZipFormat
import DenebModel.Files.Ufp

namespace Deneb.Ufp

open CString Octets

section

variable {file : Bytes} {maxCandidates offset next n : Nat} {candidates found : List Candidate}

theorem toLong_of_lt (h : n < 2 ^ 31) : toLong n = n := by
  unfold toLong
  rw [Int.bmod_eq_of_le] <;> omega

theorem toLong_lt {i : Int} : toLong i < 2 ^ 31 :=
  Int.bmod_lt (by decide)

theorem readFileAt_eq (h : offset < 2 ^ 31) :
    readFileAt file offset n = if ((file.drop offset).take n).length = n then
      some ((file.drop offset).take n) else none := by
  have long : ¬toLong offset < 0 := by
    rw [toLong_of_lt h]
    omega
  exact if_neg long

theorem readFileAt_bound {read : Bytes} (ho : offset < 2 ^ 32) (h : readFileAt file offset n = some read) :
    offset < 2 ^ 31 ∧ read.length = n ∧ (0 < n → offset + n ≤ file.length) := by
  unfold readFileAt at h
  split at h
  case isTrue => cases h
  case isFalse hl =>
    have small : offset < 2 ^ 31 := by
      unfold toLong at hl
      rw [Int.bmod_def] at hl
      split at hl <;> omega
    dsimp only at h
    split at h <;> cases h
    case isTrue he =>
      refine ⟨small, he, fun hn => ?_⟩
      rw [List.length_take, List.length_drop] at he
      omega

-- A round that goes on has read a header, and goes to a later one.
theorem round_next (ho : offset < 2 ^ 32)
    (h : round file maxCandidates offset candidates = (found, some next)) :
    offset < next ∧ next < 2 ^ 32 ∧ offset + 46 ≤ file.length := by
  unfold round at h
  split at h
  case isTrue => cases h
  case isFalse =>
    split at h
    case h_1 => cases h
    case h_2 hdr hr =>
      obtain ⟨small, -, bound⟩ := readFileAt_bound ho hr
      split at h
      case isTrue => cases h
      case isFalse =>
        obtain ⟨-, hn⟩ := Prod.mk.inj h
        rw [Option.ite_none_left_eq_some, Option.some_inj] at hn
        obtain ⟨later, rfl⟩ := hn
        rw [toLong_of_lt small] at later ⊢
        generalize hi : toLong _ = i at later ⊢
        have limit : i < 2 ^ 31 := hi ▸ toLong_lt
        rw [Int.emod_eq_of_lt (by omega) (by omega)]
        exact ⟨by omega, by omega, bound (by decide)⟩

-- More than `n` rounds of the loop give `found`.
def Gives (file : Bytes) (maxCandidates offset n : Nat) (candidates found : List Candidate) : Prop :=
  ∀ rounds > n, listMembers file maxCandidates rounds offset candidates = some found

theorem gives_last (h : round file maxCandidates offset candidates = (found, none)) :
    Gives file maxCandidates offset n candidates found := by
  intro rounds hn
  cases rounds
  case zero => cases hn
  case succ => rw [listMembers, h]

theorem gives_next {result : List Candidate}
    (h : round file maxCandidates offset candidates = (found, some next))
    (hn : Gives file maxCandidates next n found result) :
    Gives file maxCandidates offset (n + 1) candidates result := by
  intro rounds hr
  cases rounds
  case zero        => cases hr
  case succ rounds =>
    rw [listMembers, h]
    exact hn rounds (Nat.lt_of_succ_lt_succ hr)

-- The offsets grow, and no header is read behind the end of the file.
theorem exists_gives (ho : offset < 2 ^ 32) (h : file.length ≤ offset + n) :
    ∃ found, Gives file maxCandidates offset n candidates found := by
  induction n generalizing offset candidates
  all_goals rcases hr : round file maxCandidates offset candidates with ⟨found, _ | next⟩
  case zero.none    => exact ⟨found, gives_last hr⟩
  case succ.none    => exact ⟨found, gives_last hr⟩
  case zero.some    =>
    have ⟨_, _, hl⟩ := round_next ho hr
    omega
  case succ.some ih =>
    have ⟨later, hn, _⟩ := round_next ho hr
    obtain ⟨result, hi⟩ := @ih next found hn (by omega)
    exact ⟨result, gives_next hr hi⟩

end

section

variable {name extension haystack needle : CString}

theorem hasExtension_iff :
    hasExtension name extension ↔ extension.map toLower <:+ name.map toLower := by
  rw [List.suffix_iff_eq_drop, List.length_map, List.length_map, ← List.map_drop, hasExtension,
    Bool.and_eq_true, decide_eq_true_eq, beq_iff_eq]
  constructor
  case mp  => exact fun h => h.2.symm
  case mpr =>
    intro h
    have := congrArg List.length h
    simp only [List.length_map, List.length_drop] at this
    exact ⟨by omega, h.symm⟩

theorem containsCi_iff : containsCi haystack needle ↔ needle.map toLower <:+: haystack.map toLower := by
  cases needle
  case nil => simp [containsCi]
  case cons d needle =>
    rw [containsCi, List.isEmpty_cons, Bool.false_or]
    induction haystack
    case nil => simp [containsLoop]
    case cons c haystack ih =>
      rw [containsLoop, Bool.or_eq_true, ih, startsWith, List.isPrefixOf_iff_prefix, List.map_cons (a := c),
        List.infix_cons_iff]

end

section

variable {e : Zip.Entry} {entries : List Zip.Entry} {file front rest s : Bytes} {name : CString}
variable {maxCandidates : Nat} {candidates : List Candidate}

-- The name of a picture ends in .png and contains "thumbnail", whatever the case of the letters.
def IsThumbnail (name : CString) : Prop :=
  ofString ".png" <:+ name.map toLower ∧ ofString "thumbnail" <:+: name.map toLower

instance {name : CString} : Decidable (IsThumbnail name) :=
  inferInstanceAs (Decidable (_ ∧ _))

def text (name : Bytes) : CString :=
  name.takeWhile (· ≠ 0)

-- The members that are listed.
structure Eligible (e : Zip.Entry) : Prop where
  method       : e.method.toNat = 0 ∨ e.method.toNat = 8
  compressed   : 0 < e.compressedSize.toNat
  uncompressed : 0 < e.uncompressedSize.toNat
  limit        : e.uncompressedSize.toNat ≤ 2 * 1024 * 1024
  name_lt      : e.name.length < 256
  thumbnail    : IsThumbnail (text e.name)

theorem eligible_iff : Eligible e ↔
    (e.method.toNat = 0 ∨ e.method.toNat = 8) ∧ 0 < e.compressedSize.toNat ∧
      0 < e.uncompressedSize.toNat ∧ e.uncompressedSize.toNat ≤ 2 * 1024 * 1024 ∧
      e.name.length < 256 ∧ IsThumbnail (text e.name) :=
  ⟨fun ⟨hm, hc, hu, hl, hn, ht⟩ => ⟨hm, hc, hu, hl, hn, ht⟩,
    fun ⟨hm, hc, hu, hl, hn, ht⟩ => ⟨hm, hc, hu, hl, hn, ht⟩⟩

instance : Decidable (Eligible e) :=
  decidable_of_iff _ eligible_iff.symm

def describe (e : Zip.Entry) : Candidate where
  name              := text e.name
  method            := e.method.toNat
  compressedSize    := e.compressedSize.toNat
  uncompressedSize  := e.uncompressedSize.toNat
  localHeaderOffset := e.localHeaderOffset.toNat

theorem readFileAt_append (hl : (front ++ (s ++ rest)).length < 2 ^ 31) :
    readFileAt (front ++ (s ++ rest)) front.length s.length = some s := by
  rw [List.length_append] at hl
  rw [readFileAt_eq (by omega), List.drop_left, List.take_left, if_pos rfl]

theorem header_field {i j k n : Nat} (h : e.fields[j]? = some (k, n)) (hn : n < 256 ^ k)
    (hi : width (e.fields.take j) = i) : readLe ((e.header.drop i).take k) = n := by
  have := readLe_leFields (s := []) h hn hi
  rwa [List.append_nil] at this

-- The fields that are read from the header of an entry.
theorem header_fields :
    readLe32 e.header = 0x02014b50 ∧ readLe16 (e.header.drop 10) = e.method.toNat ∧
      readLe32 (e.header.drop 20) = e.compressedSize.toNat ∧
      readLe32 (e.header.drop 24) = e.uncompressedSize.toNat ∧
      readLe16 (e.header.drop 28) = e.name.length ∧ readLe16 (e.header.drop 30) = e.extra.length ∧
      readLe16 (e.header.drop 32) = e.comment.length ∧
      readLe32 (e.header.drop 42) = e.localHeaderOffset.toNat := by
  refine ⟨header_field (i := 0) (j := 0) rfl (by decide) ?_,
    header_field (j := 4) rfl e.method.toNat_lt ?_,
    header_field (j := 8) rfl e.compressedSize.toNat_lt ?_,
    header_field (j := 9) rfl e.uncompressedSize.toNat_lt ?_,
    header_field (j := 10) rfl e.name_lt ?_,
    header_field (j := 11) rfl e.extra_lt ?_,
    header_field (j := 12) rfl e.comment_lt ?_,
    header_field (j := 16) rfl e.localHeaderOffset.toNat_lt ?_⟩ <;> simp [width, Zip.Entry.fields]

theorem isThumbnail_iff : hasExtension name ".png" ∧ containsCi name "thumbnail" ↔ IsThumbnail name := by
  rw [hasExtension_iff, containsCi_iff]
  rfl

theorem isThumbnail_ne_nil (h : IsThumbnail name) : name ≠ [] := by
  rintro rfl
  have := h.1.length_le
  exact absurd this (by decide)

theorem thumbnail_entry (hl : (front ++ (e.bytes ++ rest)).length < 2 ^ 31) :
    thumbnail (front ++ (e.bytes ++ rest)) front.length e.header =
      if Eligible e then some (describe e) else none := by
  obtain ⟨-, method, compressed, uncompressed, nameLen, -, -, offset⟩ := @header_fields e
  have split : front ++ (e.bytes ++ rest) =
      (front ++ e.header) ++ (e.name ++ (e.extra ++ e.comment ++ rest)) := by
    simp only [Zip.Entry.bytes, List.append_assoc]
  have behind : (front.length + 46) % 2 ^ 32 = (front ++ e.header).length := by
    rw [split] at hl
    simp only [List.length_append, Zip.length_header] at hl ⊢
    omega
  have read : readFileAt (front ++ (e.bytes ++ rest)) ((front.length + 46) % 2 ^ 32) e.name.length =
      some e.name := by
    rw [behind, split]
    exact readFileAt_append (split ▸ hl)
  simp only [thumbnail, method, compressed, uncompressed, nameLen, offset, read, Option.bind_some]
  by_cases h : Eligible e
  case pos =>
    have named : 0 < e.name.length := by
      refine List.length_pos_of_ne_nil fun he => isThumbnail_ne_nil h.thumbnail ?_
      rw [text, he]
      rfl
    obtain ⟨png, thumb⟩ := isThumbnail_iff.mpr h.thumbnail
    have fits : fit memberMax (text e.name) = text e.name :=
      fit_of_length_lt (Nat.lt_of_le_of_lt ((List.takeWhile_prefix _).length_le) h.name_lt)
    rw [if_pos ⟨named, h.name_lt⟩, if_pos ⟨h.method, h.compressed, h.uncompressed, h.limit, png, thumb⟩,
      if_pos h]
    exact congrArg some (congrArg (Candidate.mk · _ _ _ _) fits)
  case neg =>
    rw [if_neg h]
    split
    case isFalse => rfl
    case isTrue hn =>
      refine if_neg ?_
      rintro ⟨hm, hc, hu, hs, ht⟩
      exact h ⟨hm, hc, hu, hs, hn.2, isThumbnail_iff.mp ht⟩

theorem round_entry (hl : (front ++ (e.bytes ++ rest)).length < 2 ^ 31)
    (hc : candidates.length < maxCandidates) :
    round (front ++ (e.bytes ++ rest)) maxCandidates front.length candidates =
      (candidates ++ (if Eligible e then some (describe e) else none).toList,
        some (front ++ e.bytes).length) := by
  obtain ⟨signature, -, -, -, nameLen, extraLen, commentLen, -⟩ := @header_fields e
  have read : readFileAt (front ++ (e.bytes ++ rest)) front.length 46 = some e.header := by
    have split : e.bytes ++ rest = e.header ++ (e.name ++ e.extra ++ e.comment ++ rest) := by
      simp only [Zip.Entry.bytes, List.append_assoc]
    rw [split] at hl ⊢
    exact readFileAt_append hl
  have bound : front.length + (46 + e.name.length + e.extra.length + e.comment.length) < 2 ^ 31 := by
    simp only [List.length_append, Zip.length_bytes] at hl
    omega
  have next : toLong (toLong front.length + 46 + e.name.length + e.extra.length + e.comment.length) =
      (front ++ e.bytes).length := by
    rw [toLong_of_lt (by omega), List.length_append, Zip.length_bytes, ← toLong_of_lt bound]
    exact congrArg toLong (by omega)
  have later : ¬((front ++ e.bytes).length : Int) ≤ toLong front.length := by
    rw [toLong_of_lt (by omega), List.length_append, Zip.length_bytes]
    omega
  rw [round, if_neg (Nat.not_le.mpr hc), read]
  dsimp only
  rw [if_neg (not_not.mpr signature), nameLen, extraLen, commentLen, next, if_neg later, thumbnail_entry hl]
  rw [List.length_append, Zip.length_bytes, Int.emod_eq_of_lt (by omega) (by omega)]
  rfl

-- What does not begin as a header of an entry ends the loop.
theorem round_end {fields : List (Nat × Nat)} {n : Nat}
    (hl : (front ++ (leFields ((4, n) :: fields) ++ rest)).length < 2 ^ 31) (hn : n < 2 ^ 32)
    (hs : n ≠ 0x02014b50) :
    round (front ++ (leFields ((4, n) :: fields) ++ rest)) maxCandidates front.length candidates =
      (candidates, none) := by
  have first : readLe (((leFields ((4, n) :: fields) ++ rest).drop 0).take 4) = n :=
    readLe_leFields (j := 0) rfl hn rfl
  rw [List.length_append] at hl
  unfold round
  split
  case isTrue => rfl
  case isFalse =>
    rw [readFileAt_eq (by omega), List.drop_left]
    split
    case h_1 => rfl
    case h_2 hdr hr =>
      obtain ⟨-, hh⟩ := Option.ite_none_right_eq_some.mp hr
      refine if_pos ?_
      rw [← Option.some_inj.mp hh, readLe32, List.take_take]
      exact fun he => hs (first.symm.trans he)

theorem gives_entries (hc : candidates.length ≤ maxCandidates)
    (hl : (front ++ (entries.flatMap Zip.Entry.bytes ++ rest)).length < 2 ^ 31)
    (hr : ∀ found, round (front ++ (entries.flatMap Zip.Entry.bytes ++ rest)) maxCandidates
      (front ++ entries.flatMap Zip.Entry.bytes).length found = (found, none)) :
    Gives (front ++ (entries.flatMap Zip.Entry.bytes ++ rest)) maxCandidates front.length entries.length
      candidates ((candidates ++ (entries.filter (Eligible ·)).map describe).take maxCandidates) := by
  induction entries generalizing front candidates
  case nil =>
    rw [List.filter_nil, List.map_nil, List.append_nil, List.take_of_length_le hc]
    have last := hr candidates
    rw [List.flatMap_nil, List.append_nil] at last
    exact gives_last last
  case cons e entries ih =>
    by_cases full : candidates.length = maxCandidates
    case pos =>
      rw [← full, List.take_left]
      exact gives_last (if_pos (Nat.le_refl _))
    case neg =>
      have split : front ++ ((e :: entries).flatMap Zip.Entry.bytes ++ rest) =
          front ++ (e.bytes ++ (entries.flatMap Zip.Entry.bytes ++ rest)) := by
        rw [List.flatMap_cons, List.append_assoc]
      have shift : front ++ (e.bytes ++ (entries.flatMap Zip.Entry.bytes ++ rest)) =
          (front ++ e.bytes) ++ (entries.flatMap Zip.Entry.bytes ++ rest) := by
        rw [List.append_assoc]
      rw [split] at hl ⊢
      refine gives_next (round_entry hl (Nat.lt_of_le_of_ne hc full)) ?_
      rw [shift] at hl ⊢
      have found : candidates ++ ((e :: entries).filter (Eligible ·)).map describe =
          (candidates ++ (if Eligible e then some (describe e) else none).toList) ++
            (entries.filter (Eligible ·)).map describe := by
        by_cases h : Eligible e <;> simp [h]
      rw [found]
      refine ih ?_ hl fun found => ?_
      · rw [List.length_append]
        split <;> simp <;> omega
      · simpa only [List.flatMap_cons, List.append_assoc] using hr found

end

section

variable {tail : Bytes} {i j : Nat}

def signature : Bytes :=
  [80, 75, 5, 6]

-- The scan stops at the last place of the signature.
theorem scanTail_eq (hj : signature <+: tail.drop j) (hi : j ≤ i)
    (last : ∀ k, j < k → k ≤ i → ¬signature <+: tail.drop k) : scanTail tail i = some j := by
  induction i
  case zero =>
    obtain rfl := Nat.le_zero.mp hi
    exact if_pos hj
  case succ i ih =>
    by_cases he : j = i + 1
    case pos =>
      subst he
      exact if_pos hj
    case neg =>
      refine (if_neg (last (i + 1) (by omega) (Nat.le_refl _))).trans (ih (by omega) ?_)
      exact fun k hk hl => last k hk (Nat.le_succ_of_le hl)

end

section

variable {a : Zip.Archive} {file : Bytes} {offset maxCandidates : Nat}

-- Enough rounds of the loop give the members.
def Returns (file : Option Bytes) (maxCandidates : Nat) (found : List Candidate) : Prop :=
  ∃ n, ∀ rounds > n, listUfpThumbnailMembers rounds file maxCandidates = some found

-- In no place behind its beginning does the record of the directory look like another one.
def SingleEnding (a : Zip.Archive) : Prop :=
  ∀ k, 0 < k → k ≤ a.comment.length → ¬signature <+: (a.ending ++ a.comment).drop k

theorem find_lt (h : findZipCentralDirectory file = some offset) : offset < 2 ^ 32 := by
  unfold findZipCentralDirectory at h
  dsimp only at h
  obtain ⟨-, h⟩ := Option.ite_none_left_eq_some.mp h
  obtain ⟨i, -, rfl⟩ := Option.map_eq_some_iff.mp h
  exact Nat.lt_of_lt_of_le readLe_lt (Nat.pow_le_pow_right (Nat.zero_lt_succ _) (List.length_take_le _ _))

theorem find_archive (hl : a.file.length < 2 ^ 31) (hs : SingleEnding a) :
    findZipCentralDirectory a.file = some a.front.length := by
  have parts : a.file = (a.front ++ Zip.directory a.entries a.signature) ++ (a.ending ++ a.comment) :=
    (List.append_assoc _ _ _).symm
  have length : a.file.length =
      (a.front ++ Zip.directory a.entries a.signature).length + (22 + a.comment.length) := by
    rw [parts, List.length_append, @List.length_append _ a.ending, Zip.length_ending]
  have limit := a.comment_lt
  unfold findZipCentralDirectory
  dsimp only
  rw [if_pos hl, if_neg (by omega)]
  generalize ht : (if (a.file.length : Int) < 66000 then a.file.length else 66000) = tailSize
  have size : 22 + a.comment.length ≤ tailSize ∧ tailSize ≤ a.file.length := by
    rw [← ht]
    split <;> omega
  -- The record is as far from the end of the tail as from the end of the file.
  have behind : ∀ k, (a.file.drop (a.file.length - tailSize)).drop (tailSize - (22 + a.comment.length) + k) =
      (a.ending ++ a.comment).drop k := by
    intro k
    rw [List.drop_drop, show a.file.length - tailSize + (tailSize - (22 + a.comment.length) + k) =
      (a.front ++ Zip.directory a.entries a.signature).length + k by omega, parts,
      List.drop_length_add_append]
  have scan : scanTail (a.file.drop (a.file.length - tailSize)) (tailSize - 22) =
      some (tailSize - (22 + a.comment.length)) := by
    refine scanTail_eq ?_ (by omega) fun k hk hi hp => ?_
    · have first := behind 0
      rw [Nat.add_zero] at first
      rw [first]
      exact ⟨leFields (a.fields.drop 1) ++ a.comment, rfl⟩
    · have later := behind (k - (tailSize - (22 + a.comment.length)))
      rw [Nat.add_sub_cancel' (Nat.le_of_lt hk)] at later
      rw [later] at hp
      exact hs _ (by omega) (by omega) hp
  rw [scan, Option.map_some, behind 16]
  refine congrArg some (readLe_leFields (j := 6) rfl a.front_lt ?_)
  simp [width, Zip.Archive.fields]

theorem returns_of_find {n : Nat} {found : List Candidate} (hm : 0 < maxCandidates)
    (hf : findZipCentralDirectory file = some offset) (h : Gives file maxCandidates offset n [] found) :
    Returns (some file) maxCandidates found := by
  refine ⟨n, fun rounds hr => ?_⟩
  rw [listUfpThumbnailMembers, if_neg (Nat.ne_of_gt hm), Option.bind_some, hf]
  exact h rounds hr

theorem returns_nil {file : Option Bytes} (h : maxCandidates = 0 ∨ file.bind findZipCentralDirectory = none) :
    Returns file maxCandidates [] := by
  refine ⟨0, fun rounds _ => ?_⟩
  unfold listUfpThumbnailMembers
  split
  case isTrue => rfl
  case isFalse hm =>
    cases file
    case none => rfl
    case some file =>
      have hf : findZipCentralDirectory file = none := h.resolve_left hm
      rw [Option.bind_some, hf]
      rfl

theorem exists_returns (file : Option Bytes) (maxCandidates : Nat) :
    ∃ found, Returns file maxCandidates found := by
  by_cases hm : maxCandidates = 0
  case pos => exact ⟨[], returns_nil (.inl hm)⟩
  case neg =>
    cases hf : file.bind findZipCentralDirectory
    case none => exact ⟨[], returns_nil (.inr hf)⟩
    case some offset =>
      obtain ⟨file, rfl, hf⟩ := Option.bind_eq_some_iff.mp hf
      obtain ⟨found, h⟩ := exists_gives (n := file.length) (find_lt hf) (Nat.le_add_left _ _)
      exact ⟨found, returns_of_find (Nat.pos_of_ne_zero hm) hf h⟩

theorem returns_unique {file : Option Bytes} {found result : List Candidate}
    (hf : Returns file maxCandidates found) (hr : Returns file maxCandidates result) : found = result := by
  obtain ⟨n, hf⟩ := hf
  obtain ⟨m, hr⟩ := hr
  have more := hf (n + m + 1) (by omega)
  rw [hr (n + m + 1) (by omega)] at more
  exact (Option.some_inj.mp more).symm

-- Behind the entries there is a record of another kind.
theorem file_parts (a : Zip.Archive) : ∃ fields rest n,
    a.file = a.front ++ (a.entries.flatMap Zip.Entry.bytes ++ (leFields ((4, n) :: fields) ++ rest)) ∧
      n < 2 ^ 32 ∧ n ≠ 0x02014b50 := by
  cases hs : a.signature
  case none =>
    refine ⟨a.fields.drop 1, a.comment, 0x06054b50, ?_, by decide, by decide⟩
    rw [Zip.Archive.file, Zip.directory, hs]
    simp only [Option.map_none, Option.getD_none, List.append_nil]
    rfl
  case some s =>
    refine ⟨[(2, s.length)], s ++ (a.ending ++ a.comment), 0x05054b50, ?_, by decide, by decide⟩
    rw [Zip.Archive.file, Zip.directory, hs]
    simp only [Option.map_some, Option.getD_some, List.append_assoc]

theorem returns_archive (hl : a.file.length < 2 ^ 31) (hs : SingleEnding a) :
    Returns (some a.file) maxCandidates
      (((a.entries.filter (Eligible ·)).map describe).take maxCandidates) := by
  by_cases hm : maxCandidates = 0
  case pos =>
    rw [hm, List.take_zero]
    exact returns_nil (.inl rfl)
  case neg =>
    refine returns_of_find (Nat.pos_of_ne_zero hm) (find_archive hl hs) (n := a.entries.length) ?_
    obtain ⟨fields, rest, n, hf, hn, he⟩ := file_parts a
    rw [hf] at hl ⊢
    refine gives_entries (Nat.zero_le _) hl fun found => ?_
    rw [← List.append_assoc] at hl ⊢
    exact round_end hl hn he

-- The members of a file are listed in every case, and those of an archive are its pictures.
theorem members_listed :
    (∀ file maxCandidates, ∃ found, Returns file maxCandidates found) ∧
      ∀ (a : Zip.Archive) (maxCandidates : Nat), a.file.length < 2 ^ 31 → SingleEnding a →
        Returns (some a.file) maxCandidates
          (((a.entries.filter (Eligible ·)).map describe).take maxCandidates) :=
  ⟨exists_returns, fun _ _ => returns_archive⟩

end

section

-- A stored member with the text "x", at the beginning of the file.
def picture (name : Bytes) (h : name.length < 2 ^ 16) : Zip.Entry where
  madeBy            := 20
  version           := 20
  flags             := 0
  method            := 0
  time              := 0
  date              := 0
  crc               := 0x8cdc1683
  compressedSize    := 1
  uncompressedSize  := 1
  internal          := 0
  external          := 0
  localHeaderOffset := 0
  name              := name
  extra             := []
  comment           := []
  name_lt           := h
  extra_lt          := by decide
  comment_lt        := by decide

theorem front_picture_lt {name behind : Bytes} (h : name.length < 2 ^ 16) (hn : name.length < 100)
    (hb : behind.length < 2 ^ 31 + 1) :
    ((picture name h).localHeader [(4, 0x8cdc1683), (4, 1), (4, 1)] [] ++ [120] ++ behind).length < 2 ^ 32 := by
  simp [Zip.Entry.localHeader, length_leFields, width, picture]
  omega

theorem directory_picture_lt {name : Bytes} (h : name.length < 2 ^ 16) :
    (Zip.directory [picture name h] none).length < 2 ^ 32 := by
  simp [Zip.directory, Zip.length_bytes, picture]
  omega

-- The archive with this member, and with further bytes in front of its directory.
def single (name behind : Bytes) (h : name.length < 100) (hb : behind.length < 2 ^ 31 + 1) : Zip.Archive where
  front        := (picture name (by omega)).localHeader [(4, 0x8cdc1683), (4, 1), (4, 1)] [] ++ [120] ++ behind
  entries      := [picture name (by omega)]
  signature    := none
  comment      := []
  front_lt     := front_picture_lt _ h hb
  stored       := by
    intro e he
    rw [List.mem_singleton.mp he]
    exact ⟨[], [], [120], behind, 0x8cdc1683, 1, 1, rfl, rfl, rfl, by decide, fun _ => ⟨rfl, rfl, rfl⟩⟩
  entries_lt   := show 1 < 2 ^ 16 by decide
  signature_lt := nofun
  directory_lt := directory_picture_lt _
  comment_lt   := by decide

theorem singleEnding_of_nil {a : Zip.Archive} (h : a.comment = []) : SingleEnding a := by
  intro k hk hc
  rw [h, List.length_nil] at hc
  omega

theorem returns_large {file : Bytes} {maxCandidates : Nat} (h : 2 ^ 31 ≤ file.length) :
    Returns (some file) maxCandidates [] := by
  refine returns_nil (.inr ?_)
  rw [Option.bind_some, findZipCentralDirectory, if_neg (Nat.not_lt.mpr h)]
  rfl

theorem length_single {name behind : Bytes} {h : name.length < 100} {hb : behind.length < 2 ^ 31 + 1} :
    (single name behind h hb).file.length = 99 + 2 * name.length + behind.length := by
  simp only [single, Zip.Archive.file, Zip.directory, Zip.Entry.localHeader, List.length_append,
    length_leFields, Zip.length_ending]
  simp [Zip.length_bytes, picture, width]
  omega

theorem eligible_png : Eligible (picture (ofString "thumbnail.png") (by decide)) := by
  decide

theorem member_listed :
    Returns (some (single (ofString "thumbnail.png") [] (by decide) (by decide)).file) 16
      [describe (picture (ofString "thumbnail.png") (by decide))] := by
  have listed := members_listed.2 (single (ofString "thumbnail.png") [] (by decide) (by decide)) 16
    (by rw [length_single]; decide) (singleEnding_of_nil rfl)
  have all : (single (ofString "thumbnail.png") [] (by decide) (by decide)).entries.filter (Eligible ·) =
      [picture (ofString "thumbnail.png") (by decide)] := List.filter_cons_of_pos (decide_eq_true eligible_png)
  rwa [all] at listed

-- What is listed if only names without a NUL count.
def strictly (a : Zip.Archive) (maxCandidates : Nat) : List Candidate :=
  ((a.entries.filter fun e => Eligible e ∧ 0 ∉ e.name).map describe).take maxCandidates

theorem name_listed : ∃ a : Zip.Archive, a.file.length < 2 ^ 31 ∧ a.comment = [] ∧
    ¬Returns (some a.file) 16 (strictly a 16) := by
  have eligible : Eligible (picture (ofString "thumbnail.png" ++ [0]) (by decide)) := by decide
  refine ⟨single (ofString "thumbnail.png" ++ [0]) [] (by decide) (by decide), ?_, rfl, fun returns => ?_⟩
  · rw [length_single]
    decide
  · have listed := @returns_archive (single (ofString "thumbnail.png" ++ [0]) [] (by decide) (by decide)) 16
      (by rw [length_single]; decide) (singleEnding_of_nil rfl)
    have same := returns_unique returns listed
    have all :
        (single (ofString "thumbnail.png" ++ [0]) [] (by decide) (by decide)).entries.filter (Eligible ·) =
          [picture (ofString "thumbnail.png" ++ [0]) (by decide)] :=
      List.filter_cons_of_pos (decide_eq_true eligible)
    have none : strictly (single (ofString "thumbnail.png" ++ [0]) [] (by decide) (by decide)) 16 = [] := by
      decide
    rw [all, none] at same
    cases same

theorem large_unlisted : ∃ a : Zip.Archive, a.comment = [] ∧ (∀ e ∈ a.entries, 0 ∉ e.name) ∧
    ¬Returns (some a.file) 16 (strictly a 16) := by
  have length : (List.replicate (2 ^ 31) (0 : UInt8)).length < 2 ^ 31 + 1 := by
    rw [List.length_replicate]
    decide
  refine ⟨single (ofString "thumbnail.png") (List.replicate (2 ^ 31) 0) (by decide) length, rfl, ?_,
    fun returns => ?_⟩
  · intro e he
    rw [List.mem_singleton.mp he]
    decide
  · have large := @returns_large
      (single (ofString "thumbnail.png") (List.replicate (2 ^ 31) 0) (by decide) length).file 16
      (by rw [length_single, List.length_replicate]; omega)
    have same := returns_unique returns large
    have counts : Eligible (picture (ofString "thumbnail.png") (by decide)) ∧
        0 ∉ (picture (ofString "thumbnail.png") (by decide)).name := ⟨eligible_png, by decide⟩
    have all : strictly (single (ofString "thumbnail.png") (List.replicate (2 ^ 31) 0) (by decide) length) 16 =
        [describe (picture (ofString "thumbnail.png") (by decide))] :=
      congrArg (fun l : List Zip.Entry => (l.map describe).take 16)
        (List.filter_cons_of_pos (decide_eq_true counts))
    rw [all] at same
    cases same

-- An empty archive in whose comment there is a directory.
def nestedComment : Bytes :=
  [5, 6] ++ (List.replicate 12 0 ++ (le 4 40 ++
    ((picture "thumbnail.png" (by decide)).bytes ++ List.replicate 19203 0)))

theorem length_nestedComment : nestedComment.length = 19280 := by
  simp only [nestedComment, List.length_append, List.length_replicate, Zip.length_bytes, length_le]
  decide

def nested : Zip.Archive where
  front        := []
  entries      := []
  signature    := none
  comment      := nestedComment
  front_lt     := by decide
  stored       := nofun
  entries_lt   := by decide
  signature_lt := nofun
  directory_lt := by decide
  comment_lt   := by
    rw [length_nestedComment]
    decide

-- The last field of the ending and the comment together begin with the signature.
theorem nested_file : nested.file =
    ([80, 75, 5, 6] ++ List.replicate 16 0) ++ ([80, 75] ++ nestedComment) := by
  have ending : nested.ending = ([80, 75, 5, 6] ++ List.replicate 16 0) ++ [80, 75] := by
    rw [Zip.Archive.ending, Zip.Archive.fields, show nested.comment.length = 19280 from length_nestedComment]
    decide
  have file : nested.file = nested.ending ++ nestedComment := rfl
  rw [file, ending, List.append_assoc]

theorem five_notMem : 5 ∉ nestedComment.drop 1 := by
  have tail : nestedComment.drop 1 = ([6] ++ (List.replicate 12 0 ++ (le 4 40 ++
      (picture "thumbnail.png" (by decide)).bytes))) ++ List.replicate 19203 0 := by
    simp only [nestedComment, List.append_assoc, List.cons_append, List.drop_succ_cons, List.drop_zero,
      List.nil_append]
  rw [tail, List.mem_append]
  rintro (h | h)
  · exact absurd h (by decide)
  · exact absurd (List.eq_of_mem_replicate h) (by decide)

theorem five_mem {s : Bytes} {k : Nat} (h : signature <+: s.drop k) : 5 ∈ s.drop (k + 2) := by
  obtain ⟨rest, hr⟩ := h
  rw [← List.drop_drop, ← hr]
  exact .head _

theorem nested_listed : Returns (some nested.file) 16 [describe (picture "thumbnail.png" (by decide))] := by
  have length : nested.file.length = 19302 := by
    rw [nested_file]
    simp [length_nestedComment]
  have scan : scanTail nested.file 19280 = some 20 := by
    refine scanTail_eq ?_ (by decide) fun k hk _ hp => five_notMem ?_
    · rw [nested_file]
      exact ⟨nestedComment.drop 2, rfl⟩
    · have five := five_mem hp
      rw [show k + 2 = 23 + (k - 21) by omega, ← List.drop_drop, nested_file] at five
      exact List.mem_of_mem_drop five
  have find : findZipCentralDirectory nested.file = some 40 := by
    unfold findZipCentralDirectory
    rw [length]
    dsimp only
    rw [if_pos (show 19302 < 2 ^ 31 by decide), if_neg (show ¬((19302 : Nat) : Int) < 22 by decide),
      if_pos (show ((19302 : Nat) : Int) < 66000 by decide), Nat.sub_self, List.drop_zero,
      show 19302 - 22 = 19280 by decide, scan, Option.map_some]
    have offset : (nested.file.drop 36).take 4 = le 4 40 := by
      rw [nested_file]
      rfl
    rw [readLe32, offset, readLe_le (by decide)]
  have parts : nested.file =
      (([80, 75, 5, 6] ++ List.replicate 16 0) ++ ([80, 75, 5, 6] ++ List.replicate 12 0 ++ le 4 40)) ++
        ([picture "thumbnail.png" (by decide)].flatMap Zip.Entry.bytes ++
          (leFields [(4, 0)] ++ List.replicate 19199 0)) := by
    have zeros : List.replicate 19203 (0 : UInt8) = leFields [(4, 0)] ++ List.replicate 19199 0 := by
      rw [show 19203 = 4 + 19199 by decide, List.replicate_add]
      rfl
    have body : nestedComment = [5, 6] ++ (List.replicate 12 0 ++ (le 4 40 ++
      ((picture "thumbnail.png" (by decide)).bytes ++ List.replicate 19203 0))) := rfl
    rw [nested_file, body, zeros]
    simp only [List.flatMap_cons, List.flatMap_nil, List.append_nil, List.append_assoc, List.cons_append,
      List.nil_append]
  have bound : nested.file.length < 2 ^ 31 := by
    rw [length]
    decide
  have front : (([80, 75, 5, 6] ++ List.replicate 16 0) ++
      ([80, 75, 5, 6] ++ List.replicate 12 0 ++ le 4 40) : Bytes).length = 40 := by decide
  have gives := @gives_entries [picture "thumbnail.png" (by decide)]
    (([80, 75, 5, 6] ++ List.replicate 16 0) ++ ([80, 75, 5, 6] ++ List.replicate 12 0 ++ le 4 40))
    (leFields [(4, 0)] ++ List.replicate 19199 0) 16 [] (by decide)
  rw [← parts, front] at gives
  have eligible : Eligible (picture "thumbnail.png" (by decide)) := by decide
  have all : [picture "thumbnail.png" (by decide)].filter (Eligible ·) =
      [picture "thumbnail.png" (by decide)] :=
    List.filter_cons_of_pos (decide_eq_true eligible)
  rw [all] at gives
  refine returns_of_find (by decide) find (gives bound fun found => ?_)
  rw [parts, ← List.append_assoc] at bound ⊢
  exact round_end bound (by decide) (by decide)

theorem comment_listed : ∃ a : Zip.Archive, a.file.length < 2 ^ 31 ∧ ¬signature <:+: a.comment ∧
    (∀ e ∈ a.entries, 0 ∉ e.name) ∧ ¬Returns (some a.file) 16 (strictly a 16) := by
  refine ⟨nested, ?_, ?_, nofun, fun returns => ?_⟩
  · rw [nested_file]
    simp [length_nestedComment]
  · intro h
    obtain ⟨rest, hp, hs⟩ := List.infix_iff_prefix_suffix.mp h
    rw [List.suffix_iff_eq_drop.mp hs] at hp
    have five := five_mem hp
    rw [show ∀ k, k + 2 = 1 + (k + 1) by omega, ← List.drop_drop] at five
    exact five_notMem (List.mem_of_mem_drop five)
  · have same := returns_unique returns nested_listed
    cases same

-- Names that go on behind a NUL are listed, a second signature is taken for the ending, and a large
-- file is not listed.
theorem listing_differs :
    (∃ a : Zip.Archive, a.file.length < 2 ^ 31 ∧ a.comment = [] ∧
      ¬Returns (some a.file) 16 (strictly a 16)) ∧
    (∃ a : Zip.Archive, a.file.length < 2 ^ 31 ∧ ¬signature <:+: a.comment ∧
      (∀ e ∈ a.entries, 0 ∉ e.name) ∧ ¬Returns (some a.file) 16 (strictly a 16)) ∧
    ∃ a : Zip.Archive, a.comment = [] ∧ (∀ e ∈ a.entries, 0 ∉ e.name) ∧
      ¬Returns (some a.file) 16 (strictly a 16) :=
  ⟨name_listed, comment_listed, large_unlisted⟩

end
end Deneb.Ufp
