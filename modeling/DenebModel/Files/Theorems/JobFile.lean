import DenebModel.Files.JobFile

namespace Deneb.JobFile

open CString

variable {s safe : CString} {name : Option CString} {outSize : Nat}

-- A path component that names a file of its directory.
structure Component (s : CString) : Prop where
  nonempty  : s ≠ []
  slash     : 47 ∉ s
  backslash : 92 ∉ s
  here      : s ≠ ofString "."
  parent    : s ≠ ofString ".."

theorem component_default : Component "upload.gcode" :=
  ⟨by decide, by decide, by decide, by decide, by decide⟩

-- What is behind the later one of two places is behind the other one, too.
theorem subset_of_length_le {front back front' back' : CString} (h : s = front ++ back)
    (h' : s = front' ++ back') (hl : back.length ≤ back'.length) : back ⊆ back' :=
  (List.suffix_of_suffix_length_le ⟨front, h.symm⟩ ⟨front', h'.symm⟩ hl).subset

theorem baseName_plain : 47 ∉ baseName s ∧ 92 ∉ baseName s := by
  unfold baseName
  split
  case h_1 front base front' base' hs hb =>
    obtain ⟨hs, hslash⟩ := strrchr_eq_some hs
    obtain ⟨hb, hback⟩ := strrchr_eq_some hb
    have hlen : front.length + 1 + base.length = front'.length + 1 + base'.length := by
      have := congrArg List.length (hs.symm.trans hb)
      simp only [List.length_append, List.length_cons] at this
      omega
    have hs : s = (front ++ [47]) ++ base := by simpa using hs
    have hb : s = (front' ++ [92]) ++ base' := by simpa using hb
    split
    case isTrue  => exact ⟨hslash, fun hm => hback (subset_of_length_le hs hb (by omega) hm)⟩
    case isFalse => exact ⟨fun hm => hslash (subset_of_length_le hb hs (by omega) hm), hback⟩
  case h_2 base hs hb =>
    obtain ⟨rfl, hslash⟩ := strrchr_eq_some hs
    exact ⟨hslash, fun hm => strrchr_eq_none hb (by simp [hm])⟩
  case h_3 base hs hb =>
    obtain ⟨rfl, hback⟩ := strrchr_eq_some hb
    exact ⟨fun hm => strrchr_eq_none hs (by simp [hm]), hback⟩
  case h_4 hs hb => exact ⟨strrchr_eq_none hs, strrchr_eq_none hb⟩

theorem component_sanitizeName (h : sanitizeName name outSize = some safe) : Component safe := by
  unfold sanitizeName at h
  rw [Option.ite_none_left_eq_some, Option.some_inj] at h
  obtain ⟨-, rfl⟩ := h
  split
  case isTrue => exact component_default
  case isFalse hs =>
    obtain ⟨hn, hh, hp⟩ : baseName (given name) ≠ [] ∧ _ ∧ _ := by simpa only [not_or] using hs
    exact ⟨hn, baseName_plain.left, baseName_plain.right, hh, hp⟩

theorem bmod_le {n : Nat} (h : 0 ≤ (n : Int).bmod (2 ^ 32)) : (n : Int).bmod (2 ^ 32) ≤ n := by
  rw [Int.bmod] at h ⊢
  split at h <;> omega

-- An upload is stored directly below the spool directory, or not at all.
theorem spoolPath_component :
    spoolPath name outSize = (false, []) ∨
      ∃ safe, Component safe ∧ spoolPath name outSize = (true, spoolDir ++ 47 :: safe) := by
  unfold spoolPath
  split
  case isTrue => exact .inl rfl
  case isFalse =>
    cases hs : sanitizeName name 128
    case none      => exact .inl rfl
    case some safe =>
      dsimp only
      split
      case isTrue    => exact .inl rfl
      case isFalse h =>
        have hl := Int.not_le.mp h
        have := bmod_le (by omega : 0 ≤ (outSize : Int).bmod (2 ^ 32))
        rw [fit_of_length_lt (by omega)]
        exact .inr ⟨safe, component_sanitizeName hs, rfl⟩

example : spoolPath (some "..\\../cube.gcode") 160 = (true, ofString "/home/3D/deneb-uploads/cube.gcode") := by
  decide

example : spoolPath (some "../..\\..") 160 = (true, ofString "/home/3D/deneb-uploads/upload.gcode") := by
  decide

end Deneb.JobFile
