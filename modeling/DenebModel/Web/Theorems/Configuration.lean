import DenebModel.Objects.Theorems.PrimeScan
import DenebModel.Web.Theorems.Request
import DenebModel.Web.Theorems.Sessions

-- The file with the configuration of the web interface.
namespace Deneb.Access

open CString Http GcodeStream

variable {W : Type} {sys : System W} {env : Env} {req : Request} {resp : Response}
variable {s : State W} {config : Option (List UInt8)} {world : W} {events : List Event}

-- A text that stays on its line.
def IsLine (text : CString) : Prop :=
  0 ∉ text ∧ 10 ∉ text

instance : DecidablePred IsLine := fun text =>
  inferInstanceAs (Decidable (0 ∉ text ∧ 10 ∉ text))

-- The settings fit the file.
structure State.Proper (s : State W) : Prop where
  hash     : s.passwordHash.length < 128 ∧ IsLine s.passwordHash
  ha1      : ∃ text, text.length ≤ 32 ∧ IsLine text ∧
    s.auth.digestHa1 = text ++ .replicate (32 - text.length) 0
  username : 10 ∉ s.auth.digestUsername

-- The lines of the file.
def State.entries (s : State W) : List CString := [
  ofString "setup_complete=" ++ flag s.auth.setupComplete,
  ofString "auth_disabled=" ++ flag s.auth.authDisabled,
  ofString "password=" ++ s.passwordHash,
  ofString "digest_ha1=" ++ cString s.auth.digestHa1,
  ofString "digest_user=" ++ s.auth.digestUsername]

theorem configText_eq : s.configText = bytesOf s.entries [] := by
  simp [State.configText, State.entries, bytesOf]

theorem isLine_append {front back : CString} (hf : IsLine front) (hb : IsLine back) : IsLine (front ++ back) := by
  simp only [IsLine, List.mem_append, not_or]
  exact ⟨⟨hf.left, hb.left⟩, hf.right, hb.right⟩

theorem isLine_flag {b : Bool} : IsLine (flag b) := by
  cases b <;> exact ⟨by decide, by decide⟩

theorem length_flag {b : Bool} : (flag b).length = 1 := by
  cases b <;> decide

theorem cString_ha1 {text : CString} {n : Nat} (h : 0 ∉ text) : cString (text ++ .replicate n 0) = text := by
  cases n
  case zero => rw [List.replicate_zero, List.append_nil, cString_of_no_nul h]
  case succ => rw [List.replicate_succ, cString, takeWhile_mark h]

theorem State.Proper.entries (proper : s.Proper) : ∀ line ∈ s.entries, line.length < 255 ∧ IsLine line := by
  obtain ⟨text, length, line, ha1⟩ := proper.ha1
  have user : IsLine s.auth.digestUsername := ⟨s.auth.username_text, proper.username⟩
  have fits := s.auth.username_fits
  have hash := proper.hash
  have digits : cString s.auth.digestHa1 = text := by rw [ha1, cString_ha1 line.left]
  simp only [State.entries, List.forall_mem_cons, List.length_append, length_flag, digits]
  refine ⟨⟨by decide, isLine_append (by decide) isLine_flag⟩, ⟨by decide, isLine_append (by decide) isLine_flag⟩,
    ⟨?_, isLine_append (by decide) hash.right⟩, ⟨?_, isLine_append (by decide) line⟩,
    ⟨?_, isLine_append (by decide) user⟩, by simp⟩
  all_goals simp [ofString]; omega

theorem configLines_configText (proper : s.Proper) : configLines s.configText = s.entries := by
  have lines := proper.entries
  have short : ∀ line ∈ s.entries, 10 ∉ line ∧ line.length + 1 < maxGcodeLine := fun line hl =>
    ⟨(lines line hl).right.right, Nat.add_lt_add_right (lines line hl).left 1⟩
  have read := @fgetsLines_bytesOf s.entries [] short (by simp) (by decide)
  rw [configLines, configText_eq, read, List.isEmpty_nil, if_pos rfl, List.append_nil, List.map_map]
  refine List.map_congr_left (fun line hl => ?_) |>.trans (List.map_id _)
  obtain ⟨-, zero, newline⟩ := lines line hl
  have front : ∀ c ∈ line ++ [10], c ≠ 0 := by
    simp only [List.forall_mem_append, List.forall_mem_singleton]
    exact ⟨fun c hc h => zero (h ▸ hc), by decide⟩
  have whole : (line ++ [10]).takeWhile (fun c => decide (c ≠ 0)) = line ++ [10] :=
    List.takeWhile_eq_self_iff.mpr fun c hc => decide_eq_true (front c hc)
  rw [Function.comp_apply, whole, takeWhile_mark newline, id]

theorem parseInt_flag {b : Bool} : parseInt (flag b) = some (if b then 1 else 0) := by
  cases b <;> decide

theorem drop_name {name text : CString} {n : Nat} (h : name.length = n := by rfl) : (name ++ text).drop n = text := by
  rw [← h, List.drop_left]

theorem loadLine_setup {b : Bool} :
    s.loadLine (ofString "setup_complete=" ++ flag b) = { s with auth.setupComplete := b } := by
  rw [State.loadLine, if_pos (by cases b <;> rfl), drop_name, parseInt_flag]
  cases b <;> rfl

theorem loadLine_disabled {b : Bool} :
    s.loadLine (ofString "auth_disabled=" ++ flag b) = { s with auth.authDisabled := b } := by
  rw [State.loadLine, if_neg (by cases b <;> decide), if_pos (by cases b <;> rfl), drop_name, parseInt_flag]
  cases b <;> rfl

theorem loadLine_password {text : CString} (h : text.length < 128) :
    s.loadLine (ofString "password=" ++ text) = { s with passwordHash := text } := by
  rw [State.loadLine, if_neg (by simp [startsWith, ofString]), if_neg (by simp [startsWith, ofString]),
    if_pos (by simp [startsWith, ofString]), drop_name, fit_of_length_lt h]

theorem setUsername_eq {auth : Auth.State} {text : CString} (h : text.length < 64) (hz : 0 ∉ text) :
    auth.setUsername text = { auth with digestUsername := text, username_fits := h, username_text := hz } := by
  have same : fit 64 (cString text) = text := by rw [cString_of_no_nul hz, fit_of_length_lt h]
  simp only [Auth.State.setUsername, same]

theorem loadLine_username {text : CString} (h : text.length < 64) (hz : 0 ∉ text) :
    s.loadLine (ofString "digest_user=" ++ text) = { s with
      auth := { s.auth with digestUsername := text, username_fits := h, username_text := hz } } := by
  rw [State.loadLine, if_neg (by simp [startsWith, ofString]), if_neg (by simp [startsWith, ofString]),
    if_neg (by simp [startsWith, ofString]), if_neg (by simp [startsWith, ofString]),
    if_pos (by simp [startsWith, ofString]), drop_name, setUsername_eq h hz]

-- A digest is read back into an array that is still empty.
theorem loadLine_ha1 {text : CString} (h : text.length ≤ 32) (empty : s.auth.digestHa1 = .replicate 32 0) :
    s.loadLine (ofString "digest_ha1=" ++ text) =
      { s with auth.digestHa1 := text ++ .replicate (32 - text.length) 0 } := by
  have array : ((fit 33 text) ++ 0 :: s.auth.digestHa1.drop ((fit 33 text).length + 1)).take 32 =
      text ++ .replicate (32 - text.length) 0 := by
    rw [fit_of_length_lt (Nat.lt_succ_of_le h), empty, List.drop_replicate, ← List.replicate_succ,
      List.take_append, List.take_of_length_le h, List.take_replicate]
    congr 2
    omega
  rw [State.loadLine, if_neg (by simp [startsWith, ofString]), if_neg (by simp [startsWith, ofString]),
    if_neg (by simp [startsWith, ofString]), if_pos (by simp [startsWith, ofString]), drop_name]
  dsimp only
  rw [array]

-- What a new start makes of a state.
def State.restarted (s : State W) (world : W) : State W :=
  { s with auth.tokens := [], auth.nonces := [], world }

theorem boot_configText (proper : s.Proper) (complete : s.auth.setupComplete) :
    boot (some s.configText) world = { s.restarted world with config := some s.configText } := by
  obtain ⟨text, length, line, ha1⟩ := proper.ha1
  have digits : cString s.auth.digestHa1 = text := by rw [ha1, cString_ha1 line.left]
  rw [boot, Option.elim_some, configLines_configText proper]
  simp only [State.entries, List.foldl_cons, List.foldl_nil, digits]
  rw [loadLine_setup, loadLine_disabled, loadLine_password proper.hash.left, loadLine_ha1 length rfl,
    loadLine_username s.auth.username_fits s.auth.username_text, ← ha1, State.finishLoad]
  rw [if_neg (by simp [complete])]
  rfl

-- The hashes are texts on one line that fit the array.
def System.HashesLines (sys : System W) : Prop :=
  ∀ key salt hashed, sys.crypt key salt = some hashed → hashed.length < 128 ∧ IsLine hashed

-- Whenever the file is written, all of it gets there; it never has more bytes.
def Env.Stores (env : Env) : Prop :=
  ∀ i, ∃ n, env.saved i = some n ∧ 1280 ≤ n

theorem length_configText (proper : s.Proper) : s.configText.length ≤ 1280 := by
  have lines := proper.entries
  rw [configText_eq, bytesOf, List.append_nil]
  simp only [State.entries, List.forall_mem_cons] at lines
  obtain ⟨⟨_, -⟩, ⟨_, -⟩, ⟨_, -⟩, ⟨_, -⟩, ⟨_, -⟩, -⟩ := lines
  simp only [State.entries, List.flatMap_cons, List.flatMap_nil, List.length_append, List.length_singleton,
    List.length_nil] at *
  omega

-- What is saved is the whole file.
theorem saveConfig_stored {i : Nat} (proper : s.Proper) (stores : env.Stores) :
    s.saveConfig (env.saved i) = { s with config := some s.configText } := by
  obtain ⟨n, saved, enough⟩ := stores i
  rw [saved, State.saveConfig, List.take_of_length_le ((length_configText proper).trans enough)]

theorem State.Proper.setDigestCredentials {username password : CString} (proper : s.Proper)
    (h : 10 ∉ username) : (s.setDigestCredentials username password).Proper where
  hash := proper.hash
  ha1 := by
    have hex : Auth.IsHex (s.setDigestCredentials username password).auth.digestHa1 := Auth.isHex_hexOf
    have length : (s.setDigestCredentials username password).auth.digestHa1.length = 32 := Md5.length_hexOf
    refine ⟨_, Nat.le_of_eq length, ⟨hex.notMem, hex.notMem⟩, ?_⟩
    rw [length, Nat.sub_self, List.replicate_zero, List.append_nil]
  username hm := h ((List.takeWhile_subset _) (List.mem_of_mem_take hm))

theorem State.Proper.saveConfig {saved : Option Nat} (proper : s.Proper) : (s.saveConfig saved).Proper := by
  cases saved <;> exact ⟨proper.hash, proper.ha1, proper.username⟩

theorem State.Proper.setPassword {password : CString} {saved : Option Nat} (proper : s.Proper)
    (hashes : sys.HashesLines) : (s.setPassword sys env password saved).Proper := by
  rw [State.setPassword]
  cases hc : sys.crypt password (saltOf env.salt)
  case none => exact (proper.setDigestCredentials (by decide)).saveConfig
  case some hashed =>
    obtain ⟨fits, line⟩ := hashes _ _ _ hc
    have whole : fit 128 hashed = hashed := fit_of_length_lt fits
    have proper' : ({ s with passwordHash := fit 128 hashed } : State W).Proper :=
      ⟨whole.symm ▸ ⟨fits, line⟩, proper.ha1, proper.username⟩
    exact (proper'.setDigestCredentials (by decide)).saveConfig

-- The file holds the settings once the setup is complete; before that there is none.
structure State.Kept (s : State W) : Prop where
  proper : s.Proper
  stored : s.auth.setupComplete → s.config = some s.configText
  unset  : s.auth.setupComplete = false → s.config = none

theorem boot_none_kept : (boot none world).Kept where
  proper := {
    hash     := ⟨Nat.zero_lt_succ _, List.not_mem_nil, List.not_mem_nil⟩
    ha1      := ⟨[], by decide, by decide, rfl⟩
    username := (by decide : 10 ∉ ofString "operator")
  }
  stored h := absurd h Bool.false_ne_true
  unset _ := rfl

-- The settings are saved once the setup is complete.
theorem State.Proper.saved {i : Nat} (proper : s.Proper) (complete : s.auth.setupComplete) (stores : env.Stores) :
    (s.saveConfig (env.saved i)).Kept := by
  rw [saveConfig_stored proper stores]
  exact {
    proper   := ⟨proper.hash, proper.ha1, proper.username⟩
    stored _ := rfl
    unset h  := absurd (complete.symm.trans h) (by decide)
  }

theorem isLine_randomHex {len : Nat} {random : Option (List.Vector UInt8 64)} :
    10 ∉ Auth.randomHex len random := by
  cases random
  case none => exact fun h => absurd (List.eq_of_mem_replicate h) (by decide)
  case some bytes =>
    intro h
    obtain ⟨b, -, hb⟩ := List.mem_map.mp h
    have := @Md5.hexDigit_isHex (b.toNat % 16) (Nat.mod_lt _ (by decide))
    rw [hb] at this
    exact absurd this (by decide)

theorem State.Kept.pair (kept : s.Kept) (stores : env.Stores) : (s.pair env).Kept := by
  have proper := @State.Proper.setDigestCredentials _ _ (Auth.randomHex 33 env.id) (Auth.randomHex 33 env.key)
    kept.proper isLine_randomHex
  rw [State.pair]
  split
  case isTrue complete => exact proper.saved complete stores
  case isFalse unset =>
    refine ⟨proper, fun h => absurd h unset, fun _ => ?_⟩
    exact kept.unset (Bool.eq_false_iff.mpr unset)

theorem State.Kept.of_settings {s' : State W} (kept : s.Kept) (text : s'.configText = s.configText)
    (complete : s'.auth.setupComplete = s.auth.setupComplete) (config : s'.config = s.config)
    (proper : s'.Proper) : s'.Kept where
  proper   := proper
  stored h := by rw [config, text, kept.stored (complete ▸ h)]
  unset h  := by rw [config, kept.unset (complete ▸ h)]

theorem State.Proper.setDisabled {disabled : Bool} {i : Nat} (proper : s.Proper) (complete : s.auth.setupComplete)
    (stores : env.Stores) : (s.setDisabled disabled (env.saved i)).Kept := by
  have proper' : ({ s with auth.authDisabled := disabled } : State W).Proper :=
    ⟨proper.hash, proper.ha1, proper.username⟩
  exact proper'.saved complete stores

theorem State.Proper.finishSetUp {disabled : Bool} {token : CString} (proper : s.Proper) (stores : env.Stores) :
    (((s.setSetupComplete (env.saved 1)).setDisabled disabled (env.saved 2)).addSessionToken env.now token
      30).Kept := by
  have proper' : (s.setSetupComplete (env.saved 1)).Proper :=
    State.Proper.saveConfig ⟨proper.hash, proper.ha1, proper.username⟩
  have complete : (s.setSetupComplete (env.saved 1)).auth.setupComplete := by
    rw [State.setSetupComplete, saveConfig_auth]
  have kept := @State.Proper.setDisabled _ _ _ disabled 2 proper' complete stores
  exact kept.of_settings rfl rfl rfl ⟨kept.proper.hash, kept.proper.ha1, kept.proper.username⟩

theorem State.Kept.setUp (kept : s.Kept) (hashes : sys.HashesLines) (stores : env.Stores) :
    (s.setUp sys env req).Kept := by
  rw [State.setUp]
  cases newPassword req
  case none => exact kept.proper.finishSetUp stores
  case some => exact (kept.proper.setPassword hashes).finishSetUp stores

theorem State.Kept.route (kept : s.Kept) (hashes : sys.HashesLines) (stores : env.Stores) :
    (s.route sys env req resp).2.Kept := by
  have proper := kept.proper
  have effect := @route_effect W sys env req resp s
  generalize (s.route sys env req resp).2 = s' at effect
  cases effect
  case kept      => exact kept
  case challenge => exact kept.of_settings rfl rfl rfl ⟨proper.hash, proper.ha1, proper.username⟩
  case pair      => exact kept.pair stores
  case setUp     => exact kept.setUp hashes stores
  case logIn     => exact kept.of_settings rfl rfl rfl ⟨proper.hash, proper.ha1, proper.username⟩
  case other     => exact kept.of_settings rfl rfl rfl ⟨proper.hash, proper.ha1, proper.username⟩

theorem State.Kept.restart (kept : s.Kept) : (s.step sys .restart).Kept := by
  rw [State.step]
  cases complete : s.auth.setupComplete
  case false =>
    rw [kept.unset complete]
    exact boot_none_kept
  case true =>
    have proper := kept.proper
    rw [kept.stored complete, boot_configText proper complete]
    exact ⟨⟨proper.hash, proper.ha1, proper.username⟩, fun _ => rfl,
      fun h => absurd (complete.symm.trans h) (by decide)⟩

-- In every run from the first start of a printer, a new start of the process after the setup brings
-- back every setting, and only ends the sessions and the challenges.
theorem restart_keeps_settings (sys : System W) (world : W) (events : List Event) (hashes : sys.HashesLines)
    (stores : ∀ req env, .request req env ∈ events → env.Stores)
    (complete : ((boot none world).run sys events).auth.setupComplete) :
    let s := (boot none world).run sys events
    s.step sys .restart = s.restarted (sys.restart s.world) := by
  have kept : ((boot none world).run sys events).Kept := by
    clear complete
    induction events using List.reverseRecOn
    case nil => exact boot_none_kept
    case append_singleton events e ih =>
      have kept := ih fun req env h => stores req env (List.mem_append_left _ h)
      rw [State.run, List.foldl_append, List.foldl_cons, List.foldl_nil, ← State.run]
      cases e
      case request req env =>
        exact kept.route hashes (stores req env (List.mem_append_right _ List.mem_cons_self))
      case restart => exact kept.restart
  intro s
  have stored : s.config = some s.configText := kept.stored complete
  rw [State.step, stored, boot_configText kept.proper complete, ← stored]
  rfl

def firstSetup : Request :=
  { login "abc" with path := "/api/v1/deneb/setup" }

theorem counting_hashesLines : counting.HashesLines := by
  intro key salt hashed h
  simp only [counting] at h
  split at h
  case isTrue =>
    obtain rfl := Option.some.inj h
    decide +kernel
  case isFalse => cases h

theorem restart_keeps_settings_abc :
    let s := (boot none 0).run counting [.request firstSetup always]
    s.step counting .restart = s.restarted (counting.restart s.world) :=
  restart_keeps_settings counting 0 [.request firstSetup always] counting_hashesLines
    (fun _ _ h _ => by
      obtain rfl := (Event.request.inj (List.mem_singleton.mp h)).right
      exact ⟨4096, rfl, by decide⟩)
    (by decide +kernel)

end Deneb.Access
