import DenebModel.Cloud.Record
import DenebModel.Cloud.Theorems.Acts

namespace Deneb.Cloud

open History CloudMessage

variable {fresh : Bool} {events before after : List Event} {msg pin : CString}

theorem Asked.append (h : Asked fresh events) : Asked fresh (events ++ after) :=
  h.imp_right (List.mem_append_left after)

theorem lastResponse_append (events after : List Event) :
    lastResponse (events ++ after) = after.foldl Event.response (lastResponse events) :=
  List.foldl_append

-- Events that do not show a PIN, and events that no response is among.
def Event.hidesPin : Event → Bool
  | published _ pin _ => pin.isEmpty
  | _                 => true

def Event.isNoResponse : Event → Bool
  | opened         => false
  | received msg _ => !isConnectionResponse msg
  | _              => true

theorem showsPin_of_hidesPin {e : Event} (h : e.hidesPin = true) : ShowsPin fresh before e := by
  rintro state pin ts rfl hp
  exact absurd (List.isEmpty_iff.mp h) hp

theorem lastResponse_append_of_isNoResponse (h : ∀ e ∈ after, e.isNoResponse = true) :
    lastResponse (events ++ after) = lastResponse events := by
  rw [lastResponse_append]
  generalize lastResponse events = last
  induction after
  case nil => rfl
  case cons e after ih =>
    have first : Event.response last e = last := by
      cases e
      case opened        => exact absurd (h _ List.mem_cons_self) Bool.false_ne_true
      case received msg _ =>
        have hm := h _ List.mem_cons_self
        exact if_neg (by simpa [Event.isNoResponse] using hm)
      all_goals rfl
    rw [List.foldl_cons, first]
    exact ih fun e he => h e (List.mem_cons_of_mem _ he)

namespace Connector

-- The record so far, and the request of a connection.
structure Sound (fresh : Bool) (c : Connector) : Prop where
  log    : Preceded (ShowsPin fresh) c.log
  paired : c.pairingRequested = true → Asked fresh c.log

def PinGiven (fresh : Bool) (c : Connector) : Prop :=
  c.pin ≠ [] → c.state = .enterPin ∧ Asked fresh c.log ∧ GivesPin c.log c.pin

structure Shown (fresh : Bool) (c : Connector) : Prop extends Sound fresh c where
  pin : c.PinGiven fresh

variable {turn : Turn} {c c' : Connector} {state : Msgpack.State} {ts : Int}

theorem Sound.extend (h : c.Sound fresh) (hl : c'.log = c.log ++ after)
    (ha : ∀ e ∈ after, e.hidesPin = true) (hq : c'.pairingRequested = c.pairingRequested) :
    c'.Sound fresh where
  log := by
    rw [hl, preceded_append]
    exact ⟨h.log, .of_forall fun e he _ => showsPin_of_hidesPin (ha e he)⟩
  paired hp := hl ▸ (h.paired (hq ▸ hp)).append

theorem Sound.congr (h : c.Sound fresh) (hl : c'.log = c.log)
    (hq : c'.pairingRequested = c.pairingRequested) : c'.Sound fresh :=
  ⟨hl ▸ h.log, fun hp => hl ▸ h.paired (hq ▸ hp)⟩

theorem Shown.extend (h : c.Shown fresh) (hl : c'.log = c.log ++ after)
    (ha : ∀ e ∈ after, e.hidesPin = true ∧ e.isNoResponse = true)
    (hq : c'.pairingRequested = c.pairingRequested) (hp : c'.pin = c.pin) (hs : c'.state = c.state) :
    c'.Shown fresh where
  toSound := h.toSound.extend hl (fun e he => (ha e he).left) hq
  pin hne := by
    obtain ⟨entered, asked, msg, hm, given⟩ := h.pin (hp ▸ hne)
    refine ⟨hs.trans entered, hl ▸ asked.append, msg, ?_, hp ▸ given⟩
    rw [hl, lastResponse_append_of_isNoResponse fun e he => (ha e he).right, hm]

theorem Shown.congr (h : c.Shown fresh) (hl : c'.log = c.log)
    (hq : c'.pairingRequested = c.pairingRequested) (hp : c'.pin = c.pin) (hs : c'.state = c.state) :
    c'.Shown fresh :=
  h.extend (hl.trans (List.append_nil _).symm) (List.forall_mem_nil _) hq hp hs

theorem Sound.enter (h : c.Sound fresh)
    (hp : pin ≠ [] → state = .enterPin ∧ Asked fresh c.log ∧ GivesPin c.log pin) :
    (c.enter state pin ts).Shown fresh where
  log := by
    refine preceded_append.mpr ⟨h.log, preceded_cons.mpr ⟨?_, preceded_nil⟩⟩
    rintro state' pin' ts' he hne
    obtain ⟨rfl, rfl, rfl⟩ := Event.published.injEq .. ▸ he
    rw [List.append_nil]
    exact hp hne
  paired hq := (h.paired hq).append
  pin hne := by
    obtain ⟨entered, asked, msg, hm, given⟩ := hp hne
    exact ⟨entered, asked.append, msg, by rw [← hm]; exact lastResponse_append _ _, given⟩

theorem Sound.enter_nil (h : c.Sound fresh) : (c.enter state [] ts).Shown fresh :=
  h.enter fun hne => absurd rfl hne

section Messages

theorem Sound.setClusterId {id : CString} (h : c.Sound fresh) : (c.setClusterId id).Sound fresh :=
  h.extend rfl (by simp [Event.hidesPin]) rfl

theorem Sound.forget (h : c.Sound fresh) : c.forget.Sound fresh :=
  Sound.congr (c := c.setClusterId []) h.setClusterId rfl rfl

theorem Sound.connect (h : c.Sound fresh) : (c.connect ts).Shown fresh :=
  Sound.enter_nil (c := { c with lastStatusRequest := ts }) (h.congr rfl rfl)

theorem Sound.storeClusterId (h : c.Sound fresh) : (c.storeClusterId msg).Sound fresh := by
  unfold Connector.storeClusterId
  split
  case isTrue  => exact h.setClusterId
  case isFalse => exact h

theorem lastResponse_storeClusterId :
    lastResponse (c.storeClusterId msg).log = lastResponse c.log := by
  unfold Connector.storeClusterId
  split
  case isTrue  => exact lastResponse_append_of_isNoResponse (by simp [Event.isNoResponse])
  case isFalse => rfl

theorem storeClusterId_pairingRequested :
    (c.storeClusterId msg).pairingRequested = c.pairingRequested := by
  unfold Connector.storeClusterId
  split <;> rfl

theorem Sound.connectionResponse (h : c.Sound fresh) (hm : lastResponse c.log = some msg) :
    (c.connectionResponse msg ts).Shown fresh := by
  have stored : Sound fresh { c.storeClusterId msg with pairRequest := none } :=
    h.storeClusterId.congr rfl rfl
  unfold Connector.connectionResponse
  split
  case isTrue found =>
    split
    case isTrue => exact h.forget.enter_nil
    case isFalse paired =>
      refine stored.enter fun _ => ⟨rfl, stored.paired ?_, msg, ?_, found, rfl⟩
      case refine_1 => simpa [storeClusterId_pairingRequested] using paired
      case refine_2 => exact lastResponse_storeClusterId.trans hm
  case isFalse =>
    split
    case isTrue  => exact stored.enter_nil
    case isFalse => exact h.connect

theorem Shown.statusRequest {response : CString} (h : c.Shown fresh) :
    (c.statusRequest msg response ts).Shown fresh := by
  unfold Connector.statusRequest
  split
  case isTrue => exact h
  case isFalse =>
    dsimp only
    split
    all_goals exact h.extend rfl (by simp [Event.hidesPin, Event.isNoResponse]) rfl rfl rfl

theorem Shown.work {handled : List Operation × CString} (h : c.Shown fresh) :
    (c.work handled).Shown fresh := by
  refine h.extend rfl (fun e he => ?_) rfl rfl rfl
  rcases List.mem_append.mp he with hw | hs
  case inl =>
    obtain ⟨operation, _, rfl⟩ := List.mem_map.mp hw
    exact ⟨rfl, rfl⟩
  case inr => exact List.mem_singleton.mp hs ▸ ⟨rfl, rfl⟩

theorem Shown.confirmAccount (h : c.Shown fresh) : (c.confirmAccount msg).Shown fresh := by
  unfold Connector.confirmAccount
  dsimp only
  split
  case isTrue  => exact h.extend rfl (by simp [Event.hidesPin, Event.isNoResponse]) rfl rfl rfl
  case isFalse => exact h

theorem Shown.clusterAccountStatus (h : c.Shown fresh) :
    (c.clusterAccountStatus msg ts).Shown fresh := by
  have confirmed : (c.confirmAccount msg).Shown fresh := h.confirmAccount
  unfold Connector.clusterAccountStatus
  dsimp only
  generalize c.confirmAccount msg = s at confirmed
  split
  case isTrue =>
    exact Sound.connect (c := { s with pairRequest := none }) (confirmed.toSound.congr rfl rfl)
  case isFalse =>
    split
    case isTrue =>
      have forgotten : Sound fresh { s.forget with lastStatusRequest := 0 } :=
        confirmed.toSound.forget.congr rfl rfl
      exact forgotten.enter_nil.congr rfl rfl rfl rfl
    case isFalse => exact confirmed

theorem Shown.handleCloudMessage (h : c.Shown fresh) : (c.handleCloudMessage turn).Shown fresh := by
  have received (hm : isConnectionResponse turn.msg = false) : (c.received turn).Shown fresh :=
    h.extend rfl (by simp [Event.hidesPin, Event.isNoResponse, hm]) rfl rfl rfl
  apply handleCloudMessage_cases
  case response =>
    refine fun hm => Sound.connectionResponse (h.toSound.extend rfl (by simp [Event.hidesPin]) rfl) ?_
    exact (lastResponse_append _ _).trans (if_pos hm)
  case status  => exact fun hm _ => (received hm).statusRequest
  case work    => exact fun hm _ _ => (received hm).work
  case account => exact fun hm _ _ => (received hm).clusterAccountStatus
  case other   => exact fun hm => received hm

end Messages

theorem Shown.command (h : c.Shown fresh) (i : Msgpack.Instruction) : (c.command i).Shown fresh := by
  cases i
  case connect => exact h.extend rfl (by simp [Event.hidesPin, Event.isNoResponse]) rfl rfl rfl
  case disconnect =>
    have said : (c.record (.commanded .disconnect)).Shown fresh :=
      h.extend rfl (by simp [Event.hidesPin, Event.isNoResponse]) rfl rfl rfl
    exact said.extend rfl (by simp [Event.hidesPin, Event.isNoResponse]) rfl rfl rfl

theorem Shown.openSession (h : c.Shown fresh) (hs : c.state = .reconnecting) :
    (c.openSession turn).Shown fresh where
  toSound := h.toSound.extend rfl (by simp [Event.hidesPin]) rfl
  pin hne := absurd ((h.pin hne).left.symm.trans hs) (by decide)

theorem Act.keeps_shown (a : Act turn c c') (h : c.Shown fresh) : c'.Shown fresh := by
  cases a
  case commanded => exact h.command _
  case requested hc => exact ⟨⟨h.log, fun _ => .inr hc⟩, h.pin⟩
  case lost => exact h.toSound.enter_nil
  case stale =>
    exact Sound.enter_nil (c := { c with lastStatusRequest := 0 }) (h.toSound.congr rfl rfl)
  case shown => exact h.toSound.enter h.pin
  case opened hs => exact h.openSession hs
  case closed => exact h.extend rfl (by simp [Event.hidesPin, Event.isNoResponse]) rfl rfl rfl
  case backedOff => exact h.extend rfl (by simp [Event.hidesPin, Event.isNoResponse]) rfl rfl rfl
  case received => exact h.handleCloudMessage
  case finished => exact h.extend rfl (by simp [Event.hidesPin, Event.isNoResponse]) rfl rfl rfl
  case moved => exact h.congr rfl rfl rfl rfl

end Connector

section

variable {clusterId : CString} {pairRequest : Option Int} {first : Turn} {turns : List Turn}

theorem start_shown :
    (start clusterId pairRequest first).Shown (isFresh pairRequest first.time) := by
  unfold start
  exact ⟨⟨preceded_cons.mpr ⟨showsPin_of_hidesPin rfl, preceded_nil⟩, fun hp => .inl hp⟩, fun hne => absurd rfl hne⟩

-- Whatever the bus and the cloud send, no PIN is shown that nobody asked for, or that the cloud does
-- not want to be entered in the session.
theorem run_showsPin :
    Preceded (ShowsPin (isFresh pairRequest first.time))
      ((start clusterId pairRequest first).run turns).log :=
  (Connector.run_induction start_shown fun _ _ _ _ => Connector.Act.keeps_shown).log

end

end Deneb.Cloud
