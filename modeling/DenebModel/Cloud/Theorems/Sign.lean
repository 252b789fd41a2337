import DenebModel.Cloud.Record
import DenebModel.Cloud.Theorems.Acts

namespace Deneb.Cloud

open History CloudMessage

variable {events before after : List Event} {msg pin : CString} {ts u : Int}

-- Events that do not show the account as connected.
def Event.hidesConnected : Event → Bool
  | published state _ _ => decide (state ≠ .connected)
  | _                   => true

theorem showsSign_of_hidesConnected {e : Event} (h : e.hidesConnected = true) :
    ShowsSign before e := by
  rintro pin ts rfl
  exact absurd h Bool.false_ne_true

-- A sign at that time, when the clock has started.
def SignAt (events : List Event) (u : Int) : Prop :=
  0 < u ∧ ∃ msg, .received msg u ∈ events ∧ isSign msg = true

theorem SignAt.append (h : SignAt events u) : SignAt (events ++ after) u := by
  obtain ⟨hu, msg, hm, hs⟩ := h
  exact ⟨hu, msg, List.mem_append_left after hm, hs⟩

theorem SignAt.since (h : SignAt events u) (ht : ts - u ≤ statusRequestStaleMs) :
    SignSince events ts := by
  obtain ⟨_, msg, hm, hs⟩ := h
  exact ⟨msg, u, hm, hs, ht⟩

namespace Connector

variable {turn : Turn} {c c' : Connector} {state : Msgpack.State} {now : Int}

structure Live (c : Connector) : Prop where
  log  : Preceded ShowsSign c.log
  sign : c.state = .connected → SignAt c.log c.lastStatusRequest

theorem Live.extend (h : c.Live) (hl : c'.log = c.log ++ after)
    (ha : ∀ e ∈ after, e.hidesConnected = true)
    (hs : c'.state = .connected → c.state = .connected ∧ c'.lastStatusRequest = c.lastStatusRequest) :
    c'.Live where
  log := by
    rw [hl, preceded_append]
    exact ⟨h.log, .of_forall fun e he _ => showsSign_of_hidesConnected (ha e he)⟩
  sign hc := by
    obtain ⟨connected, same⟩ := hs hc
    rw [hl, same]
    exact (h.sign connected).append

theorem Live.congr (h : c.Live) (hl : c'.log = c.log) (hs : c'.state = c.state)
    (hr : c'.lastStatusRequest = c.lastStatusRequest) : c'.Live :=
  ⟨hl ▸ h.log, fun hc => hl ▸ hr ▸ h.sign (hs ▸ hc)⟩

theorem Live.record {e : Event} (h : c.Live) (he : e.hidesConnected = true) : (c.record e).Live :=
  h.extend rfl (fun _ hm => List.mem_singleton.mp hm ▸ he) fun hc => ⟨hc, rfl⟩

theorem Live.enter (h : Preceded ShowsSign c.log)
    (hs : state = .connected →
      SignAt c.log c.lastStatusRequest ∧ ts - c.lastStatusRequest ≤ statusRequestStaleMs) :
    (c.enter state pin ts).Live where
  log := by
    refine preceded_append.mpr ⟨h, preceded_cons.mpr ⟨?_, preceded_nil⟩⟩
    rintro pin' ts' he
    obtain ⟨connected, _, rfl⟩ := Event.published.injEq .. ▸ he
    rw [List.append_nil]
    exact (hs connected).left.since (hs connected).right
  sign hc := (hs hc).left.append

theorem Live.enter_lost (h : c.Live) (hs : state ≠ .connected) : (c.enter state pin ts).Live :=
  Live.enter h.log fun hc => absurd hc hs

theorem Live.connect (h : c.Live) (hs : SignAt c.log ts) : (c.connect ts).Live :=
  Live.enter (c := { c with lastStatusRequest := ts }) h.log fun _ =>
    ⟨hs, by simp [statusRequestStaleMs]⟩

section Messages

variable {id : CString}

theorem Live.setClusterId (h : c.Live) : (c.setClusterId id).Live :=
  Live.record (c := { c with clusterId := id }) (h.congr rfl rfl rfl) rfl

theorem Live.forget (h : c.Live) : c.forget.Live :=
  Live.congr (c := c.setClusterId []) h.setClusterId rfl rfl rfl

theorem Live.storeClusterId (h : c.Live) : (c.storeClusterId msg).Live := by
  unfold Connector.storeClusterId
  split
  case isTrue  => exact h.setClusterId
  case isFalse => exact h

theorem Live.connectionResponse (h : c.Live) (hm : isConnectionResponse msg = true)
    (hs : isSign msg = true → SignAt c.log ts) : (c.connectionResponse msg ts).Live := by
  have stored : Live { c.storeClusterId msg with pairRequest := none } :=
    h.storeClusterId.congr rfl rfl rfl
  unfold Connector.connectionResponse
  split
  case isTrue =>
    split
    case isTrue  => exact h.forget.enter_lost (by decide)
    case isFalse => exact stored.enter_lost (by decide)
  case isFalse noPin =>
    split
    case isTrue => exact stored.enter_lost (by decide)
    case isFalse noPayload => exact h.connect (hs (by simp [isSign, hm, noPin, noPayload]))

theorem Live.statusRequest {response : CString} (h : c.Live) (hm : isConnectionResponse msg = false)
    (ht : hasType msg "status_request" = true) (hs : isSign msg = true → SignAt c.log ts) :
    (c.statusRequest msg response ts).Live := by
  unfold Connector.statusRequest
  split
  case isTrue => exact h
  case isFalse noPayload =>
    dsimp only
    split
    case isTrue =>
      have sign : SignAt c.log ts := hs (by simp [isSign, hm, ht, noPayload])
      exact Live.record (c := { c with lastStatusRequest := ts }) ⟨h.log, fun _ => sign⟩ rfl
    case isFalse => exact h.record rfl

theorem Live.work {handled : List Operation × CString} (h : c.Live) : (c.work handled).Live := by
  refine h.extend rfl (fun e he => ?_) fun hc => ⟨hc, rfl⟩
  rcases List.mem_append.mp he with hw | hs
  case inl =>
    obtain ⟨operation, _, rfl⟩ := List.mem_map.mp hw
    exact rfl
  case inr => exact List.mem_singleton.mp hs ▸ rfl

theorem Live.clusterAccountStatus (h : c.Live) (hs : hasUser msg = true → SignAt c.log ts) :
    (c.clusterAccountStatus msg ts).Live := by
  have confirmed : (c.confirmAccount msg).Live ∧
      (hasUser msg = true → SignAt (c.confirmAccount msg).log ts) := by
    unfold Connector.confirmAccount
    dsimp only
    split
    case isTrue  => exact ⟨h.record rfl, fun user => (hs user).append⟩
    case isFalse => exact ⟨h, hs⟩
  unfold Connector.clusterAccountStatus
  dsimp only
  generalize c.confirmAccount msg = s at confirmed
  obtain ⟨live, sign⟩ := confirmed
  split
  case isTrue user => exact Live.connect (c := { s with pairRequest := none }) (live.congr rfl rfl rfl) (sign user)
  case isFalse =>
    split
    case isTrue =>
      have forgotten : Live ({ s.forget with lastStatusRequest := 0 }.enter .disconnected [] ts) :=
        Live.enter live.forget.log fun hc => absurd hc (by decide)
      exact forgotten.congr rfl rfl rfl
    case isFalse => exact live

theorem Live.handleCloudMessage (h : c.Live) (hp : 0 < turn.handled) :
    (c.handleCloudMessage turn).Live := by
  have received : (c.received turn).Live := h.record rfl
  have sign (hs : isSign turn.msg = true) : SignAt (c.received turn).log turn.handled :=
    ⟨hp, turn.msg, List.mem_append_right _ (List.mem_singleton_self _), hs⟩
  apply handleCloudMessage_cases
  case response => exact fun hm => received.connectionResponse hm sign
  case status   => exact fun hm ht => received.statusRequest hm ht sign
  case work     => exact fun _ _ _ => received.work
  case account =>
    refine fun hm ht ha => received.clusterAccountStatus fun user => sign ?_
    simp [isSign, hm, ht, ha, user]
  case other => exact fun _ => received

end Messages

theorem Live.command (h : c.Live) (i : Msgpack.Instruction) : (c.command i).Live := by
  have said : (c.record (.commanded i)).Live := h.record rfl
  cases i
  case connect    => exact said.congr rfl rfl rfl
  case disconnect => exact said.extend rfl (by simp [Event.hidesConnected]) fun hc => ⟨hc, rfl⟩

theorem Live.publish (h : c.Live) (hs : c.isStale now = false) : (c.publish now).Live := by
  refine Live.enter h.log fun connected => ⟨h.sign connected, ?_⟩
  simpa [isStale, connected, (h.sign connected).left] using hs

theorem Act.keeps_live (a : Act turn c c') (hp : 0 < turn.handled) (h : c.Live) : c'.Live := by
  cases a
  case commanded => exact h.command _
  case requested => exact h.congr rfl rfl rfl
  case lost reached _ hs =>
    refine h.enter_lost ?_
    rcases hs with rfl | rfl <;> decide
  case stale =>
    exact Live.enter (c := { c with lastStatusRequest := 0 }) h.log fun hc => absurd hc (by decide)
  case shown hs => exact h.publish hs
  case opened hs =>
    exact h.extend rfl (by simp [Event.hidesConnected]) fun hc => absurd (hs.symm.trans hc) (by decide)
  case closed => exact h.record rfl
  case backedOff => exact Live.record (c := { c with reconnectWaitSeconds := _ }) (h.congr rfl rfl rfl) rfl
  case received => exact h.handleCloudMessage hp
  case finished => exact (h.record rfl).congr rfl rfl rfl
  case moved => exact h.congr rfl rfl rfl

end Connector

section

variable {clusterId : CString} {pairRequest : Option Int} {first : Turn} {turns : List Turn}

theorem start_live : (start clusterId pairRequest first).Live := by
  have connected : (start clusterId pairRequest first).state ≠ .connected := by
    unfold start Connector.publish Connector.record
    dsimp only
    split <;> decide
  refine ⟨preceded_cons.mpr ⟨?_, preceded_nil⟩, fun hc => absurd hc connected⟩
  exact showsSign_of_hidesConnected (decide_eq_true connected)

end

-- A session in which the cloud confirms the connection.
def confirmedTurns : List Turn :=
  [{ handled := 1 },
   { handled := 5, ready := 1, msg := "\x7b\"type\":\"connection_response\"\x7d" }]

end Deneb.Cloud
