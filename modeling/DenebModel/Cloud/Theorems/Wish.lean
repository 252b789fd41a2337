import DenebModel.Cloud.Record
import DenebModel.Cloud.Theorems.Acts

namespace Deneb.Cloud

open History

variable {events before after : List Event} {msg pin id : CString} {ts : Int}

-- Events that neither begin a session nor wait for one.
def Event.isBetween : Event → Bool
  | opened | waited _ => false
  | _                 => true

theorem doubles_of_isBetween {e : Event} (h : e.isBetween = true) : Doubles before e := by
  rintro seconds rfl
  exact absurd h Bool.false_ne_true

theorem attempts_append_of_isBetween (h : ∀ e ∈ after, e.isBetween = true) :
    attempts (events ++ after) = attempts events := by
  unfold attempts
  rw [List.foldl_append]
  generalize events.foldl Event.attempts 0 = n
  induction after generalizing n
  case nil => rfl
  case cons e after ih =>
    have first : Event.attempts n e = n := by
      cases e
      case opened => exact absurd (h _ List.mem_cons_self) Bool.false_ne_true
      case waited => exact absurd (h _ List.mem_cons_self) Bool.false_ne_true
      all_goals rfl
    rw [List.foldl_cons, first]
    exact ih (fun e he => h e (List.mem_cons_of_mem _ he)) n

namespace Connector

variable {turn : Turn} {c c' : Connector} {state : Msgpack.State}

section BackOff

structure Patient (c : Connector) : Prop where
  log  : Preceded Doubles c.log
  wait : c.reconnectWaitSeconds = min (2 ^ attempts c.log) maxReconnectWait

theorem Patient.extend (h : c.Patient) (hl : c'.log = c.log ++ after)
    (ha : ∀ e ∈ after, e.isBetween = true)
    (hw : c'.reconnectWaitSeconds = c.reconnectWaitSeconds) : c'.Patient where
  log := by
    rw [hl, preceded_append]
    exact ⟨h.log, .of_forall fun e he _ => doubles_of_isBetween (ha e he)⟩
  wait := by rw [hw, hl, attempts_append_of_isBetween ha, h.wait]

theorem Patient.congr (h : c.Patient) (hl : c'.log = c.log)
    (hw : c'.reconnectWaitSeconds = c.reconnectWaitSeconds) : c'.Patient :=
  h.extend (hl.trans (List.append_nil _).symm) (List.forall_mem_nil _) hw

theorem Patient.record {e : Event} (h : c.Patient) (he : e.isBetween = true) :
    (c.record e).Patient :=
  h.extend rfl (fun _ hm => List.mem_singleton.mp hm ▸ he) rfl

theorem Patient.enter (h : c.Patient) : (c.enter state pin ts).Patient :=
  Patient.record (c := { c with state, pin }) (h.congr rfl rfl) rfl

theorem Patient.setClusterId (h : c.Patient) : (c.setClusterId id).Patient :=
  Patient.record (c := { c with clusterId := id }) (h.congr rfl rfl) rfl

theorem Patient.reacts (h : c.Patient) (hr : c.Reacts c') : c'.Patient := by
  obtain ⟨events, hl, hs⟩ := hr.log
  refine h.extend hl (fun e he => ?_) hr.wait
  have reaction : e.isReaction = true := hs e he
  cases e
  case opened => exact Bool.noConfusion reaction
  case waited => exact Bool.noConfusion reaction
  all_goals rfl

theorem Patient.work {handled : List Operation × CString} (h : c.Patient) :
    (c.work handled).Patient := by
  refine h.extend rfl (fun e he => ?_) rfl
  rcases List.mem_append.mp he with hw | hs
  case inl =>
    obtain ⟨operation, _, rfl⟩ := List.mem_map.mp hw
    exact rfl
  case inr => exact List.mem_singleton.mp hs ▸ rfl

theorem Patient.handleCloudMessage (h : c.Patient) : (c.handleCloudMessage turn).Patient := by
  have received : (c.received turn).Patient := h.record rfl
  rcases handleCloudMessage_reacts with reacts | ⟨handled, _, hw⟩
  case inl => exact received.reacts reacts
  case inr => exact hw ▸ received.work

theorem Patient.command (h : c.Patient) (i : Msgpack.Instruction) : (c.command i).Patient := by
  have said : (c.record (.commanded i)).Patient := h.record rfl
  cases i
  case connect    => exact said.congr rfl rfl
  case disconnect =>
    exact Patient.setClusterId (c := { c.record (.commanded .disconnect) with wantConnect := false })
      (said.congr rfl rfl)

theorem Patient.openSession (h : c.Patient) : (c.openSession turn).Patient where
  log := by
    refine preceded_append.mpr ⟨h.log, .of_forall fun e he _ => ?_⟩
    rcases List.mem_cons.mp he with rfl | he
    case inl =>
      rintro seconds hs
      exact Event.noConfusion hs
    case inr => exact doubles_of_isBetween (List.mem_singleton.mp he ▸ rfl)
  wait := by
    have again : attempts (c.openSession turn).log = 0 := List.foldl_append
    rw [again]
    rfl

theorem min_double (n m : Nat) : min (2 * min n m) m = min (2 * n) m := by
  omega

theorem Patient.backOff (h : c.Patient) : c.backOff.Patient where
  log := by
    refine preceded_append.mpr ⟨h.log, preceded_cons.mpr ⟨?_, preceded_nil⟩⟩
    intro seconds hs
    rw [List.append_nil, ← Event.waited.inj hs]
    exact h.wait
  wait := by
    have one : attempts c.backOff.log = attempts c.log + 1 := List.foldl_append
    calc c.backOff.reconnectWaitSeconds
      _ = min (2 * c.reconnectWaitSeconds) maxReconnectWait := rfl
      _ = min (2 * 2 ^ attempts c.log) maxReconnectWait := by rw [h.wait, min_double]
      _ = min (2 ^ attempts c.backOff.log) maxReconnectWait := by rw [one, pow_succ']

theorem Act.keeps_patient (a : Act turn c c') (h : c.Patient) : c'.Patient := by
  cases a
  case commanded => exact h.command _
  case requested => exact h.congr rfl rfl
  case lost      => exact h.enter
  case stale     => exact Patient.enter (c := { c with lastStatusRequest := 0 }) (h.congr rfl rfl)
  case shown     => exact h.record rfl
  case opened    => exact h.openSession
  case closed    => exact h.record rfl
  case backedOff => exact h.backOff
  case received  => exact h.handleCloudMessage
  case finished  => exact (h.record rfl).congr rfl rfl
  case moved     => exact h.congr rfl rfl

end BackOff

section Wish

-- A connection that is not wanted leaves nothing for the next start to connect with.
def Settled (c : Connector) : Prop :=
  c.wantConnect = false → uciLine 160 c.clusterId = []

theorem forget_settled : (c.forget).Settled :=
  fun _ => rfl

theorem storeClusterId_settled (h : c.Settled)
    (hs : c.wantConnect = true ∨ ((clusterIdOf msg).found = true → uciLine 160 (clusterIdOf msg).text = [])) :
    (c.storeClusterId msg).Settled := by
  unfold Connector.storeClusterId
  split
  case isFalse => exact h
  case isTrue found =>
    rcases hs with wanted | none
    case inl => exact fun unwanted => absurd (wanted.symm.trans unwanted) (by decide)
    case inr => exact fun _ => none found

theorem connectionResponse_settled (h : c.Settled)
    (hs : c.wantConnect = true ∨ ((clusterIdOf msg).found = true → uciLine 160 (clusterIdOf msg).text = [])) :
    (c.connectionResponse msg ts).Settled := by
  have stored : (c.storeClusterId msg).Settled := storeClusterId_settled h hs
  unfold Connector.connectionResponse
  split
  case isTrue =>
    split
    case isTrue  => exact forget_settled (c := c)
    case isFalse => exact stored
  case isFalse =>
    split
    case isTrue  => exact stored
    case isFalse => exact h

theorem statusRequest_settled {response : CString} (h : c.Settled) :
    (c.statusRequest msg response ts).Settled := by
  unfold Connector.statusRequest
  split
  case isTrue => exact h
  case isFalse =>
    dsimp only
    split
    all_goals exact h

theorem clusterAccountStatus_settled (h : c.Settled) : (c.clusterAccountStatus msg ts).Settled := by
  have confirmed : (c.confirmAccount msg).Settled := by
    unfold Connector.confirmAccount
    dsimp only
    split
    all_goals exact h
  unfold Connector.clusterAccountStatus
  dsimp only
  generalize c.confirmAccount msg = s at confirmed
  split
  case isTrue => exact confirmed
  case isFalse =>
    split
    case isTrue  => exact forget_settled (c := s)
    case isFalse => exact confirmed

theorem handleCloudMessage_settled (h : c.Settled)
    (hs : c.wantConnect = true ∨ (isConnectionResponse turn.msg = true →
      (clusterIdOf turn.msg).found = true → uciLine 160 (clusterIdOf turn.msg).text = [])) :
    (c.handleCloudMessage turn).Settled := by
  apply handleCloudMessage_cases
  case response => exact fun hm => connectionResponse_settled h (hs.imp_right fun none => none hm)
  case status   => exact fun _ _ => statusRequest_settled h
  case work     => exact fun _ _ _ => h
  case account  => exact fun _ _ _ => clusterAccountStatus_settled h
  case other    => exact fun _ => h

theorem Act.keeps_settled (a : Act turn c c') (hl : turn.isLate = false) (h : c.Settled) :
    c'.Settled := by
  cases a
  case commanded i _ =>
    cases i
    case connect    => exact fun unwanted => Bool.noConfusion unwanted
    case disconnect => exact fun _ => rfl
  case received hw hr =>
    refine handleCloudMessage_settled h (hw.imp_right fun disconnects response found => ?_)
    simpa [Turn.isLate, disconnects, hr, response, found] using hl
  all_goals exact h

end Wish

end Connector

section

variable {clusterId : CString} {pairRequest : Option Int} {first again : Turn} {turns : List Turn}

theorem start_settled : (start clusterId pairRequest first).Settled := by
  intro unwanted
  simpa [start, Connector.publish, Connector.record] using unwanted

theorem run_settled (h : ∀ turn ∈ turns, turn.isLate = false) :
    ((start clusterId pairRequest first).run turns).Settled :=
  Connector.run_induction start_settled fun turn ht _ _ a => a.keeps_settled (h turn ht)

end

-- The key of a request on the bus.
def requestKey (target : CString) : List UInt8 :=
  (Msgpack.Program.bridge.putMap (Msgpack.bridgeKey 0 "rpc-request" "menu" target)).getD []

-- A session that the cloud gives a PIN and a name in, and that is given up then.
def namedTurns : List Turn :=
  [{ frames := [requestKey "digitalfactory::connector::connect"] },
   { ready := 1, msg := "\x7b\"type\":\"connection_response\",\"pin_code\":\"1\",\"cluster_id\":\"c\"\x7d" },
   { frames := [requestKey "digitalfactory::connector::disconnect"] }]

-- When the name is read in the turn that gives the session up, the next start connects again.
example :
    (start ((start [] none {}).run [
      { frames := [requestKey "digitalfactory::connector::connect"] },
      { frames := [requestKey "digitalfactory::connector::disconnect"], ready := 1,
        msg := "\x7b\"type\":\"connection_response\",\"pin_code\":\"1\",\"cluster_id\":\"c\"\x7d" }]).clusterId
      none {}).wantConnect = true := by
  decide

end Deneb.Cloud
