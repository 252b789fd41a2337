import DenebModel.Cloud.Connector

namespace Deneb.Cloud

open Msgpack (Instruction)

-- What can be done and answered for the message of a turn.
def Turn.works (turn : Turn) : List (List Operation × CString) :=
  [handlePrintRequest turn.msg turn.answers, handlePrintJobActionRequest turn.msg turn.answers,
    handlePrinterActionRequest turn.msg turn.answers]

-- What the connector does about a message besides the work.
def Event.isReaction : Event → Bool
  | published .. | stored _ | sent _ => true
  | _                                => false

namespace Connector

variable {turn : Turn} {c c' s : Connector} {now ts : Int} {msg : CString}

theorem Acts.refl : Acts turn c c :=
  Relation.ReflTransGen.refl

theorem Acts.one (a : Act turn c c') : Acts turn c c' :=
  Relation.ReflTransGen.single a

theorem Acts.act (a : Act turn c s) (as : Acts turn s c') : Acts turn c c' :=
  Relation.ReflTransGen.head a as

theorem Acts.trans (first : Acts turn c s) (rest : Acts turn s c') : Acts turn c c' :=
  Relation.ReflTransGen.trans first rest

section Messages

structure Reacts (c c' : Connector) : Prop where
  log  : ∃ events, c'.log = c.log ++ events ∧ ∀ e ∈ events, e.isReaction = true
  wait : c'.reconnectWaitSeconds = c.reconnectWaitSeconds

theorem Reacts.congr (hl : c'.log = c.log) (hw : c'.reconnectWaitSeconds = c.reconnectWaitSeconds) :
    c.Reacts c' :=
  ⟨⟨[], hl.trans (List.append_nil _).symm, List.forall_mem_nil _⟩, hw⟩

theorem Reacts.trans (first : c.Reacts s) (rest : s.Reacts c') : c.Reacts c' := by
  obtain ⟨events, hl, hs⟩ := first.log
  obtain ⟨events', hl', hs'⟩ := rest.log
  refine ⟨⟨events ++ events', ?_, List.forall_mem_append.mpr ⟨hs, hs'⟩⟩, rest.wait.trans first.wait⟩
  rw [hl', hl, List.append_assoc]

theorem Reacts.one {e : Event} (hl : c'.log = c.log ++ [e]) (he : e.isReaction = true)
    (hw : c'.reconnectWaitSeconds = c.reconnectWaitSeconds) : c.Reacts c' :=
  ⟨⟨[e], hl, fun _ hm => List.mem_singleton.mp hm ▸ he⟩, hw⟩

theorem storeClusterId_reacts : c.Reacts (c.storeClusterId msg) := by
  unfold storeClusterId
  split
  case isTrue  => exact .one rfl rfl rfl
  case isFalse => exact .congr rfl rfl

theorem confirmAccount_reacts : c.Reacts (c.confirmAccount msg) := by
  unfold confirmAccount
  dsimp only
  split
  case isTrue  => exact .one rfl rfl rfl
  case isFalse => exact .congr rfl rfl

theorem connectionResponse_reacts : c.Reacts (c.connectionResponse msg ts) := by
  have forgotten : c.Reacts c.forget := .one rfl rfl rfl
  unfold connectionResponse
  split
  case isTrue =>
    split
    case isTrue  => exact forgotten.trans (.one rfl rfl rfl)
    case isFalse => exact storeClusterId_reacts.trans (.one rfl rfl rfl)
  case isFalse =>
    split
    case isTrue  => exact storeClusterId_reacts.trans (.one rfl rfl rfl)
    case isFalse => exact .one rfl rfl rfl

theorem statusRequest_reacts {response : CString} : c.Reacts (c.statusRequest msg response ts) := by
  unfold statusRequest
  split
  case isTrue => exact .congr rfl rfl
  case isFalse =>
    dsimp only
    split
    all_goals exact .one rfl rfl rfl

theorem clusterAccountStatus_reacts : c.Reacts (c.clusterAccountStatus msg ts) := by
  have confirmed : c.Reacts (c.confirmAccount msg) := confirmAccount_reacts
  unfold clusterAccountStatus
  dsimp only
  refine confirmed.trans ?_
  generalize c.confirmAccount msg = s
  have forgotten : s.Reacts s.forget := .one rfl rfl rfl
  split
  case isTrue => exact .one rfl rfl rfl
  case isFalse =>
    split
    case isTrue  => exact forgotten.trans (.one rfl rfl rfl)
    case isFalse => exact .congr rfl rfl

-- What is shown for the kinds of messages holds of every message.
theorem handleCloudMessage_cases {p : Connector → Prop}
    (response : isConnectionResponse turn.msg = true →
      p ((c.received turn).connectionResponse turn.msg turn.handled))
    (status : isConnectionResponse turn.msg = false → hasType turn.msg "status_request" = true →
      p ((c.received turn).statusRequest turn.msg turn.answers.response turn.handled))
    (work : isConnectionResponse turn.msg = false →
      ∀ handled ∈ turn.works, p ((c.received turn).work handled))
    (account : isConnectionResponse turn.msg = false → hasType turn.msg "status_request" = false →
      hasType turn.msg "cluster_account_status" = true →
      p ((c.received turn).clusterAccountStatus turn.msg turn.handled))
    (other : isConnectionResponse turn.msg = false → p (c.received turn)) :
    p (c.handleCloudMessage turn) := by
  unfold handleCloudMessage
  dsimp only
  split
  case isTrue hm => exact response hm
  case isFalse hm =>
    rw [Bool.not_eq_true] at hm
    split
    case isTrue ht => exact status hm ht
    case isFalse ht =>
      rw [Bool.not_eq_true] at ht
      split
      case isTrue => exact work hm _ (by simp [Turn.works])
      case isFalse =>
        split
        case isTrue => exact work hm _ (by simp [Turn.works])
        case isFalse =>
          split
          case isTrue => exact work hm _ (by simp [Turn.works])
          case isFalse =>
            split
            case isTrue ha => exact account hm ht ha
            case isFalse   => exact other hm

-- A message leads to work or to nothing but reactions.
theorem handleCloudMessage_reacts :
    (c.received turn).Reacts (c.handleCloudMessage turn) ∨
    ∃ handled ∈ turn.works, c.handleCloudMessage turn = (c.received turn).work handled := by
  refine handleCloudMessage_cases (p := fun s => (c.received turn).Reacts s ∨
    ∃ handled ∈ turn.works, s = (c.received turn).work handled) ?response ?status ?work ?account ?other
  case response => exact fun _ => .inl connectionResponse_reacts
  case status   => exact fun _ _ => .inl statusRequest_reacts
  case work     => exact fun _ handled h => .inr ⟨handled, h, rfl⟩
  case account  => exact fun _ _ _ => .inl clusterAccountStatus_reacts
  case other    => exact fun _ => .inl (.congr rfl rfl)

end Messages

section Poll

theorem foldl_command_acts {instructions : List Instruction}
    (h : ∀ i ∈ instructions, i ∈ turn.instructions) :
    Acts turn c (instructions.foldl command c) := by
  induction instructions generalizing c
  case nil => exact .refl
  case cons i instructions ih =>
    exact .act (.commanded (h i List.mem_cons_self)) (ih fun j hj => h j (List.mem_cons_of_mem i hj))

theorem command_keeps_log (i : Instruction) : c.log <+: (c.command i).log := by
  cases i
  case connect    => exact List.prefix_append _ _
  case disconnect => exact (List.prefix_append _ _).trans (List.prefix_append _ _)

theorem mem_command_log (i : Instruction) : .commanded i ∈ (c.command i).log := by
  cases i
  case connect    => exact List.mem_append_right _ (List.mem_singleton_self _)
  case disconnect =>
    exact List.mem_append_left _ (List.mem_append_right _ (List.mem_singleton_self _))

theorem foldl_command_keeps_log (instructions : List Instruction) :
    c.log <+: (instructions.foldl command c).log := by
  induction instructions generalizing c
  case nil          => exact List.prefix_refl _
  case cons i _ ih => exact (command_keeps_log i).trans ih

theorem mem_foldl_command_log {instructions : List Instruction} {i : Instruction}
    (h : i ∈ instructions) : .commanded i ∈ (instructions.foldl command c).log := by
  induction instructions generalizing c
  case nil => exact absurd h List.not_mem_nil
  case cons j rest ih =>
    rcases List.mem_cons.mp h with rfl | h
    case inl => exact (foldl_command_keeps_log rest).subset (mem_command_log i)
    case inr => exact ih h

-- A poll without a request to disconnect leaves the connection wanted.
theorem foldl_command_wants {instructions : List Instruction} (h : .disconnect ∉ instructions)
    (hw : c.wantConnect = true) : (instructions.foldl command c).wantConnect = true := by
  induction instructions generalizing c
  case nil => exact hw
  case cons i rest ih =>
    cases i
    case connect    => exact ih (fun hm => h (List.mem_cons_of_mem _ hm)) rfl
    case disconnect => exact absurd List.mem_cons_self h

theorem poll_acts : Acts turn c (c.poll turn) := by
  have polled : Acts turn c (c.pollConnectorCommands turn) := foldl_command_acts fun _ => id
  unfold poll
  dsimp only
  refine polled.trans ?_
  split
  case isTrue h => exact .one (.requested (mem_foldl_command_log (List.contains_iff_mem.mp h)))
  case isFalse  => exact .refl

theorem poll_wants (turn : Turn) (h : c.wantConnect = true) :
    (c.poll turn).wantConnect = true ∨ .disconnect ∈ turn.instructions := by
  by_cases hd : .disconnect ∈ turn.instructions
  case pos => exact .inr hd
  case neg =>
    have wants : (c.pollConnectorCommands turn).wantConnect = true := foldl_command_wants hd h
    unfold poll
    dsimp only
    split
    case isTrue  => exact .inl wants
    case isFalse => exact .inl wants

end Poll

section Sessions

theorem leave_acts (reconnect : Bool) : Acts turn c (c.leave reconnect turn) := by
  have closed : Acts turn c (if !c.wantConnect || c.stop then c.record .closed else c) := by
    split
    case isTrue  => exact .one .closed
    case isFalse => exact .refl
  unfold leave
  dsimp only
  refine closed.trans ?_
  generalize (if !c.wantConnect || c.stop then c.record .closed else c) = s
  split
  case isTrue  => exact .one (.lost (.inl rfl))
  case isFalse => exact .refl

theorem retry_acts : Acts turn c (c.enter .reconnecting [] now).backOff :=
  .act (.lost (.inr rfl)) (.one .backedOff)

theorem endSession_acts (reconnect : Bool) : Acts turn c (c.endSession reconnect turn) := by
  unfold endSession
  refine (leave_acts reconnect).trans ?_
  refine .trans (s := { c.leave reconnect turn with online := false }) (.one (.moved ..)) ?_
  dsimp only
  split
  case isTrue  => exact retry_acts
  case isFalse => exact .refl

theorem tryOpen_acts : Acts turn c (c.tryOpen turn) := by
  unfold tryOpen
  dsimp only
  refine .act (Act.lost (.inr rfl) : Act turn c (c.enter .reconnecting [] turn.now)) ?_
  split
  case isTrue  => exact .one (.opened rfl)
  case isFalse => exact retry_acts

theorem attempt_acts : Acts turn c (c.attempt turn) := by
  unfold attempt
  dsimp only
  refine poll_acts.trans ?_
  split
  case isTrue => exact .one (.lost (.inl rfl))
  case isFalse =>
    split
    case isTrue  => exact .refl
    case isFalse => exact tryOpen_acts

theorem checkStale_acts : Acts turn c (c.checkStale now) := by
  unfold checkStale
  split
  case isTrue  => exact .one .stale
  case isFalse => exact .refl

theorem checkStale_isStale : (c.checkStale now).isStale now = false := by
  unfold checkStale
  split
  case isTrue    => exact rfl
  case isFalse h => exact Bool.eq_false_iff.mpr h

theorem publishDue_acts (h : c.isStale now = false) : Acts turn c (c.publishDue now) := by
  unfold publishDue
  split
  case isTrue  => exact .act (.shown h) (.one (.moved ..))
  case isFalse => exact .refl

theorem checkStale_wantConnect : (c.checkStale now).wantConnect = c.wantConnect := by
  unfold checkStale
  split <;> rfl

theorem publishDue_wantConnect : (c.publishDue now).wantConnect = c.wantConnect := by
  unfold publishDue
  split <;> rfl

section

variable (h : c.wantConnect = true ∨ .disconnect ∈ turn.instructions)

include h

theorem read_acts (ready : 0 < turn.ready) : Acts turn c (c.read turn) := by
  unfold read
  refine .trans (s := { c with lastRx := turn.rx }) (.one (.moved ..)) ?_
  dsimp only
  split
  case isTrue text => exact .one (.received h ⟨ready, text⟩)
  case isFalse     => exact .refl

theorem receive_acts : Acts turn c (c.receive turn) := by
  unfold receive
  split
  case isTrue => exact endSession_acts false
  case isFalse =>
    split
    case isTrue => exact endSession_acts false
    case isFalse unfailed =>
      split
      case isTrue => exact .refl
      case isFalse readable =>
        split
        case isTrue  => exact endSession_acts false
        case isFalse => exact read_acts h (by omega)

theorem ping_acts : Acts turn c (c.ping turn) := by
  unfold ping
  split
  case isTrue => exact receive_acts h
  case isFalse =>
    split
    case isTrue  => exact endSession_acts false
    case isFalse =>
      exact .trans (s := { c with nextPing := turn.now + pingIntervalMs }) (.one (.moved ..))
        (receive_acts h)

end

theorem serve_acts (h : c.wantConnect = true) : Acts turn c (c.serve turn) := by
  have wants := poll_wants turn h
  unfold serve
  dsimp only
  refine poll_acts.trans ?_
  split
  case isTrue => exact endSession_acts true
  case isFalse =>
    refine checkStale_acts.trans ((publishDue_acts checkStale_isStale).trans (ping_acts ?_))
    rwa [publishDue_wantConnect, checkStale_wantConnect]

theorem turnOn_acts : Acts turn c (c.turnOn turn) := by
  unfold turnOn
  split
  case isTrue =>
    split
    case isTrue    => exact endSession_acts false
    case isFalse h => exact serve_acts (by simp_all)
  case isFalse =>
    split
    case isTrue  => exact .one .finished
    case isFalse => exact attempt_acts

end Sessions

theorem step_acts : Acts turn c (c.step turn) := by
  unfold step
  split
  case isTrue  => exact .refl
  case isFalse =>
    exact .trans (s := { c with stop := c.stop || turn.signal }) (.one (.moved ..)) turnOn_acts

-- What the acts of a turn keep, its step keeps.
theorem step_induction {p : Connector → Prop} (hc : p c)
    (act : ∀ {c c'}, Act turn c c' → p c → p c') : p (c.step turn) := by
  have acts : Acts turn c (c.step turn) := step_acts
  generalize c.step turn = c' at acts
  induction acts
  case refl          => exact hc
  case tail _ a hp => exact act a hp

theorem run_induction {p : Connector → Prop} {turns : List Turn} (hc : p c)
    (act : ∀ turn ∈ turns, ∀ {c c'}, Act turn c c' → p c → p c') : p (c.run turns) := by
  induction turns generalizing c
  case nil => exact hc
  case cons turn turns ih =>
    have first : p (c.step turn) := step_induction hc (act turn List.mem_cons_self)
    exact ih first fun t ht => act t (List.mem_cons_of_mem turn ht)

end Connector

end Deneb.Cloud
