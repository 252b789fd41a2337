import DenebModel.Cloud.Record
import DenebModel.Cloud.Theorems.Acts

namespace Deneb.Cloud

open History

variable {front before after operations : List Operation} {operation : Operation}

-- Operations that hand over no file, and operations that create none.
def Operation.isLocal : Operation → Bool
  | upload .. => false
  | _         => true

theorem submits_of_isLocal (h : operation.isLocal = true) : Submits before operation := by
  rintro path name uuid jobId code rfl
  exact absurd h Bool.false_ne_true

theorem submits_of_forall (h : ∀ operation ∈ operations, operation.isLocal = true) :
    Preceded (fun before => Submits (front ++ before)) operations :=
  .of_forall fun o ho _ => submits_of_isLocal (h o ho)

theorem submits_cons (h : operation.isLocal = true)
    (rest : Preceded (fun before => Submits (front ++ [operation] ++ before)) operations) :
    Preceded (fun before => Submits (front ++ before)) (operation :: operations) := by
  refine preceded_cons.mpr ⟨submits_of_isLocal h, rest.mono fun {before o} ho => ?_⟩
  rwa [List.append_assoc, List.singleton_append] at ho

namespace PrintRequest

variable {req : PrintRequest} {answers : Answers}

theorem prepend_isLocal : ∀ o ∈ (req.prepend answers).1, o.isLocal = true ∧ o.created = none := by
  unfold prepend
  split
  case isTrue  => exact List.forall_mem_nil _
  case isFalse => exact fun o ho => List.mem_singleton.mp ho ▸ ⟨rfl, rfl⟩

theorem refusal_eq_none (h : req.refusal answers = none) :
    answers.isIdle = true ∧ req.jobId ≠ [] ∧ isGuid req.uuid = true := by
  unfold refusal at h
  split_ifs at h
  all_goals simp_all

section Submits

variable (guid : isGuid req.uuid = true) (job : req.jobId ≠ [])
variable (idle : .status true ∈ front) (fetched : ∃ url source, .download url source 0 ∈ front)

include guid job idle fetched

theorem submit_submits :
    Preceded (fun before => Submits (front ++ before)) (req.submit answers).1 := by
  have prepended : Preceded (fun before => Submits (front ++ before)) (req.prepend answers).1 :=
    submits_of_forall fun o ho => (prepend_isLocal o ho).left
  unfold submit
  dsimp only
  generalize (req.prepend answers).1 = start at prepended
  split
  case isTrue => exact prepended
  case isFalse =>
    split
    case isTrue =>
      exact preceded_append.mpr ⟨prepended, preceded_cons.mpr ⟨submits_of_isLocal rfl, preceded_nil⟩⟩
    case isFalse =>
      refine preceded_append.mpr ⟨prepended, preceded_cons.mpr ⟨submits_of_isLocal rfl, ?_⟩⟩
      refine preceded_cons.mpr ⟨?_, preceded_nil⟩
      rintro path name uuid jobId code he
      obtain ⟨rfl, rfl, rfl, rfl, rfl⟩ := Operation.upload.injEq .. ▸ he
      obtain ⟨url, source, hd⟩ := fetched
      exact ⟨guid, job, List.mem_append_left _ idle, by simp, url, source, List.mem_append_left _ hd⟩

theorem extract_submits :
    Preceded (fun before => Submits (front ++ before)) (req.extract answers).1 := by
  unfold extract
  split
  case isFalse => exact submit_submits guid job idle fetched
  case isTrue =>
    dsimp only
    split
    case isTrue => exact submits_cons rfl preceded_nil
    case isFalse =>
      obtain ⟨url, source, hd⟩ := fetched
      refine submits_cons rfl (submit_submits guid job (List.mem_append_left _ idle) ?_)
      exact ⟨url, source, List.mem_append_left _ hd⟩

end Submits

theorem work_submits (h : answers.isIdle = true → .status true ∈ front) :
    Preceded (fun before => Submits (front ++ before)) (req.work answers).1 := by
  unfold work
  dsimp only
  split
  case h_1 => exact preceded_nil
  case h_2 accepted =>
    obtain ⟨idle, job, guid⟩ := refusal_eq_none accepted
    split
    case isTrue => exact submits_cons rfl preceded_nil
    case isFalse fetched =>
      rw [not_not] at fetched
      refine submits_cons rfl (extract_submits guid job (List.mem_append_left _ (h idle)) ?_)
      exact ⟨req.url.text, req.path answers, by simp [fetched]⟩

theorem submit_created : ∀ o ∈ (req.submit answers).1, o.created = none := by
  have prepended : ∀ o ∈ (req.prepend answers).1, o.created = none := fun o ho =>
    (prepend_isLocal o ho).right
  unfold submit
  dsimp only
  generalize (req.prepend answers).1 = start at prepended
  split
  case isTrue => exact prepended
  case isFalse =>
    split
    all_goals exact List.forall_mem_append.mpr ⟨prepended, by simp [Operation.created]⟩

theorem extract_created :
    ∀ o ∈ (req.extract answers).1, ∀ path, o.created = some path → path = req.uploadPath answers := by
  unfold extract
  split
  case isFalse => exact fun o ho path h => absurd ((submit_created o ho).symm.trans h) (by simp)
  case isTrue =>
    dsimp only
    split
    case isTrue =>
      intro o ho path h
      rw [List.mem_singleton.mp ho] at h
      exact (Option.some.inj h).symm
    case isFalse =>
      intro o ho path h
      rcases List.mem_cons.mp ho with rfl | ho
      case inl => exact (Option.some.inj h).symm
      case inr => exact absurd ((submit_created o ho).symm.trans h) (by simp)

theorem work_created : ∀ o ∈ (req.work answers).1, ∀ path, o.created = some path →
    path = req.path answers ∨ path = (req.work answers).2.2 := by
  unfold work
  dsimp only
  split
  case h_1 => exact fun o ho => absurd ho List.not_mem_nil
  case h_2 =>
    split
    case isTrue =>
      intro o ho path h
      rw [List.mem_singleton.mp ho] at h
      exact .inl (Option.some.inj h).symm
    case isFalse =>
      intro o ho path h
      rcases List.mem_cons.mp ho with rfl | ho
      case inl => exact .inl (Option.some.inj h).symm
      case inr => exact .inr (extract_created o ho path h)

end PrintRequest

theorem mem_removals {path uploadPath : CString} :
    .unlink path ∈ removals path uploadPath ∧ .unlink uploadPath ∈ removals path uploadPath := by
  unfold removals
  split
  case isTrue h  => simp [h]
  case isFalse   => simp

theorem removals_isLocal {path uploadPath : CString} :
    ∀ o ∈ removals path uploadPath, o.isLocal = true ∧ o.created = none := by
  unfold removals
  split
  all_goals simp [Operation.isLocal, Operation.created]

theorem handlePrintRequest_submits {msg : CString} {answers : Answers} :
    Preceded Submits (handlePrintRequest msg answers).1 := by
  have work : Preceded (fun before => Submits ([.status answers.isIdle] ++ before))
      ((PrintRequest.read msg).work answers).1 :=
    PrintRequest.work_submits fun idle => by simp [idle]
  refine preceded_cons.mpr ⟨submits_of_isLocal rfl, preceded_append.mpr ⟨work, ?_⟩⟩
  exact .of_forall fun o ho _ => submits_of_isLocal (removals_isLocal o ho).left

theorem removes_of_created_eq_none (h : operation.created = none) : Removes operation after :=
  fun _ hp => absurd (h.symm.trans hp) (by simp)

theorem handlePrintRequest_removes {msg : CString} {answers : Answers} :
    Followed Removes (handlePrintRequest msg answers).1 := by
  refine followed_cons.mpr ⟨removes_of_created_eq_none rfl, followed_append.mpr ⟨?_, ?_⟩⟩
  case refine_1 =>
    refine .of_forall fun o ho _ path hp => List.mem_append_right _ ?_
    rcases PrintRequest.work_created o ho path hp with rfl | rfl
    case inl => exact mem_removals.left
    case inr => exact mem_removals.right
  case refine_2 => exact .of_forall fun o ho _ => removes_of_created_eq_none (removals_isLocal o ho).right

section Actions

variable {msg : CString} {answers : Answers}

theorem handlePrintJobActionRequest_local :
    ∀ o ∈ (handlePrintJobActionRequest msg answers).1, o.isLocal = true ∧ o.created = none := by
  unfold handlePrintJobActionRequest
  dsimp only
  split
  case isTrue  => exact fun o ho => List.mem_singleton.mp ho ▸ ⟨rfl, rfl⟩
  case isFalse => exact List.forall_mem_nil _

theorem updateOf_local {rc : Int} (h : updateOf msg rc = some operation) :
    operation.isLocal = true ∧ operation.created = none := by
  unfold updateOf at h
  simp only [bind, Option.bind] at h
  split at h
  case h_1 => cases h
  case h_2 =>
    split at h
    case isTrue  => exact Option.some.inj h ▸ ⟨rfl, rfl⟩
    case isFalse => cases h

theorem handlePrinterActionRequest_local :
    ∀ o ∈ (handlePrinterActionRequest msg answers).1, o.isLocal = true ∧ o.created = none := by
  change ∀ o ∈ (printerAction msg answers).1, _
  unfold printerAction
  dsimp only
  split
  case isTrue =>
    split
    case isTrue  => simp [Operation.isLocal, Operation.created]
    case isFalse => exact List.forall_mem_nil _
  case isFalse =>
    split
    case isFalse => exact List.forall_mem_nil _
    case isTrue =>
      split
      case isTrue => simp [Operation.isLocal, Operation.created]
      case isFalse =>
        split
        case h_1 operation ho =>
          intro o hm
          rcases List.mem_pair.mp hm with rfl | rfl
          case inl => exact ⟨rfl, rfl⟩
          case inr => exact updateOf_local ho
        case h_2 => simp [Operation.isLocal, Operation.created]

-- Every list of operations that a message leads to.
theorem works_orderly {turn : Turn} {handled : List Operation × CString} (h : handled ∈ turn.works) :
    Preceded Submits handled.1 ∧ Followed Removes handled.1 := by
  simp only [Turn.works, List.mem_cons, List.not_mem_nil, or_false] at h
  rcases h with rfl | rfl | rfl
  case inl => exact ⟨handlePrintRequest_submits, handlePrintRequest_removes⟩
  case inr.inl =>
    exact ⟨.of_forall fun o ho _ => submits_of_isLocal (handlePrintJobActionRequest_local o ho).left,
      .of_forall fun o ho _ => removes_of_created_eq_none (handlePrintJobActionRequest_local o ho).right⟩
  case inr.inr =>
    exact ⟨.of_forall fun o ho _ => submits_of_isLocal (handlePrinterActionRequest_local o ho).left,
      .of_forall fun o ho _ => removes_of_created_eq_none (handlePrinterActionRequest_local o ho).right⟩

end Actions

section Record

variable {events rest : List Event} {text : CString}

def Event.isWork : Event → Bool
  | worked _ => true
  | _        => false

theorem lastWork_worked : lastWork (events ++ operations.map .worked) = lastWork events ++ operations := by
  induction operations generalizing events
  case nil => simp
  case cons operation operations ih =>
    have first : lastWork (events ++ [.worked operation]) = lastWork events ++ [operation] := by
      simp [lastWork, Event.work]
    rw [List.map_cons, List.append_cons, ih, first, List.append_assoc, List.singleton_append]

theorem CleansUp.append {e : Event} (h : CleansUp e events) : CleansUp e (events ++ rest) := by
  intro operation he
  obtain ⟨work, text, more, rfl, removes⟩ := h operation he
  exact ⟨work, text, more ++ rest, by simp, removes⟩

namespace Connector

structure Tidy (c : Connector) : Prop where
  submits : Preceded SubmitsChecked c.log
  cleans  : Followed CleansUp c.log

variable {turn : Turn} {c c' : Connector} {msg pin id : CString} {state : Msgpack.State} {ts : Int}

theorem Tidy.extend (h : c.Tidy) (hl : c'.log = c.log ++ events)
    (ha : ∀ e ∈ events, e.isWork = false) : c'.Tidy := by
  have never {e : Event} {operation : Operation} (he : e ∈ events) (hw : e = .worked operation) :
      False := by
    have := ha e he
    rw [hw] at this
    exact Bool.noConfusion this
  constructor
  case submits =>
    rw [hl, preceded_append]
    exact ⟨h.submits, .of_forall fun e he _ _ hw => (never he hw).elim⟩
  case cleans =>
    rw [hl, followed_append]
    exact ⟨h.cleans.mono CleansUp.append, .of_forall fun e he _ _ hw => (never he hw).elim⟩

theorem Tidy.congr (h : c.Tidy) (hl : c'.log = c.log) : c'.Tidy :=
  ⟨hl ▸ h.submits, hl ▸ h.cleans⟩

theorem Tidy.record {e : Event} (h : c.Tidy) (he : e.isWork = false) : (c.record e).Tidy :=
  h.extend rfl fun _ hm => List.mem_singleton.mp hm ▸ he

theorem Tidy.work {handled : List Operation × CString} (h : c.Tidy) (hn : lastWork c.log = [])
    (ho : Preceded Submits handled.1 ∧ Followed Removes handled.1) : (c.work handled).Tidy where
  submits := by
    refine preceded_append.mpr ⟨h.submits, preceded_append.mpr ⟨preceded_map.mpr ?_, ?_⟩⟩
    case refine_1 =>
      refine ho.left.mono fun {before o} submits operation he => ?_
      rw [lastWork_worked, hn, List.nil_append, ← Event.worked.inj he]
      exact submits
    case refine_2 =>
      refine .of_forall fun e he _ operation hw => ?_
      exact Event.noConfusion ((List.mem_singleton.mp he).symm.trans hw)
  cleans := by
    refine followed_append.mpr ⟨h.cleans.mono CleansUp.append, followed_append.mpr ⟨followed_map.mpr ?_, ?_⟩⟩
    case refine_1 =>
      refine ho.right.mono fun {o after} removes operation he => ?_
      exact ⟨after, handled.2, [], rfl, Event.worked.inj he ▸ removes⟩
    case refine_2 =>
      refine .of_forall fun e he _ operation hw => ?_
      exact Event.noConfusion ((List.mem_singleton.mp he).symm.trans hw)

theorem Tidy.reacts (h : c.Tidy) (hr : c.Reacts c') : c'.Tidy := by
  obtain ⟨events, hl, hs⟩ := hr.log
  refine h.extend hl fun e he => ?_
  have reaction : e.isReaction = true := hs e he
  cases e
  case worked => exact Bool.noConfusion reaction
  all_goals rfl

theorem Tidy.handleCloudMessage (h : c.Tidy) : (c.handleCloudMessage turn).Tidy := by
  have received : (c.received turn).Tidy := h.record rfl
  rcases handleCloudMessage_reacts with reacts | ⟨handled, hm, hw⟩
  case inl => exact received.reacts reacts
  case inr =>
    have none : lastWork (c.received turn).log = [] := List.foldl_append
    exact hw ▸ received.work none (works_orderly hm)

theorem Tidy.enter (h : c.Tidy) : (c.enter state pin ts).Tidy :=
  h.extend rfl (by simp [Event.isWork])

theorem Act.keeps_tidy (a : Act turn c c') (h : c.Tidy) : c'.Tidy := by
  cases a
  case commanded i _ =>
    cases i
    case connect    => exact (h.record rfl).congr rfl
    case disconnect =>
      have said : (c.record (.commanded .disconnect)).Tidy := h.record rfl
      exact said.extend rfl (by simp [Event.isWork])
  case requested => exact h.congr rfl
  case lost      => exact h.enter
  case stale     => exact Tidy.enter (c := { c with lastStatusRequest := 0 }) (h.congr rfl)
  case shown     => exact h.record rfl
  case opened    => exact h.extend rfl (by simp [Event.isWork])
  case closed    => exact h.record rfl
  case backedOff => exact h.extend rfl (by simp [Event.isWork])
  case received  => exact h.handleCloudMessage
  case finished  => exact (h.record rfl).congr rfl
  case moved     => exact h.congr rfl

end Connector

end Record

-- Whatever the cloud sends, no file is handed over unchecked, and none is left behind.
theorem run_tidy {clusterId : CString} {pairRequest : Option Int} {first : Turn} {turns : List Turn} :
    Preceded SubmitsChecked ((start clusterId pairRequest first).run turns).log ∧
    Followed CleansUp ((start clusterId pairRequest first).run turns).log := by
  have tidy : ((start clusterId pairRequest first).run turns).Tidy := by
    refine Connector.run_induction ?_ fun _ _ _ _ => Connector.Act.keeps_tidy
    exact Connector.Tidy.extend (c := { start clusterId pairRequest first with log := [] })
      ⟨preceded_nil, followed_nil⟩ rfl (by simp [Event.isWork])
  exact ⟨tidy.submits, tidy.cleans⟩

end Deneb.Cloud
