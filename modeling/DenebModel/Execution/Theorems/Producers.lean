import DenebModel.Execution.Theorems.Run

namespace Deneb.Lifecycle

open CString Labelled

variable {l l' : Lifecycle} {kind k : PolicyKind} {recorded : List Event}

section Pending

@[simp]
theorem pending_setPolicy {run : PolicyRun} :
    (l.setPolicy kind run).pending k = if k = kind then run.pending else l.pending k := by
  simp only [pending, setPolicy]
  split
  case isTrue  => rfl
  case isFalse => rfl

@[simp]
theorem pending_advance : (l.advance kind).pending k = l.pending k := by
  rw [advance, pending_setPolicy]
  split
  case isTrue h => rw [h]; rfl
  case isFalse  => rfl

@[simp]
theorem pending_stop : (l.stop kind).pending k = if k = kind then false else l.pending k :=
  pending_setPolicy

theorem pending_of_stop (h : (l.stop kind).pending k) : k ≠ kind ∧ l.pending k := by
  rw [pending_stop] at h
  split at h
  case isTrue    => contradiction
  case isFalse hk => exact ⟨hk, h⟩

@[simp]
theorem pending_begin {policy : MotionPolicy} :
    (l.begin kind policy).pending k = if k = kind then true else l.pending k :=
  pending_setPolicy

theorem pending_of_begin {policy : MotionPolicy} (hk : k ≠ kind)
    (h : (l.begin kind policy).pending k) : l.pending k := by
  rwa [pending_begin, if_neg hk] at h

@[simp]
theorem pending_aborted {pending : Bool} :
    (l.aborted pending).pending k = if k = .abort then pending else false := by
  cases k <;> rfl

@[simp]
theorem pending_started {waits : Bool} : (l.started waits).pending k = false := by
  cases k <;> rfl

theorem busy_of_probe (h : l.probe) : l.busy := by
  simp [busy, h]

theorem busy_of_pause (h : l.pending .pause) : l.busy := by
  simp [busy, h]

theorem busy_of_resume (h : l.pending .resume) : l.busy := by
  simp [busy, h]

theorem idle_of_not_busy (h : ¬l.busy) : ¬l.probe ∧ ¬l.pending .pause ∧ ¬l.pending .resume :=
  ⟨fun hp => h (busy_of_probe hp), fun hp => h (busy_of_pause hp), fun hp => h (busy_of_resume hp)⟩

theorem not_busy (hp : ¬l.probe) (hpause : ¬l.pending .pause) (hresume : ¬l.pending .resume) :
    ¬l.busy := by
  simp [busy, hp, hpause, hresume]

end Pending

section Hands

-- Who can hand over a command, and which one.
inductive Hands (l : Lifecycle) : Producer → CString → Prop
  | policy (kind : PolicyKind) : l.Next kind command → Hands l (.policy kind) command
  | statusProbe : command ∈ probeCommands → Hands l .statusProbe command
  | pauseProbe : l.probe → Hands l .pauseProbe "M114"
  | gcodeQueue : l.queue → ¬l.busy → Hands l .gcodeQueue command
  | streamer : Streams l → Hands l .streamer command

-- All commands in a record were handed over by a producer and with a job as it should be.
def HandedBy (hands : Producer → CString → Prop) (job : Bool) (recorded : List Event) : Prop :=
  ∀ producer command slot job', .handed producer command slot job' ∈ recorded →
    job' = job ∧ hands producer command

variable {hands : Producer → CString → Prop} {job : Bool} {producer : Producer} {command : CString}

theorem HandedBy.nil : HandedBy hands job [] :=
  nofun

theorem HandedBy.of_silent (h : ∀ e ∈ recorded, e.isSilent) : HandedBy hands job recorded := by
  intro _ _ _ _ hm
  have := h _ hm
  contradiction

theorem HandedBy.append {recorded' : List Event} (h : HandedBy hands job recorded)
    (h' : HandedBy hands job recorded') : HandedBy hands job (recorded ++ recorded') := by
  intro _ _ _ _ hm
  rcases List.mem_append.mp hm with hm | hm
  case inl => exact h _ _ _ _ hm
  case inr => exact h' _ _ _ _ hm

theorem HandedBy.cons_other {e : Event} (h : HandedBy hands job recorded)
    (he : e.isHanded = false) : HandedBy hands job (e :: recorded) := by
  intro _ _ _ _ hm
  rcases List.mem_cons.mp hm with hm | hm
  case inl => rw [← hm] at he; contradiction
  case inr => exact h _ _ _ _ hm

theorem HandedBy.single {slot : Nat} (h : hands producer command) :
    HandedBy hands job [.handed producer command slot job] := by
  intro _ _ _ _ hm
  cases List.mem_singleton.mp hm
  exact ⟨rfl, h⟩

theorem Unsent.handedBy (h : Unsent job producer command recorded)
    (hh : hands producer command) : HandedBy hands job recorded := by
  cases h
  case refused => exact .nil
  case failed  => exact (HandedBy.single hh).append (HandedBy.nil.cons_other rfl)

theorem Attempt.handedBy (h : Attempt job producer command recorded)
    (hh : hands producer command) : HandedBy hands job recorded := by
  cases h
  case sent     => exact .single hh
  case unsent h => exact h.handedBy hh

theorem PolicyStep.handedBy (h : PolicyStep l recorded l') : HandedBy l.Hands l.job recorded := by
  cases h
  case send next        => exact .single (.policy _ next)
  case fail next h _    =>
    exact (h.handedBy (.policy _ next)).append (HandedBy.nil.cons_other rfl)
  case abortDone h _    => exact (HandedBy.of_silent h).cons_other rfl
  case finishDone h _ _ => exact (HandedBy.of_silent h).cons_other rfl
  case pauseDone        => exact HandedBy.nil.cons_other rfl
  case resumeDone       => exact HandedBy.nil.cons_other rfl
  case heat next        => exact .single (.policy _ next)
  case leftover next    => exact .single (.policy _ next)
  case probe h          => exact .single (.pauseProbe h)
  case probeFail hp h   => exact h.handedBy (.pauseProbe hp)
  case probed           => exact .nil
  case unprobed         => exact .nil

theorem QueueStep.handedBy (hh : ∀ command, l.queue → hands .gcodeQueue command)
    (h : QueueStep l recorded l') : HandedBy hands l.job recorded := by
  cases h
  case send ha _ _ => exact .single (hh _ ha)
  case fail ha _ h => exact h.handedBy (hh _ ha)
  case done        => exact .nil

theorem StreamStep.handedBy (hs : Streams l) (h : StreamStep l recorded l') :
    HandedBy l.Hands l.job recorded := by
  cases h
  case prepare        => exact .single (.streamer hs)
  case prepareFail h  => exact h.handedBy (.streamer hs)
  case stage _ h      => exact .of_silent h
  case readFail h     => exact .of_silent h
  case finish         => exact .nil
  case stream         => exact .single (.streamer hs)
  case streamFail h h' => exact (h'.handedBy (.streamer hs)).append (.of_silent h)

theorem PollStep.handedBy (h : PollStep l recorded l') : HandedBy l.Hands l.job recorded := by
  cases h
  case silent h          => exact .of_silent h
  case line h _          => exact (HandedBy.of_silent h).cons_other rfl
  case error             => exact .nil
  case abort h _         => exact (HandedBy.of_silent h).cons_other rfl
  case dropAbort         => exact .nil
  case policy h          => exact h.handedBy
  case manual            => exact .nil
  case probe hc h        => exact h.handedBy (.statusProbe hc)
  case wait              => exact .nil

theorem JobStep.handedBy (h : JobStep l recorded l') : HandedBy l.Hands l.job recorded := by
  cases h
  case poll h            => exact h.handedBy
  case queue hb h        => exact h.handedBy fun _ ha => .gcodeQueue ha hb
  case errorExit _ _ _ _ h =>
    refine .append ?_ (.of_silent h)
    unfold dropFinish
    split
    case isTrue  => exact HandedBy.nil.cons_other rfl
    case isFalse => exact .nil
  case streaming         => exact .nil
  case stream hs h       => exact h.handedBy hs

end Hands

end Deneb.Lifecycle
