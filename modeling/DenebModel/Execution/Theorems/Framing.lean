import DenebModel.Execution.Theorems.Fault
import DenebModel.Primitives.LineStream

namespace Deneb

open CString LineStream

-- The bytes among the results of some reads.
def received (reads : List SerialRead) : List UInt8 :=
  reads.filterMap fun
    | .byte b => some b
    | _       => none

-- The lines of a stream as C strings.
def textLines (stream : List UInt8) : List CString :=
  (lines 10 stream).map (·.takeWhile (· ≠ 0))

-- What the controller has sent and the observer has not seen: the unfinished line of the transport,
-- and the bytes that are still to be read, without carriage returns.
def SerialTransport.stream (serial : SerialTransport) : List UInt8 :=
  serial.rxBuf ++ (received serial.input).filter (· ≠ 13)

-- The bytes in the transport are the beginning of a line, and no line fills the receive buffer.
structure SerialTransport.Framed (serial : SerialTransport) : Prop where
  partial_line : 10 ∉ serial.rxBuf
  short        : Short 10 serialLine serial.stream

-- From one transport to another some lines have been taken off the stream.
structure Takes (serial : SerialTransport) (texts : List CString) (serial' : SerialTransport) : Prop where
  texts      : textLines serial.stream = texts ++ textLines serial'.stream
  unfinished : unfinished 10 serial'.stream = unfinished 10 serial.stream
  framed     : serial'.Framed
  isOpen     : serial'.isOpen = serial.isOpen
  reads      : serial'.input.length ≤ serial.input.length

variable {serial serial' serial'' : SerialTransport} {texts texts' : List CString} {rx front back : List UInt8}
variable {reads : List SerialRead}

theorem Takes.refl (h : serial.Framed) : Takes serial [] serial :=
  ⟨rfl, rfl, h, rfl, Nat.le_refl _⟩

theorem Takes.trans (h : Takes serial texts serial') (h' : Takes serial' texts' serial'') :
    Takes serial (texts ++ texts') serial'' where
  texts      := by rw [h.texts, h'.texts, List.append_assoc]
  unfinished := h'.unfinished.trans h.unfinished
  framed     := h'.framed
  isOpen     := h'.isOpen.trans h.isOpen
  reads      := h'.reads.trans h.reads

theorem textLines_front (h : 10 ∉ front) :
    textLines (front ++ 10 :: back) =
      ([front].filter (· ≠ [])).map (·.takeWhile (· ≠ 0)) ++ textLines back := by
  rw [textLines, lines_front h, List.map_append]
  rfl

theorem received_byte {b : UInt8} (h : b ≠ 13) :
    (received (.byte b :: reads)).filter (· ≠ 13) = b :: (received reads).filter (· ≠ 13) := by
  simp [received, h]

theorem received_return :
    (received (.byte 13 :: reads)).filter (· ≠ 13) = (received reads).filter (· ≠ 13) := by
  simp [received]

namespace SerialTransport

-- By induction on the reads: a byte is dropped, ends the line, or is one more of the unfinished line.
theorem readLoop_takes (hp : 10 ∉ rx)
    (hs : Short 10 serialLine (rx ++ (received reads).filter (· ≠ 13))) :
    let r := readLoop serialLine reads rx
    let left := r.2.2.1 ++ (received r.2.2.2).filter (· ≠ 13)
    textLines (rx ++ (received reads).filter (· ≠ 13)) =
      (if 0 < r.1 then [r.2.1] else []) ++ textLines left ∧
    LineStream.unfinished 10 left = LineStream.unfinished 10 (rx ++ (received reads).filter (· ≠ 13)) ∧
    10 ∉ r.2.2.1 ∧ Short 10 serialLine left ∧ r.2.2.2.length ≤ reads.length - 1 := by
  induction reads generalizing rx
  case nil => exact ⟨rfl, rfl, hp, hs, Nat.le_refl _⟩
  case cons read reads ih =>
    cases read
    case noData  => exact ⟨rfl, rfl, hp, hs, Nat.le_refl _⟩
    case failure => exact ⟨rfl, rfl, hp, hs, Nat.le_refl _⟩
    case byte b =>
      by_cases hr : b = 13
      case pos =>
        subst hr
        rw [received_return] at hs ⊢
        have ⟨h₁, h₂, h₃, h₄, h₅⟩ := ih hp hs
        rw [readLoop, if_pos rfl]
        exact ⟨h₁, h₂, h₃, h₄, h₅.trans (Nat.sub_le _ _)⟩
      case neg =>
        rw [received_byte hr] at hs ⊢
        by_cases hn : b = 10
        case pos =>
          subst hn
          have full : rx.take (serialLine - 1) = rx := by
            have := hs.front_short hp
            exact List.take_of_length_le (by omega)
          rw [readLoop, if_neg hr, if_pos rfl, full]
          refine ⟨?_, (unfinished_front hp).symm, List.not_mem_nil, hs.behind hp, Nat.le_refl _⟩
          rw [textLines_front hp]
          cases rx <;> simp
        case neg =>
          have next : rx ++ b :: (received reads).filter (· ≠ 13) =
              rx ++ [b] ++ (received reads).filter (· ≠ 13) := by simp
          have clean : 10 ∉ rx ++ [b] := by simp [hp, Ne.symm hn]
          rw [next] at hs ⊢
          have free : rx.length + 1 < serialLine := by
            have := hs.front_short clean
            rwa [List.length_append] at this
          have ⟨h₁, h₂, h₃, h₄, h₅⟩ := ih clean hs
          rw [readLoop, if_neg hr, if_neg hn, if_pos free]
          exact ⟨h₁, h₂, h₃, h₄, h₅.trans (Nat.sub_le _ _)⟩

theorem readLine_takes (h : serial.Framed) (ho : serial.isOpen) :
    let r := serial.readLine serialLine
    Takes serial (if 0 < r.1 then [r.2.1] else []) r.2.2 ∧
      r.2.2.input.length ≤ serial.input.length - 1 := by
  have ⟨h₁, h₂, h₃, h₄, h₅⟩ := readLoop_takes h.partial_line h.short
  unfold readLine
  rw [if_neg (by simp [ho])]
  exact ⟨⟨h₁, h₂, ⟨h₃, h₄⟩, rfl, h₅.trans (Nat.sub_le _ _)⟩, h₅⟩

-- Nothing is read, and what is left of the stream is the same.
structure SameReads (serial serial' : SerialTransport) : Prop where
  rxBuf  : serial'.rxBuf = serial.rxBuf
  input  : serial'.input = serial.input
  isOpen : serial'.isOpen = serial.isOpen

theorem SameReads.refl : SameReads serial serial := ⟨rfl, rfl, rfl⟩

theorem SameReads.trans (h : SameReads serial serial') (h' : SameReads serial' serial'') :
    SameReads serial serial'' :=
  ⟨h'.rxBuf.trans h.rxBuf, h'.input.trans h.input, h'.isOpen.trans h.isOpen⟩

theorem SameReads.stream_eq (h : SameReads serial serial') : serial'.stream = serial.stream := by
  rw [stream, stream, h.rxBuf, h.input]

theorem SameReads.takes (h : SameReads serial serial') (hf : serial.Framed) : Takes serial [] serial' where
  texts      := by rw [h.stream_eq]; rfl
  unfinished := by rw [h.stream_eq]
  framed     := ⟨h.rxBuf ▸ hf.partial_line, h.stream_eq ▸ hf.short⟩
  isOpen     := h.isOpen
  reads      := by rw [h.input]

theorem sameReads_writeAll {data : List UInt8} : SameReads serial (serial.writeAll data).2 := by
  unfold writeAll
  split <;> exact ⟨rfl, rfl, rfl⟩

end SerialTransport

open SerialTransport

namespace MotionSender

variable {flow : FlowControl}

theorem sameReads_resendSequence {ready : Bool} {sequence : UInt8} :
    SameReads serial (resendSequence flow serial ready sequence).2 := by
  unfold resendSequence
  split
  case h_1 => exact .refl
  case h_2 =>
    split
    case isTrue  => exact .refl
    case isFalse => exact sameReads_writeAll

theorem sameReads_resendLoop {rounds : Nat} {emitted : List Nat} :
    SameReads serial (resendLoop flow rounds serial emitted).2 := by
  induction rounds generalizing serial emitted
  case zero => exact .refl
  case succ rounds ih =>
    unfold resendLoop
    split
    case h_1 => exact .refl
    case h_2 =>
      dsimp only
      split
      case isTrue  => exact sameReads_resendSequence
      case isFalse => exact sameReads_resendSequence.trans ih

theorem sameReads_resendPending {ready : Bool} : SameReads serial (resendPending flow serial ready).2 := by
  unfold resendPending
  split
  case isTrue => exact .refl
  case isFalse =>
    dsimp only
    split
    case isTrue  => exact sameReads_writeAll
    case isFalse => exact sameReads_writeAll.trans sameReads_resendLoop

theorem sameReads_sendGcode {ready : Bool} {line : CString} :
    SameReads serial (sendGcode flow serial ready line).serial := by
  unfold sendGcode
  split
  case isTrue => exact .refl
  case isFalse =>
    dsimp only
    split
    case isTrue => exact .refl
    case isFalse =>
      split
      case isTrue  => exact .refl
      case isFalse => exact sameReads_writeAll

end MotionSender

-- The lines that the observer was handed.
def Event.text : Event → Option CString
  | .line text => some text
  | _          => none

namespace Service

open MotionSender

def observed (s : Service) : List CString :=
  s.trace.filterMap Event.text

-- Some lines were handed to the observer, and taken off the stream.
structure Hands (s : Service) (texts : List CString) (s' : Service) : Prop where
  takes    : Takes s.serial texts s'.serial
  observed : s'.observed = s.observed ++ texts
  ready    : s'.serialReady = s.serialReady

-- A step of the service that does not read from the serial port.
structure LeavesReads (s s' : Service) : Prop where
  serial   : SameReads s.serial s'.serial
  observed : s'.observed = s.observed
  ready    : s'.serialReady = s.serialReady

-- Some polls of the serial port, and between them steps that do not read from it.
inductive Polls : Nat → Service → Service → Prop
  | done : Polls 0 s s
  | poll : Polls n s s₁ → Polls (n + 1) s s₁.pollRuntime.2
  | other : Polls n s s₁ → LeavesReads s₁ s₂ → Polls n s s₂

variable {s s' : Service} {allow : Bool} {n rounds : Nat} {handled : Int}

theorem Hands.trans {s'' : Service} (h : Hands s texts s') (h' : Hands s' texts' s'') :
    Hands s (texts ++ texts') s'' where
  takes    := h.takes.trans h'.takes
  observed := by rw [h'.observed, h.observed, List.append_assoc]
  ready    := h'.ready.trans h.ready

theorem LeavesReads.hands (h : LeavesReads s s') (hf : s.serial.Framed) : Hands s [] s' where
  takes    := h.serial.takes hf
  observed := by rw [h.observed, List.append_nil]
  ready    := h.ready

theorem text_of_silent {e : Event} (h : e.isSilent) : e.text = none := by
  cases e
  all_goals first | rfl | contradiction

theorem filterMap_silent {events : List Event} (h : ∀ e ∈ events, e.isSilent) :
    events.filterMap Event.text = [] :=
  List.filterMap_eq_nil_iff.mpr fun e he => text_of_silent (h e he)

theorem leavesReads_reactToResponse {rc : Int} : LeavesReads s (s.reactToResponse allow rc).2 := by
  have same : LeavesReads s s := ⟨.refl, rfl, rfl⟩
  have resent : LeavesReads s s.resendPending.2 := ⟨sameReads_resendPending, rfl, rfl⟩
  have resynced : LeavesReads s s.resyncToExpected := by
    refine ⟨.refl, ?_, rfl⟩
    have silent : ∀ e ∈ s.flow.pendingSlots.map Event.resynced, e.isSilent := by simp [Event.isSilent]
    rw [observed, resyncToExpected, List.filterMap_append, filterMap_silent silent, List.append_nil]
    rfl
  have reported {s' : Service} (h : LeavesReads s s') (detail : CString) :
      LeavesReads s (s'.setSerialError detail) := ⟨h.serial, h.observed, h.ready⟩
  unfold reactToResponse
  dsimp only
  split_ifs
  · exact reported resent _
  · exact resent
  · exact reported resynced _
  · exact resynced
  · exact reported same _
  · exact same

-- A line is handed to the observer, and the reaction to its response reads nothing.
theorem round_leaves {text : CString} :
    let s' := ((s.handleLine text).2.reactToResponse allow (s.handleLine text).1).2
    SameReads s.serial s'.serial ∧ s'.observed = s.observed ++ [text] ∧ s'.serialReady = s.serialReady := by
  have reaction := @leavesReads_reactToResponse (s.handleLine text).2 allow (s.handleLine text).1
  have ⟨status, wait, flow, acks, he, silent, _⟩ := @handleLine_eq s text
  have line : (s.handleLine text).2.observed = s.observed ++ [text] := by
    rw [he, observed, observed, List.filterMap_append, List.filterMap_cons, filterMap_silent silent]
    rfl
  refine ⟨?_, reaction.observed.trans line, ?_⟩
  case refine_1 =>
    refine SameReads.trans ?_ reaction.serial
    rw [he]
    exact .refl
  case refine_2 => rw [reaction.ready, he]

theorem readLine_hands (hf : s.serial.Framed) (ho : s.serial.isOpen) :
    Takes s.serial (if 0 < s.readLine.1 then [s.readLine.2.1] else []) s.readLine.2.2.serial ∧
      s.readLine.2.2.serial.input.length ≤ s.serial.input.length - 1 ∧
      s.readLine.2.2.observed = s.observed ∧ s.readLine.2.2.serialReady = s.serialReady := by
  have ⟨h, hl⟩ := readLine_takes hf ho
  exact ⟨h, hl, rfl, rfl⟩

-- By induction on the rounds of the loop, each of which reads.
theorem runtimeLoop_hands (hf : s.serial.Framed) (ho : s.serial.isOpen) :
    ∃ texts, Hands s texts (runtimeLoop allow rounds handled s).2 ∧
      (rounds ≠ 0 →
        (runtimeLoop allow rounds handled s).2.serial.input.length ≤ s.serial.input.length - 1) := by
  induction rounds generalizing s handled
  case zero => exact ⟨[], ⟨.refl hf, (List.append_nil _).symm, rfl⟩, fun h => absurd rfl h⟩
  case succ rounds ih =>
    obtain ⟨takes, shorter, kept, ready⟩ := readLine_hands hf ho
    have nothing (h : ¬0 < s.readLine.1) : Hands s [] s.readLine.2.2 := by
      rw [if_neg h] at takes
      exact ⟨takes, by rw [kept, List.append_nil], ready⟩
    simp only [runtimeLoop]
    split
    case isTrue hn => exact ⟨[], nothing (by omega), fun _ => shorter⟩
    case isFalse hn =>
      split
      case isTrue hz => exact ⟨[], nothing (by omega), fun _ => shorter⟩
      case isFalse hz =>
        rw [if_pos (by omega)] at takes
        obtain ⟨same, seen, ready'⟩ := @round_leaves s.readLine.2.2 allow s.readLine.2.1
        generalize (s.readLine.2.2.handleLine s.readLine.2.1).2.reactToResponse allow
          (s.readLine.2.2.handleLine s.readLine.2.1).1 = r at same seen ready' ⊢
        have round : Hands s [s.readLine.2.1] r.2 := by
          refine ⟨?_, by rw [seen, kept], ready'.trans ready⟩
          exact takes.trans (same.takes takes.framed)
        have fewer : r.2.serial.input.length ≤ s.serial.input.length - 1 := same.input ▸ shorter
        split
        case isFalse => exact ⟨_, round, fun _ => fewer⟩
        case isTrue =>
          obtain ⟨texts, hands, _⟩ := @ih r.2 (handled + 1) round.takes.framed (round.takes.isOpen ▸ ho)
          exact ⟨_, round.trans hands, fun _ => hands.takes.reads.trans fewer⟩

theorem pollRuntime_hands (hf : s.serial.Framed) (ho : s.serial.isOpen) (hr : s.serialReady) :
    ∃ texts, Hands s texts s.pollRuntime.2 ∧
      s.pollRuntime.2.serial.input.length ≤ s.serial.input.length - 1 := by
  unfold pollRuntime
  rw [if_neg (by simp [hr])]
  have ⟨texts, hands, shorter⟩ := @runtimeLoop_hands s s.allowSequenceResync
    (s.serial.input.length + 1) 0 hf ho
  exact ⟨texts, hands, shorter (Nat.succ_ne_zero _)⟩

-- What the service sends between two polls.
theorem leavesReads_send {p : Producer} {command : CString} : LeavesReads s (s.send p command).2 := by
  refine ⟨sameReads_sendGcode, ?_, rfl⟩
  rw [observed, observed, send, List.filterMap_append]
  refine (congrArg (_ ++ ·) ?_).trans (List.append_nil _)
  split
  case h_1 => rfl
  case h_2 => split <;> rfl

theorem exists_polls : ∃ s', Polls n s s' := by
  induction n
  case zero => exact ⟨s, .done⟩
  case succ ih =>
    have ⟨_, h⟩ := ih
    exact ⟨_, h.poll⟩

-- By induction on the polls, each of which takes a read off the input.
theorem Polls.hands (h : Polls n s s') (hf : s.serial.Framed) (ho : s.serial.isOpen) (hr : s.serialReady) :
    ∃ texts, Hands s texts s' ∧ s'.serial.input.length ≤ s.serial.input.length - n := by
  induction h
  case done => exact ⟨[], ⟨.refl hf, (List.append_nil _).symm, rfl⟩, Nat.le_refl _⟩
  case poll ih =>
    have ⟨texts, hands, fewer⟩ := ih hf ho hr
    have ⟨texts', hands', fewer'⟩ := pollRuntime_hands hands.takes.framed (hands.takes.isOpen ▸ ho)
      (hands.ready ▸ hr)
    exact ⟨_, hands.trans hands', by omega⟩
  case other step ih =>
    have ⟨texts, hands, fewer⟩ := ih hf ho hr
    exact ⟨_, hands.trans (step.hands hands.takes.framed), by rw [step.serial.input]; exact fewer⟩

theorem observed_lines (h : Polls n s s') (hf : s.serial.Framed) (ho : s.serial.isOpen) (hr : s.serialReady) :
    s'.observed ++ textLines s'.serial.stream = s.observed ++ textLines s.serial.stream ∧
    unfinished 10 s'.serial.stream = unfinished 10 s.serial.stream ∧
    (s.serial.input.length ≤ n →
      s'.observed = s.observed ++ textLines s.serial.stream ∧
      s'.serial.rxBuf = unfinished 10 s.serial.stream) := by
  have ⟨texts, hands, fewer⟩ := h.hands hf ho hr
  have whole : s'.observed ++ textLines s'.serial.stream = s.observed ++ textLines s.serial.stream := by
    rw [hands.observed, hands.takes.texts, List.append_assoc]
  refine ⟨whole, hands.takes.unfinished, fun hn => ?_⟩
  have drained : s'.serial.input = [] := List.length_eq_zero_iff.mp (by omega)
  have left : s'.serial.stream = s'.serial.rxBuf := by
    rw [SerialTransport.stream, drained]
    exact List.append_nil _
  have clean := hands.takes.framed.partial_line
  have rest := hands.takes.unfinished
  rw [left, textLines, lines_of_notMem clean, List.map_nil, List.append_nil] at whole
  rw [left, unfinished_of_notMem clean] at rest
  exact ⟨whole, rest⟩

def withInput (reads : List SerialRead) : Service :=
  { serial := { isOpen := true, input := reads }, serialReady := true }

-- "ok" in two polls, an empty line, and the beginning of another line.
theorem observed_ok :
    let reads := [.byte 111, .noData, .byte 107, .byte 13, .byte 10, .byte 10, .byte 113]
    let s := withInput reads
    ∃ s', Polls 7 s s' ∧ s'.observed = ["ok"] ∧ s'.serial.rxBuf = [113] := by
  intro reads s
  have ⟨s', h⟩ := @exists_polls s 7
  have ⟨_, _, drained⟩ := observed_lines h ⟨by decide, by unfold Short; decide⟩ rfl rfl
  have ⟨seen, kept⟩ := drained (by decide)
  exact ⟨s', h, seen.trans (by decide), kept.trans (by decide)⟩

-- The observer does not see what is behind a NUL byte.
theorem observed_cut :
    let s := withInput [.byte 97, .byte 0, .byte 98, .byte 10]
    s.pollRuntime.2.observed = [[97]] ∧ lines 10 s.serial.stream = [[97, 0, 98]] := by
  decide +kernel

end Service
end Deneb
