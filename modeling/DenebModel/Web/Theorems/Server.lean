import DenebModel.Web.Server
import Mathlib.Data.List.Perm.Basic
import Mathlib.Data.List.Nodup

namespace Deneb.Server

open CString Http

variable {fd fd' : Fd} {clients : List Fd} {s s' : State} {other : Handlers} {e : Event}
  {events : List Event} {failed : Fd → Bool}

section WithoutClient

theorem getLast_set {i : Nat} {last : Fd} (h : clients.getLast? = some last) :
    (clients.set i last).getLast? = some last := by
  rw [List.getLast?_eq_getElem?] at h ⊢
  rw [List.length_set, List.getElem?_set]
  split
  case isTrue hi =>
    subst hi
    simp [List.getElem?_eq_some_iff.mp h |>.choose]
  case isFalse => exact h

-- Up to the order, the client is erased.
theorem withoutClient_perm : (withoutClient fd clients).Perm (clients.erase fd) := by
  rw [withoutClient]
  split
  case h_1 i last hi hl =>
    have ⟨hlt, _⟩ := List.idxOf?_eq_some_iff.mp hi
    have erased : clients.erase fd = clients.eraseIdx i := by
      rw [List.erase_eq_eraseIdx, hi]
    have kept : (clients.set i last).dropLast ++ [last] = clients.set i last :=
      List.dropLast_append_getLast? last (getLast_set hl)
    have moved : ((clients.set i last).dropLast ++ [last]).Perm (last :: clients.eraseIdx i) := by
      rw [kept]
      exact List.set_perm_cons_eraseIdx hlt last
    rw [erased]
    exact (List.perm_cons last).mp ((List.perm_append_singleton last _).symm.trans moved)
  case h_2 h =>
    have absent : fd ∉ clients := by
      intro hm
      obtain ⟨i, hi⟩ := Option.ne_none_iff_exists'.mp fun hn => List.idxOf?_eq_none_iff.mp hn hm
      obtain ⟨last, hl⟩ := Option.ne_none_iff_exists'.mp fun hn =>
        List.ne_nil_of_mem hm (List.getLast?_eq_none_iff.mp hn)
      exact h i last hi hl
    rw [List.erase_of_not_mem absent]

theorem mem_withoutClient (h : clients.Nodup) : fd' ∈ withoutClient fd clients ↔ fd' ≠ fd ∧ fd' ∈ clients := by
  rw [withoutClient_perm.mem_iff]
  exact h.mem_erase_iff

end WithoutClient

section Invariant

-- Every open descriptor of a client waits for a request, or is listed once, and the list has
-- open descriptors only, within its limit.
structure State.Served (s : State) : Prop where
  placed : ∀ fd i, s.interest fd = some i →
    i = .input ∧ fd ∉ s.sseClients ∨ i = .hangup ∧ s.sseClients.count fd = 1
  limit  : s.sseClients.length ≤ maxSseClients
  opened : ∀ fd ∈ s.sseClients, (s.interest fd).isSome

-- What holds in every state: no descriptor is listed twice, and those in the list are open.
structure State.Listed (s : State) : Prop where
  limit : s.sseClients.length ≤ maxSseClients
  once  : s.sseClients.Nodup
  hung  : ∀ fd ∈ s.sseClients, s.interest fd = some .hangup

-- An open descriptor that no request is read from, and to which nothing is pushed.
def State.Orphan (s : State) (fd : Fd) : Prop :=
  s.interest fd = some .hangup ∧ fd ∉ s.sseClients

theorem State.Listed.served_iff (h : s.Listed) : s.Served ↔ ∀ fd, ¬s.Orphan fd := by
  constructor
  case mp =>
    rintro hs fd ⟨hi, hm⟩
    rcases hs.placed fd .hangup hi with ⟨hc, -⟩ | ⟨-, hc⟩
    case inl => contradiction
    case inr => exact hm (List.count_pos_iff.mp (hc ▸ Nat.one_pos))
  case mpr =>
    intro ho
    refine ⟨fun fd i hi => ?_, h.limit, fun fd hm => by rw [h.hung fd hm]; rfl⟩
    cases i
    case input  => exact .inl ⟨rfl, fun hm => by simp [h.hung fd hm] at hi⟩
    case hangup =>
      have listed : fd ∈ s.sseClients := by
        by_contra hm
        exact ho fd ⟨hi, hm⟩
      exact .inr ⟨rfl, List.count_eq_one_of_mem h.once listed⟩

-- A descriptor that is not an orphan is closed and taken out of the list.
theorem State.Listed.drop (h : s.Listed) : ((s.close fd).removeClient fd).Listed where
  limit := by
    have fewer : (withoutClient fd s.sseClients).length ≤ s.sseClients.length :=
      withoutClient_perm.length_eq.trans_le List.length_erase_le
    exact fewer.trans h.limit
  once := withoutClient_perm.nodup_iff.mpr (h.once.erase fd)
  hung x hx := by
    have ⟨hn, hm⟩ := (mem_withoutClient h.once).mp hx
    exact (Function.update_of_ne hn ..).trans (h.hung x hm)

theorem State.Listed.orphan_drop (h : s.Listed) (ho : ¬s.Orphan fd) :
    ((s.close fd).removeClient fd).Orphan fd' ↔ s.Orphan fd' := by
  change Function.update s.interest fd none fd' = _ ∧ fd' ∉ withoutClient fd s.sseClients ↔ _
  rw [mem_withoutClient h.once]
  by_cases he : fd' = fd
  case pos =>
    subst he
    simp [ho]
  case neg => simp [State.Orphan, Function.update_of_ne he, he]

theorem State.Listed.pushFrom (h : s.Listed) (failed : Fd → Bool) (left i : Nat) :
    (s.pushFrom failed left i).Listed ∧ ∀ fd, (s.pushFrom failed left i).Orphan fd ↔ s.Orphan fd := by
  induction left generalizing s i
  case zero => exact ⟨h, fun _ => .rfl⟩
  case succ left ih =>
    rw [State.pushFrom]
    split
    case h_1 => exact ⟨h, fun _ => .rfl⟩
    case h_2 fd hi =>
      have not_orphan : ¬s.Orphan fd := fun ho => ho.right (List.mem_of_getElem? hi)
      split
      case isTrue =>
        have dropped : ((s.close fd).removeClient fd).Listed := h.drop
        have ⟨hl, ho⟩ := ih dropped i
        exact ⟨hl, fun x => (ho x).trans (h.orphan_drop not_orphan)⟩
      case isFalse => exact ih h (i + 1)

theorem State.Listed.absent (h : s.Listed) (hi : s.interest fd ≠ some .hangup) : fd ∉ s.sseClients :=
  fun hm => hi (h.hung fd hm)

-- The interest of a descriptor that is not listed changes, to another one than hanging up.
theorem State.Listed.update (h : s.Listed) (hi : s.interest fd ≠ some .hangup) {i : Option Interest}
    (hn : i ≠ some .hangup) :
    { s with interest := Function.update s.interest fd i }.Listed ∧
      ∀ x, { s with interest := Function.update s.interest fd i }.Orphan x ↔ s.Orphan x := by
  refine ⟨⟨h.limit, h.once, fun x hx => ?_⟩, fun x => ?_⟩
  case refine_1 =>
    have ne : x ≠ fd := ne_of_mem_of_not_mem hx (h.absent hi)
    exact (Function.update_of_ne ne ..).trans (h.hung x hx)
  case refine_2 =>
    by_cases he : x = fd
    case pos =>
      subst he
      simp [State.Orphan, hn, hi]
    case neg => simp [State.Orphan, he]

theorem State.Listed.registerClient (h : s.Listed) (hi : s.interest fd ≠ some .hangup) :
    ((s.wait fd .hangup).registerClient fd).Listed ∧
      ∀ x, ((s.wait fd .hangup).registerClient fd).Orphan x ↔
        s.Orphan x ∨ fd = x ∧ maxSseClients ≤ s.sseClients.length := by
  have absent := h.absent hi
  have hung (x : Fd) : Function.update s.interest fd (some .hangup) x = some .hangup ↔
      x = fd ∨ s.interest x = some .hangup := by
    by_cases he : x = fd
    case pos => simp [he]
    case neg => simp [Function.update_of_ne he, he]
  rw [State.registerClient]
  split
  case isTrue hf =>
    refine ⟨⟨h.limit, h.once, fun x hx => (hung x).mpr (.inr (h.hung x hx))⟩, fun x => ?_⟩
    change Function.update s.interest fd (some .hangup) x = _ ∧ x ∉ s.sseClients ↔ _
    rw [hung]
    by_cases he : x = fd
    case pos =>
      subst he
      exact iff_of_true ⟨.inl rfl, absent⟩ (.inr ⟨rfl, hf⟩)
    case neg => simp [State.Orphan, he, Ne.symm he]
  case isFalse hf =>
    have room : s.sseClients.length < maxSseClients := Nat.lt_of_not_le hf
    refine ⟨⟨?_, ?_, fun x hx => (hung x).mpr ?_⟩, fun x => ?_⟩
    case refine_1 =>
      rw [List.length_append]
      exact room
    case refine_2 => exact (List.nodup_append_comm.trans List.nodup_cons).mpr ⟨absent, h.once⟩
    case refine_3 =>
      rcases List.mem_append.mp hx with hx | hx
      case inl => exact .inr (h.hung x hx)
      case inr => exact .inl (List.mem_singleton.mp hx)
    case refine_4 =>
      change Function.update s.interest fd (some .hangup) x = _ ∧ x ∉ s.sseClients ++ [fd] ↔ _
      rw [hung]
      by_cases he : x = fd
      case pos =>
        subst he
        simp [State.Orphan, hi, Nat.not_le_of_lt room]
      case neg => simp [State.Orphan, he, Ne.symm he]

end Invariant

section Stream

variable {env : Env} {auth : Auth.State} {data : List UInt8}

-- A request for the events that may watch them.
def streams (env : Env) (auth : Auth.State) (data : List UInt8) : Bool :=
  match parse data with
  | none     => false
  | some req => findRoute req == some eventsRoute && mayWatch auth env.now req

theorem method_of_route {req : Request} (h : findRoute req = some eventsRoute) : req.method = ofString "GET" := by
  have := List.find?_some h
  simp only [Bool.and_eq_true, beq_iff_eq] at this
  exact this.left.symm

theorem route_isSse {req : Request} :
    (route (handlers other env) env.now env.random auth req {}).1.isSse =
      (findRoute req == some eventsRoute && mayWatch auth env.now req) := by
  cases hr : findRoute req
  case none =>
    simp only [route, hr]
    split
    case isTrue => rfl
    case isFalse => split <;> rfl
  case some r =>
    by_cases he : r = eventsRoute
    case pos =>
      subst he
      simp only [route, hr, eventsRoute, Bool.false_and, Bool.false_eq_true, if_false, handlers, if_true,
        beq_self_eq_true, Bool.true_and, eventsGet]
      cases mayWatch auth env.now req <;> rfl
    case neg =>
      have other_route : (some r == some eventsRoute) = false := by simpa using he
      rw [other_route, Bool.false_and]
      simp only [route, hr]
      split
      case isTrue  => rfl
      case isFalse => simp only [handlers, if_neg he]

theorem respond_isSse : (respond other env auth data).1.isSse = streams env auth data := by
  cases hp : parse data
  case none => simp only [respond, streams, hp, Response.setBody]
  case some req =>
    simp only [respond, streams, hp]
    split
    case isTrue hu =>
      have post : req.method = ofString "POST" := by
        simp only [Bool.and_eq_true, beq_iff_eq] at hu
        exact hu.left.right
      have not_events : findRoute req ≠ some eventsRoute := fun he =>
        absurd ((method_of_route he).symm.trans post) (by decide)
      simp [Response.setBody, not_events]
    case isFalse => exact route_isSse

end Stream

section Run

-- An allowed request for the events comes from a client when the list is full.
def State.Crowds (s : State) : Event → Fd → Prop
  | .ready fd true (.data bytes env), fd' =>
    fd = fd' ∧ streams env s.auth bytes ∧ maxSseClients ≤ s.sseClients.length
  | _, _ => False

theorem State.Listed.handleClient (h : s.Listed) (hi : s.interest fd = some .input) {read : Read} :
    (s.handleClient other fd read).Listed ∧
      ∀ x, (s.handleClient other fd read).Orphan x ↔ s.Orphan x ∨ s.Crowds (.ready fd true read) x := by
  have waits : s.interest fd ≠ some .hangup := by simp [hi]
  cases read
  case again  => exact ⟨h, fun x => (or_iff_left not_false).symm⟩
  case closed =>
    have not_orphan : ¬s.Orphan fd := fun ho => waits ho.left
    exact ⟨h.drop, fun x => (h.orphan_drop not_orphan).trans (or_iff_left not_false).symm⟩
  case data bytes env =>
    have sse := @respond_isSse other env s.auth bytes
    have h' : { s with auth := (respond other env s.auth bytes).2 }.Listed := ⟨h.limit, h.once, h.hung⟩
    simp only [State.handleClient, State.Crowds]
    rw [sse]
    cases streams env s.auth bytes
    case true =>
      simp only [if_true, true_and]
      exact h'.registerClient waits
    case false =>
      simp only [Bool.false_eq_true, if_false, false_and, and_false, or_false]
      split
      case isTrue  => exact ⟨h', fun _ => .rfl⟩
      case isFalse => exact h'.update waits nofun

-- A step makes an orphan of the client whose request it is, if the list is full, and of no other.
theorem State.Listed.step (h : s.Listed) (hs : s.step other e = some s') :
    s'.Listed ∧ ∀ fd, s'.Orphan fd ↔ s.Orphan fd ∨ s.Crowds e fd := by
  cases e
  case accept fd added =>
    simp only [State.step] at hs
    split at hs
    case isTrue => contradiction
    case isFalse hn =>
      have closed : s.interest fd ≠ some .hangup := fun hh => hn (by rw [hh]; rfl)
      split at hs
      case isTrue =>
        obtain rfl := Option.some.inj hs
        have ⟨hl, ho⟩ := h.update closed (i := some .input) nofun
        exact ⟨hl, fun x => (ho x).trans (or_iff_left not_false).symm⟩
      case isFalse =>
        obtain rfl := Option.some.inj hs
        exact ⟨h, fun x => (or_iff_left not_false).symm⟩
  case ready fd input read =>
    simp only [State.step] at hs
    split at hs
    case h_1 | h_2 => contradiction
    case h_3 hi =>
      obtain rfl := Option.some.inj hs
      exact h.handleClient hi
    case h_4 =>
      obtain rfl := Option.some.inj hs
      exact ⟨h, fun x => (or_iff_left not_false).symm⟩
  case push status failed =>
    obtain rfl := Option.some.inj hs
    rw [State.pushStatus]
    split
    case isTrue => exact ⟨h, fun x => (or_iff_left not_false).symm⟩
    case isFalse =>
      have ⟨hl, ho⟩ := h.pushFrom failed s.sseClients.length 0
      exact ⟨hl, fun x => (ho x).trans (or_iff_left not_false).symm⟩

-- In no step of the run does such a request come.
def State.Calm (other : Handlers) (s : State) : List Event → Prop
  | []      => True
  | e :: es => (∀ fd, ¬s.Crowds e fd) ∧ ∀ s' ∈ s.step other e, s'.Calm other es

theorem State.Listed.run (h : s.Listed) (hr : s.run other events = some s') :
    s'.Listed ∧ ((∀ fd, ¬s'.Orphan fd) ↔ (∀ fd, ¬s.Orphan fd) ∧ s.Calm other events) := by
  induction events generalizing s
  case nil =>
    obtain rfl := Option.some.inj hr
    exact ⟨h, (and_iff_left trivial).symm⟩
  case cons e es ih =>
    obtain ⟨s₁, hs, hr⟩ := Option.bind_eq_some_iff.mp hr
    have ⟨h₁, ho⟩ := h.step hs
    have ⟨h', hc⟩ := ih h₁ hr
    refine ⟨h', hc.trans ?_⟩
    simp only [ho, not_or, forall_and, State.Calm, hs, Option.mem_some_iff, forall_eq', and_assoc]

theorem listed_init {auth : Auth.State} : State.Listed { auth := auth } :=
  ⟨Nat.zero_le _, List.nodup_nil, nofun⟩

-- The clients are all accounted for as long as no request for the events meets a full list.
theorem clients_served_iff {auth : Auth.State} (h : State.run other { auth := auth } events = some s) :
    s.Served ↔ State.Calm other { auth := auth } events := by
  have ⟨hl, ho⟩ := listed_init.run h
  rw [hl.served_iff, ho]
  exact and_iff_right fun fd hf => nomatch hf.left

def noAnswer : Handlers := fun _ _ resp auth =>
  (resp, auth)

def watchRequest : List UInt8 :=
  ofString "GET /api/v1/deneb/events HTTP/1.1\r\n\r\n"

-- A client connects and asks for the events.
def watch (fd : Fd) : List Event :=
  [.accept fd true, .ready fd true (.data watchRequest {})]

theorem served_watch :
    ∃ s, State.run noAnswer {} (watch 7) = some s ∧ s.sseClients = [7] ∧ s.Served := by
  have ends : (State.run noAnswer {} (watch 7)).map (fun s => s.sseClients) = some [7] := by
    decide +kernel
  obtain ⟨s, hr, hc⟩ := Option.map_eq_some_iff.mp ends
  refine ⟨s, hr, hc, (clients_served_iff hr).mpr ?_⟩
  refine ⟨fun _ hf => hf, fun s₁ hs => ⟨fun fd hf => ?_, fun _ _ => trivial⟩⟩
  obtain rfl := Option.some.inj hs
  exact absurd hf.right.right (by decide)

-- The fifth client that watches is neither listed nor read from.
theorem fifth_orphaned :
    ∃ s, State.run noAnswer {} ([3, 4, 5, 6, 7].flatMap watch) = some s ∧
      s.sseClients = [3, 4, 5, 6] ∧ s.interest 7 = some .hangup ∧ ¬s.Served := by
  have ends : (State.run noAnswer {} ([3, 4, 5, 6, 7].flatMap watch)).map
      (fun s => (s.sseClients, s.interest 7)) = some ([3, 4, 5, 6], some .hangup) := by
    decide +kernel
  obtain ⟨s, hr, he⟩ := Option.map_eq_some_iff.mp ends
  obtain ⟨hc, hi⟩ := Prod.mk.inj he
  refine ⟨s, hr, hc, hi, fun hs => ?_⟩
  rcases hs.placed 7 .hangup hi with ⟨hn, -⟩ | ⟨-, hn⟩
  case inl => contradiction
  case inr => exact absurd (hc ▸ hn) (by decide)

end Run
end Deneb.Server
