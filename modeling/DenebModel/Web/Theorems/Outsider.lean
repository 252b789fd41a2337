import DenebModel.Web.Theorems.Access

-- What somebody without the password can do to a web interface that is closed.
namespace Deneb.Access

open CString Http History Noninterference

variable {W : Type} {sys : System W} {env : Env} {req : Request}
variable {s t : State W} {config : Option (List UInt8)} {world : W} {events : List Event}

-- An event that shows who sends it.
def State.Presents (sys : System W) (s : State W) : Event → Prop
  | .request req env => s.LogsIn sys req ∨ s.Answers env.now req
  | .restart         => False

def Event.guarded : Event → Bool
  | .request req _ => Access.guarded req
  | .restart       => false

-- As after the start, but for the nonces and the rest of the system.
def Untouched (config : Option (List UInt8)) (s : State W) : Prop :=
  s.forget = boot config s.world

theorem boot_untouched : Untouched config (boot config world) := by
  have fresh := @boot_fresh W config world
  rw [Untouched, fresh.world, State.forget, ← fresh.nonces]

theorem isDisabled_boot {world' : W} :
    (boot config world).auth.isDisabled = (boot config world').auth.isDisabled := by
  rw [boot_world]

theorem Untouched.isDisabled (h : Untouched config s) :
    s.auth.isDisabled = (boot config world).auth.isDisabled :=
  (congrArg (·.auth.isDisabled) h).trans isDisabled_boot

theorem Untouched.shut (h : Untouched config s) (closed : (boot config world).auth.isDisabled = false) :
    s.Shut where
  closed := h.isDisabled.trans closed
  tokens := (congrArg (·.auth.tokens) h).trans boot_fresh.tokens

theorem Untouched.config_eq (h : Untouched config s) : s.config = config :=
  (congrArg (·.config) h).trans boot_fresh.config

theorem Untouched.of_world (h : Untouched config s) : Untouched config { s with world } := by
  rw [Untouched, @boot_world W config world s.world, ← h]
  rfl

theorem Untouched.of_forget (h : Untouched config s) (same : t.forget = s.forget) : Untouched config t := by
  have worlds : t.world = s.world := congrArg (·.world) same
  rw [Untouched, same, worlds]
  exact h

section

variable (closed : (boot config world).auth.isDisabled = false)
include closed

theorem refused_of_outsider (h : Untouched config s) (silent : ¬s.Presents sys (.request req env))
    (hg : guarded req) : Refused s (s.route sys env req {}) :=
  have shut := h.shut closed
  refused_of_guarded hg shut.closed (checkAuth_eq_false shut fun answers => silent (.inr answers))

theorem untouched_route (h : Untouched config s) (silent : ¬s.Presents sys (.request req env)) :
    Untouched config (s.route sys env req {}).2 := by
  have shut := h.shut closed
  have checked := checkAuth_eq_false shut fun answers => silent (.inr answers)
  have disabled := shut.closed
  have complete := setupComplete_of_closed disabled
  have effect := @route_effect W sys env req {} s
  generalize (s.route sys env req {}).2 = s' at effect
  cases effect
  case kept                      => exact h
  case challenge                 => exact h.of_forget rfl
  case pair _ admitted           => simp [disabled, checked] at admitted
  case setUp setUp               =>
    have := setUp.allowed
    simp [complete, checked] at this
  case logIn logIn               => exact absurd (.inl logIn) silent
  case other                     => exact h.of_world

theorem outsider_unwinds (sys : System W) :
    Unwinds (State.step sys) State.forget Event.guarded (Untouched config) (fun s e => ¬s.Presents sys e) where
  keeps {s e} h silent := by
    cases e
    case request req env => exact untouched_route closed h silent
    case restart =>
      have := h.config_eq
      rw [State.step, this]
      exact boot_untouched
  respects {s e} h silent hg := by
    cases e
    case request req env => exact (refused_of_outsider closed h silent hg).kept
    case restart => cases hg
  agrees {s e t} h silent hg same := by
    cases e
    case request req env =>
      have left := @route_forget W sys env req {} s hg
      have right := @route_forget W sys env req {} t hg
      rw [State.step, State.step, left, right, same]
    case restart =>
      have configs : s.config = t.config := congrArg (·.config) same
      have worlds : s.world = t.world := congrArg (·.world) same
      rw [State.step, State.step, configs, worlds]

end

-- Without the password and without an answer to a challenge, every request for what is protected is
-- refused, the configuration and the sessions stay as they were at the start, and the rest of the
-- system is as if these requests had not been made.
theorem outsider_harmless (sys : System W) (config : Option (List UInt8)) (world : W) (events : List Event)
    (closed : (boot config world).auth.isDisabled = false)
    (outsider : Along (State.step sys) (fun s e => ¬s.Presents sys e) (boot config world) events) :
    (∀ before req env after, events = before ++ .request req env :: after → guarded req →
      Refused ((boot config world).run sys before)
        (((boot config world).run sys before).route sys env req {})) ∧
    Untouched config ((boot config world).run sys events) ∧
    ((boot config world).run sys events).world =
      ((boot config world).run sys (events.filter (!·.guarded))).world := by
  have unwinds := outsider_unwinds closed sys
  refine ⟨?refused, unwinds.inv_run boot_untouched outsider, ?world⟩
  case refused =>
    intro before req env after hs hg
    obtain ⟨untouched, silent⟩ := unwinds.inv_at boot_untouched (hs ▸ outsider)
    exact refused_of_outsider closed untouched silent hg
  case world =>
    exact congrArg (·.world) (unwinds.view_purge boot_untouched rfl outsider)

-- The hash that `crypt` makes of the password `abc` without a random device.
def abcHash : CString :=
  "$5$000000000000000$hFWm2BINjaam.9j5CbmU7IQeAVB9XF76NSwcce/CaI9"

-- A server whose other handlers count their calls.
def counting : System Nat where
  crypt key salt := if key = "abc" ∧ (salt = abcHash ∨ salt = "$5$000000000000000") then some abcHash else none
  handler _ _ resp _ _ _ calls := (resp, calls + 1)
  status _       := []
  restart calls  := calls

def abcConfig : List UInt8 :=
  ofString "setup_complete=1\nauth_disabled=0\npassword=" ++ abcHash ++
    "\ndigest_ha1=b512c9ed4550de5ab3b219267fbc0a74\ndigest_user=operator\n"

def bodyOf (text : CString) : List UInt8 :=
  text ++ .replicate (maxBody - text.length) 0

def login (password : CString) : Request where
  method := "POST"
  path   := "/api/v1/deneb/auth"
  body   := bodyOf (ofString "\x7b\"password\":\"" ++ password ++ "\"\x7d")

def putLed (headers : List Header) : Request where
  method  := "PUT"
  path    := "/api/v1/printer/led"
  headers := headers

def always : Env where
  saved _ := some 4096

theorem not_answers_of_no_headers {now : Int} (h : req.headers = []) : ¬s.Answers now req := by
  rw [State.Answers, h]
  rintro ⟨_, header, _⟩
  cases header

theorem not_presents_guess {s : State Nat} (h : s.passwordHash = abcHash) :
    ¬s.Presents counting (.request (login "abd") always) := by
  rintro (⟨-, password, hp, correct⟩ | answers)
  case inl =>
    have guess : passwordOf (login "abd") = some (ofString "abd") := by decide +kernel
    obtain rfl := Option.some.inj (hp.symm.trans guess)
    rw [State.checkPassword, h] at correct
    exact absurd correct (by decide +kernel)
  case inr => exact not_answers_of_no_headers rfl answers

theorem not_presents_led : ¬s.Presents sys (.request (putLed []) always) := by
  rintro (⟨found, -⟩ | answers)
  case inl => exact absurd found (by decide +kernel)
  case inr => exact not_answers_of_no_headers rfl answers

-- A guess, a request without a session, and both again after a new start.
def guesses : List Event := [
  .request (login "abd") always,
  .request (putLed []) always,
  .restart,
  .request (login "abd") always,
  .request (putLed []) always]

theorem guesses_outsider :
    Along (State.step counting) (fun s e => ¬s.Presents counting e) (boot (some abcConfig) 0) guesses := by
  rw [guesses, along_cons, along_cons, along_cons, along_cons, along_cons]
  refine ⟨not_presents_guess ?_, not_presents_led, id, not_presents_guess ?_, not_presents_led, preceded_nil⟩
  all_goals decide +kernel

theorem outsider_harmless_guesses :
    (∀ before req env after, guesses = before ++ .request req env :: after → guarded req →
      Refused ((boot (some abcConfig) 0).run counting before)
        (((boot (some abcConfig) 0).run counting before).route counting env req {})) ∧
    Untouched (some abcConfig) ((boot (some abcConfig) 0).run counting guesses) ∧
    ((boot (some abcConfig) 0).run counting guesses).world =
      ((boot (some abcConfig) 0).run counting (guesses.filter (!·.guarded))).world :=
  outsider_harmless counting (some abcConfig) 0 guesses (by decide +kernel) guesses_outsider

end Deneb.Access
