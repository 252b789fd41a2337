import DenebModel.Primitives.Noninterference
import DenebModel.Web.Access

namespace Deneb.Access

open CString Http History

variable {W : Type} {sys : System W} {env : Env} {req : Request} {resp : Response} {r : Route}
variable {s : State W} {config : Option (List UInt8)} {world world' : W}

-- For the variables of authentication alone this is the routing of the server.
theorem route_auth : Http.route (fun r req resp auth =>
      let (resp, s) := State.handle sys env r req resp { s with auth }
      (resp, s.auth)) env.now env.nonce s.auth req resp =
    ((s.route sys env req resp).1, (s.route sys env req resp).2.auth) := by
  rw [Http.route, State.route]
  cases findRoute req
  case none =>
    dsimp only
    split
    case isTrue => rfl
    case isFalse => split <;> rfl
  case some r =>
    dsimp only
    split <;> rfl

-- The password is the one that is stored.
def State.LogsIn (sys : System W) (s : State W) (req : Request) : Prop :=
  findRoute req = some authRoute ∧ ∃ password, passwordOf req = some password ∧ s.checkPassword sys password

-- A setup is allowed, and has a password where it needs one.
structure State.SetsUp (env : Env) (s : State W) (req : Request) : Prop where
  found    : findRoute req = some setupRoute
  allowed  : s.auth.setupComplete = false ∨ s.auth.checkAuth env.now req
  password : requiresAuth req → newPassword req = none → s.hasPassword

-- What a request does to the state.
inductive Effect (sys : System W) (env : Env) (req : Request) (s : State W) : State W → Prop
  | kept : Effect sys env req s s
  | challenge (r : Route) : findRoute req = some r → r.requiresAuth → s.auth.checkAuth env.now req = false →
      Effect sys env req s { s with auth := (s.auth.createNonce env.now env.nonce).1 }
  | pair : findRoute req = some requestRoute → s.auth.isDisabled ∨ s.auth.checkAuth env.now req →
      Effect sys env req s (s.pair env)
  | setUp : s.SetsUp env req → Effect sys env req s (s.setUp sys env req)
  | logIn : s.LogsIn sys req → Effect sys env req s (s.addSessionToken env.now (newToken env) 30)
  | other (r : Route) (world : W) : findRoute req = some r →
      (r.requiresAuth → s.auth.checkAuth env.now req) → Effect sys env req s { s with world }

theorem setupPost_effect (found : findRoute req = some setupRoute) :
    Effect sys env req s (setupPost sys env req resp s).2 := by
  rw [setupPost]
  split
  case isTrue => exact .kept
  case isFalse allowed =>
    split
    case isTrue => exact .kept
    case isFalse password =>
      refine .setUp ⟨found, ?_, fun requires missing => ?_⟩
      case refine_1 =>
        cases hc : s.auth.setupComplete
        case false => exact .inl rfl
        case true => simpa [hc] using allowed
      case refine_2 => simpa [requires, missing] using password

theorem authPost_effect (found : findRoute req = some authRoute) :
    Effect sys env req s (authPost sys env req resp s).2 := by
  rw [authPost]
  cases hp : passwordOf req
  case none => exact .kept
  case some password =>
    dsimp only
    split
    case isTrue correct => exact .logIn ⟨found, password, hp, correct⟩
    case isFalse => exact .kept

theorem handle_effect (found : findRoute req = some r) (allowed : r.requiresAuth → s.auth.checkAuth env.now req) :
    Effect sys env req s (s.handle sys env r req resp).2 := by
  rw [State.handle]
  split
  case isTrue hr =>
    rw [requestPost]
    split
    case isTrue => exact .kept
    case isFalse open' =>
      refine .pair (hr ▸ found) ?_
      cases hd : s.auth.isDisabled
      case true => exact .inl rfl
      case false => simpa [hd] using open'
  case isFalse =>
    split_ifs with _ _ hs ha
    case pos => exact .kept
    case pos => exact .kept
    case pos => exact setupPost_effect (hs ▸ found)
    case pos => exact authPost_effect (ha ▸ found)
    case pos => exact .kept
    case neg => exact .other r _ found allowed

theorem route_effect : Effect sys env req s (s.route sys env req resp).2 := by
  rw [State.route]
  split
  case h_1 r found =>
    split
    case isTrue refused =>
      rw [Bool.and_eq_true_iff, Bool.not_eq_true'] at refused
      exact .challenge r found refused.left refused.right
    case isFalse allowed =>
      refine handle_effect found fun requires => ?_
      simpa [requires] using allowed
  case h_2 => split_ifs <;> exact .kept

-- Everything but the nonces.
def State.forget (s : State W) : State W :=
  { s with auth.nonces := [] }

-- The request is for something that is protected once the setup is complete.
def guarded (req : Request) : Bool :=
  (findRoute req).any fun r => r.requiresAuth || r == requestRoute || r == setupRoute

-- The fields of a header answer a challenge for the user.
def State.Answers (s : State W) (now : Int) (req : Request) : Prop :=
  ∃ fields, req.headers.findSome? Auth.authorization = some (.digest fields) ∧
    s.auth.validateDigest now fields req.method req.path

-- Access is closed, and no session is open.
structure State.Shut (s : State W) : Prop where
  closed : s.auth.isDisabled = false
  tokens : s.auth.tokens = []

theorem setupComplete_of_closed (closed : s.auth.isDisabled = false) : s.auth.setupComplete := by
  simp only [Auth.State.isDisabled, Bool.or_eq_false_iff, Bool.not_eq_false'] at closed
  exact closed.right

theorem checkAuth_eq_false {now : Int} (shut : s.Shut) (silent : ¬s.Answers now req) :
    s.auth.checkAuth now req = false := by
  rw [Auth.State.checkAuth]
  split
  case h_1 => simp [Auth.State.validateToken, shut.closed, shut.tokens]
  case h_2 fields header =>
    apply Bool.eq_false_iff.mpr
    exact fun valid => silent ⟨fields, header, valid⟩
  case h_3 => exact shut.closed

-- The answer to a request that is refused, which leaves everything but the nonces alone.
structure Refused (s : State W) (answer : Response × State W) : Prop where
  status : answer.1.statusCode = 401 ∨ answer.1.statusCode = 403
  kept   : answer.2.forget = s.forget

theorem guarded_iff : guarded req ↔
    ∃ r, findRoute req = some r ∧ (r.requiresAuth ∨ r = requestRoute ∨ r = setupRoute) := by
  simp [guarded, Option.any_eq_true, or_assoc]

theorem refused_of_guarded (hg : guarded req) (closed : s.auth.isDisabled = false)
    (hc : s.auth.checkAuth env.now req = false) : Refused s (s.route sys env req resp) := by
  obtain ⟨r, found, hr⟩ := guarded_iff.mp hg
  have complete := setupComplete_of_closed closed
  rw [State.route, found]
  dsimp only
  cases requires : r.requiresAuth
  case true =>
    rw [if_pos (by rw [hc]; rfl)]
    exact ⟨.inl rfl, rfl⟩
  case false =>
    rw [if_neg (by simp), State.handle]
    obtain h | rfl | rfl := hr
    case inl => exact absurd (requires.symm.trans h) (by decide)
    case inr.inl =>
      rw [if_pos rfl, requestPost, if_pos (by rw [closed, hc]; rfl)]
      exact ⟨.inr rfl, rfl⟩
    case inr.inr =>
      rw [if_neg (by decide), if_neg (by decide), if_neg (by decide), if_pos rfl, setupPost,
        if_pos (by rw [complete, hc]; rfl)]
      exact ⟨.inl rfl, rfl⟩

-- What does not have to be protected does not look at the nonces.
theorem route_forget (hg : guarded req = false) :
    (s.route sys env req resp).2.forget = (s.forget.route sys env req resp).2.forget := by
  rw [State.route, State.route]
  cases found : findRoute req
  case none => split_ifs <;> rfl
  case some r =>
    simp only [guarded, found, Option.any_some, Bool.or_eq_false_iff, beq_eq_false_iff_ne] at hg
    obtain ⟨⟨open', not_request⟩, not_setup⟩ := hg
    dsimp only
    rw [open', if_neg (by simp), if_neg (by simp), State.handle, State.handle, if_neg not_request,
      if_neg not_request]
    split_ifs
    case pos => rfl
    case pos => rfl
    case pos =>
      rw [authPost, authPost]
      cases passwordOf req
      case none => rfl
      case some password =>
        have same : s.forget.checkPassword sys password = s.checkPassword sys password := rfl
        dsimp only
        rw [same]
        split <;> rfl
    case pos => rfl
    case neg => rfl

-- The state with what is not read from the file.
def State.around (s : State W) (tokens : List Auth.Token) (nonces : List Auth.Nonce)
    (config : Option (List UInt8)) (world : W) : State W :=
  { s with auth.tokens := tokens, auth.nonces := nonces, config, world }

section

variable {tokens : List Auth.Token} {nonces : List Auth.Nonce}

theorem loadLine_around {line : CString} : (s.around tokens nonces config world).loadLine line =
    (s.loadLine line).around tokens nonces config world := by
  rw [State.loadLine, State.loadLine]
  split_ifs
  case pos => cases parseInt (line.drop 15) <;> rfl
  case pos => cases parseInt (line.drop 14) <;> rfl
  case pos => rfl
  case pos => rfl
  case pos => rfl
  case neg => rfl

theorem loadLines_around {lines : List CString} :
    lines.foldl State.loadLine (s.around tokens nonces config world) =
      (lines.foldl State.loadLine s).around tokens nonces config world := by
  induction lines generalizing s
  case nil => rfl
  case cons line lines ih => rw [List.foldl_cons, List.foldl_cons, loadLine_around, ih]

theorem finishLoad_around : (s.around tokens nonces config world).finishLoad =
    s.finishLoad.around tokens nonces config world := by
  rw [State.finishLoad, State.finishLoad, apply_ite (State.around · tokens nonces config world)]
  rfl

end

-- What is read from the file does not depend on the rest of the system.
theorem boot_around : boot config world = (boot config world').around [] [] config world := by
  cases config
  case none => rfl
  case some text =>
    rw [boot, boot, Option.elim_some, Option.elim_some, ← finishLoad_around, ← loadLines_around]
    rfl

-- What is not read from the file.
structure Fresh (config : Option (List UInt8)) (world : W) (s : State W) : Prop where
  tokens : s.auth.tokens = []
  nonces : s.auth.nonces = []
  config : s.config = config
  world  : s.world = world

theorem boot_fresh : Fresh config world (boot config world) := by
  rw [@boot_around W config world world]
  exact ⟨rfl, rfl, rfl, rfl⟩

theorem boot_world : boot config world = { boot config world' with world } := by
  have around := @boot_around W config world' world'
  rw [boot_around, around]
  rfl

end Deneb.Access
