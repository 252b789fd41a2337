import DenebModel.Primitives.Table
import DenebModel.Web.Theorems.Outsider
import DenebModel.Web.Theorems.Replay

-- Where the sessions and the answers to challenges come from that the server accepts.
namespace Deneb.Access

open CString Http History Table

variable {W : Type} {sys : System W} {env : Env} {req : Request} {resp : Response}
variable {s : State W} {config : Option (List UInt8)} {world : W} {events : List Event}

instance : Decidable (s.LogsIn sys req) :=
  decidable_of_iff (findRoute req = some authRoute ∧ (passwordOf req).any (s.checkPassword sys))
    (and_congr_right fun _ => by simp [Option.any_eq_true])

instance : Decidable (s.SetsUp env req) :=
  decidable_of_iff (findRoute req = some setupRoute ∧
      (s.auth.setupComplete = false ∨ s.auth.checkAuth env.now req) ∧
      (requiresAuth req → newPassword req = none → s.hasPassword))
    ⟨fun h => ⟨h.1, h.2.1, h.2.2⟩, fun h => ⟨h.1, h.2, h.3⟩⟩

-- The request opens a session.
def State.Opens (sys : System W) (s : State W) : Event → Prop
  | .request req env => s.LogsIn sys req ∨ s.SetsUp env req
  | .restart         => False

instance {e : Event} : Decidable (s.Opens sys e) :=
  match e with
  | .request req env => inferInstanceAs (Decidable (s.LogsIn sys req ∨ s.SetsUp env req))
  | .restart         => inferInstanceAs (Decidable False)

-- The entry for the session that an event opens.
def Event.token : Event → Auth.Token
  | .request _ env => { token := fit 64 (newToken env), expires := env.now + 30 * 86400 }
  | .restart       => { token := [], expires := 0 }

theorem fit_newToken : fit 64 (newToken env) = newToken env :=
  List.take_of_length_le (Nat.le_of_eq Auth.length_randomHex)

theorem saveConfig_auth {saved : Option Nat} : (s.saveConfig saved).auth = s.auth := by
  cases saved <;> rfl

theorem setPassword_tables {password : CString} {saved : Option Nat} :
    (s.setPassword sys env password saved).auth.tokens = s.auth.tokens ∧
      (s.setPassword sys env password saved).auth.nonces = s.auth.nonces := by
  rw [State.setPassword, saveConfig_auth]
  cases sys.crypt password (saltOf env.salt) <;> exact ⟨rfl, rfl⟩

theorem pair_tables : (s.pair env).auth.tokens = s.auth.tokens ∧ (s.pair env).auth.nonces = s.auth.nonces := by
  rw [State.pair]
  split
  case isTrue => rw [saveConfig_auth]; exact ⟨rfl, rfl⟩
  case isFalse => exact ⟨rfl, rfl⟩

-- The last of the three times that the file is written comes before the session.
theorem setUp_tables : (s.setUp sys env req).auth.nonces = s.auth.nonces ∧
    (s.setUp sys env req).auth.tokens =
      push maxTokens s.auth.tokens (Event.request req env).token := by
  rw [State.setUp, State.addSessionToken, State.setDisabled, State.setSetupComplete, saveConfig_auth]
  dsimp only
  rw [saveConfig_auth]
  cases newPassword req
  case none => exact ⟨rfl, rfl⟩
  case some password =>
    obtain ⟨tokens, nonces⟩ := @setPassword_tables W sys env s password (env.saved 0)
    dsimp only
    rw [tokens, nonces]
    exact ⟨rfl, rfl⟩

theorem route_setUp (setUp : s.SetsUp env req) :
    (s.route sys env req resp).2 = s.setUp sys env req := by
  have allowed : (s.auth.setupComplete && !s.auth.checkAuth env.now req) = false := by
    obtain h | h := setUp.allowed <;> simp [h]
  have password : (requiresAuth req && (newPassword req).isNone && !s.hasPassword) = false := by
    have := setUp.password
    simp only [Bool.and_eq_false_iff, Bool.not_eq_false']
    cases hr : requiresAuth req
    case false => exact .inl (.inl rfl)
    case true =>
      cases hp : newPassword req
      case none => exact .inr (this hr hp)
      case some => exact .inl (.inr rfl)
  rw [State.route, setUp.found]
  dsimp only
  rw [if_neg (by simp [setupRoute]), State.handle, if_neg (by decide), if_neg (by decide),
    if_neg (by decide), if_pos rfl, setupPost, if_neg (by simp [allowed]), if_neg (by simp [password])]

theorem route_logIn (logIn : s.LogsIn sys req) :
    (s.route sys env req resp).2 = s.addSessionToken env.now (newToken env) 30 := by
  obtain ⟨found, password, hp, correct⟩ := logIn
  rw [State.route, found]
  dsimp only
  rw [if_neg (by simp [authRoute]), State.handle, if_neg (by decide), if_neg (by decide),
    if_neg (by decide), if_neg (by decide), if_pos rfl, authPost, hp]
  dsimp only
  rw [if_pos correct]

-- The table of the sessions grows with the requests that open one.
theorem step_tokens {e : Event} (h : e ≠ .restart) : (s.step sys e).auth.tokens =
    if s.Opens sys e then push maxTokens s.auth.tokens e.token else s.auth.tokens := by
  cases e
  case restart => exact absurd rfl h
  case request req env =>
    split
    case isTrue opens =>
      obtain logIn | setUp := opens
      case inl => rw [State.step, route_logIn logIn]; rfl
      case inr => rw [State.step, route_setUp setUp, setUp_tables.right]
    case isFalse none =>
      have effect := @route_effect W sys env req {} s
      rw [State.step]
      generalize (s.route sys env req {}).2 = s' at effect
      cases effect
      case kept        => rfl
      case challenge   => rfl
      case pair        => exact pair_tables.left
      case setUp setUp => exact absurd (.inr setUp) none
      case logIn logIn => exact absurd (.inl logIn) none
      case other       => rfl

-- The request is refused with a challenge.
structure State.Challenges (env : Env) (s : State W) (req : Request) : Prop where
  found   : ∃ r, findRoute req = some r ∧ r.requiresAuth
  refused : s.auth.checkAuth env.now req = false

theorem createNonce_origin {now : Int} {random : Option (List.Vector UInt8 64)} {auth : Auth.State}
    {nonce : Auth.Nonce} (h : nonce ∈ (auth.createNonce now random).1.nonces) :
    nonce ∈ auth.nonces ∨ nonce.nonce = Auth.randomHex 64 random ∧ nonce.created = now := by
  rw [Auth.State.createNonce] at h
  obtain old | new := List.mem_append.mp h
  case inl =>
    left
    split at old
    case isTrue  => exact List.mem_of_mem_filter (List.mem_of_mem_drop old)
    case isFalse => exact List.mem_of_mem_filter old
  case inr =>
    right
    obtain rfl := List.mem_singleton.mp new
    exact ⟨rfl, rfl⟩

theorem route_nonces {nonce : Auth.Nonce} (h : nonce ∈ (s.route sys env req resp).2.auth.nonces) :
    nonce ∈ s.auth.nonces ∨
      s.Challenges env req ∧ nonce.nonce = Auth.randomHex 64 env.nonce ∧ nonce.created = env.now := by
  have effect := @route_effect W sys env req resp s
  generalize (s.route sys env req resp).2 = s' at effect h
  cases effect
  case kept  => exact .inl h
  case challenge r found requires refused =>
    exact (createNonce_origin h).imp_right fun new => ⟨⟨⟨r, found, requires⟩, refused⟩, new⟩
  case pair  => exact .inl (pair_tables.right ▸ h)
  case setUp => exact .inl (setUp_tables.left ▸ h)
  case logIn => exact .inl h
  case other => exact .inl h

-- The part of a run behind an event, in which the process goes on.
def Lasting (events before : List Event) (req : Request) (env : Env) (after : List Event) : Prop :=
  events = before ++ .request req env :: after ∧ .restart ∉ after

-- The request comes with the token of a session that was opened less than 30 days ago.
def BySession (sys : System W) (s₀ : State W) (events : List Event) (now : Int) (req : Request) : Prop :=
  ∃ token before opener env after, req.headers.findSome? Auth.authorization = some (.bearer token) ∧
    Lasting events before opener env after ∧ (s₀.run sys before).Opens sys (.request opener env) ∧
    token = newToken env ∧ now < env.now + 30 * 86400

-- The request answers a challenge of the last five minutes for the present user.
def ByDigest (sys : System W) (s₀ : State W) (events : List Event) (now : Int) (req : Request) : Prop :=
  ∃ fields digest before refused env after,
    req.headers.findSome? Auth.authorization = some (.digest fields) ∧
    Auth.Digest.parse fields = some digest ∧
    (s₀.run sys events).auth.hasPassword ∧ digest.username = (s₀.run sys events).auth.digestUsername ∧
    digest.response.take 32 = digest.expected (s₀.run sys events).auth.digestHa1 req.method ∧
    Lasting events before refused env after ∧ (s₀.run sys before).Challenges env refused ∧
    digest.nonce = Auth.randomHex 64 env.nonce ∧ now - env.now ≤ 300

-- What is in a table that is empty after a start was put there by a request to this process.
theorem origin_request {α : Type} {items : State W → List α} {x : α} {made : State W → Request → Env → α → Prop}
    (grows : ∀ s req env y, y ∈ items (s.step sys (.request req env)) → y ∈ items s ∨ made s req env y)
    (empty : ∀ config world, items (boot config world) = [])
    (h : x ∈ items ((boot config world).run sys events)) :
    ∃ before req env after, Lasting events before req env after ∧
      made ((boot config world).run sys before) req env x := by
  obtain ⟨before, e, after, rfl, ⟨req, env, rfl, made⟩, none⟩ :=
    @origin _ _ _ x (State.step sys) items (boot config world) events
      (fun s e y => ∃ req env, e = .request req env ∧ made s req env y) (· = .restart)
      (fun s e y hy => by
        cases e
        case restart =>
          rw [State.step, empty] at hy
          cases hy
        case request req env =>
          exact (grows s req env y hy).imp (fun old => ⟨by simp, old⟩) (fun new => ⟨req, env, rfl, new⟩))
      (empty config world) h
  exact ⟨before, req, env, after, ⟨rfl, fun h => none _ h rfl⟩, made⟩

theorem token_opened {token : Auth.Token}
    (h : token ∈ ((boot config world).run sys events).auth.tokens) :
    ∃ before opener env after, Lasting events before opener env after ∧
      ((boot config world).run sys before).Opens sys (.request opener env) ∧
      token = (Event.request opener env).token := by
  refine @origin_request W sys _ _ _ Auth.Token (·.auth.tokens) token
    (fun s req env token => s.Opens sys (.request req env) ∧ token = (Event.request req env).token)
    (fun s req env token h => ?_) (fun _ _ => boot_fresh.tokens) h
  rw [step_tokens (by simp)] at h
  split at h
  case isFalse => exact .inl h
  case isTrue opens => exact (mem_push h).imp_right fun new => ⟨opens, new⟩

theorem nonce_issued {nonce : Auth.Nonce}
    (h : nonce ∈ ((boot config world).run sys events).auth.nonces) :
    ∃ before refused env after, Lasting events before refused env after ∧
      ((boot config world).run sys before).Challenges env refused ∧
      nonce.nonce = Auth.randomHex 64 env.nonce ∧ nonce.created = env.now := by
  exact @origin_request W sys _ _ _ Auth.Nonce (·.auth.nonces) nonce
    (fun s req env nonce => s.Challenges env req ∧ nonce.nonce = Auth.randomHex 64 env.nonce ∧
      nonce.created = env.now) (fun _ _ _ _ => route_nonces) (fun _ _ => boot_fresh.nonces) h

-- In every run a request for something that is protected is refused, unless access is open, it comes
-- with the token of a session that this process opened, or it answers one of its challenges.
theorem guarded_authorized (sys : System W) (config : Option (List UInt8)) (world : W) (events : List Event)
    (req : Request) (env : Env) (hg : guarded req) :
    let s := (boot config world).run sys events
    Refused s (s.route sys env req {}) ∨ s.auth.isDisabled ∨
      BySession sys (boot config world) events env.now req ∨ ByDigest sys (boot config world) events env.now req := by
  intro s
  cases closed : s.auth.isDisabled
  case true => exact .inr (.inl rfl)
  case false =>
    cases hc : s.auth.checkAuth env.now req
    case false => exact .inl (refused_of_guarded hg closed hc)
    case true =>
      refine .inr (.inr ?_)
      rw [Auth.State.checkAuth] at hc
      split at hc
      case h_1 text header =>
        left
        rw [Auth.State.validateToken, closed, Bool.false_or, List.any_eq_true] at hc
        obtain ⟨token, there, valid⟩ := hc
        simp only [Bool.and_eq_true, beq_iff_eq, decide_eq_true_eq] at valid
        obtain ⟨before, opener, env', after, lasting, opens, rfl⟩ := token_opened there
        exact ⟨text, before, opener, env', after, header, lasting, opens,
          valid.left.symm.trans fit_newToken, valid.right⟩
      case h_2 fields header =>
        right
        cases parsed : Auth.Digest.parse fields
        case none => simp [Auth.State.validateDigest, closed, parsed] at hc
        case some digest =>
          obtain ⟨password, username, live, response⟩ := (Auth.validateDigest_spec closed parsed).mp hc
          rw [Auth.State.validateNonce, List.any_eq_true] at live
          obtain ⟨nonce, there, live⟩ := live
          simp only [Bool.and_eq_true, beq_iff_eq, decide_eq_true_eq] at live
          obtain ⟨before, refused, env', after, lasting, challenge, issued, created⟩ := nonce_issued there
          exact ⟨fields, digest, before, refused, env', after, header, parsed, password, username, response,
            lasting, challenge, live.left.symm.trans issued, created ▸ live.right⟩
      case h_3 => exact absurd (closed.symm.trans hc) (by decide)

-- The request for the light with the token of a session.
def ownLed : Request :=
  putLed [{ name := "Authorization", value := ofString "Bearer " ++ newToken always }]

theorem guarded_authorized_led :
    let s := (boot (some abcConfig) 0).run counting [.request (login "abc") always]
    Refused s (s.route counting always ownLed {}) ∨ s.auth.isDisabled ∨
      BySession counting (boot (some abcConfig) 0) [.request (login "abc") always] 0 ownLed ∨
      ByDigest counting (boot (some abcConfig) 0) [.request (login "abc") always] 0 ownLed :=
  guarded_authorized counting (some abcConfig) 0 [.request (login "abc") always] ownLed always (by decide +kernel)

theorem tokens_length : ((boot config world).run sys events).auth.tokens.length ≤ maxTokens := by
  induction events using List.reverseRecOn
  case nil => exact (congrArg List.length boot_fresh.tokens).trans_le (Nat.zero_le _)
  case append_singleton events e ih =>
    rw [State.run, List.foldl_append, List.foldl_cons, List.foldl_nil, ← State.run]
    by_cases restart : e = .restart
    case pos =>
      rw [restart, State.step, boot_fresh.tokens]
      exact Nat.zero_le _
    case neg =>
      rw [step_tokens restart]
      split
      case isTrue => exact length_push (by decide) ih
      case isFalse => exact ih

-- A session is good for 30 days, unless eight more are opened in the meantime. A change of the
-- password does not end it.
theorem session_valid_iff (sys : System W) (config : Option (List UInt8)) (world : W) (earlier events : List Event)
    (opener req : Request) (env : Env) (now : Int)
    (opens : ((boot config world).run sys earlier).Opens sys (.request opener env))
    (fresh : ∀ token ∈ ((boot config world).run sys earlier).auth.tokens, token.token ≠ newToken env)
    (others : Preceded (fun before e =>
      ((boot config world).run sys (earlier ++ .request opener env :: before)).Opens sys e →
        e.token.token ≠ newToken env) events)
    (lasting : .restart ∉ events)
    (closed : ((boot config world).run sys (earlier ++ .request opener env :: events)).auth.isDisabled = false)
    (header : req.headers.findSome? Auth.authorization = some (.bearer (newToken env))) :
    ((boot config world).run sys (earlier ++ .request opener env :: events)).auth.checkAuth now req ↔
      now < env.now + 30 * 86400 ∧
      Ranking.counted (State.step sys) (fun s e => decide (s.Opens sys e))
        ((boot config world).run sys (earlier ++ [.request opener env])) events < 8 := by
  simp only [State.run, List.foldl_append, List.foldl_cons, List.foldl_nil] at opens fresh others closed ⊢
  have short : ((boot config world).run sys earlier).auth.tokens.length ≤ maxTokens := tokens_length
  rw [State.run] at short
  generalize earlier.foldl (State.step sys) (boot config world) = s at opens fresh others closed short ⊢
  have first : Traced maxTokens Auth.Token.token (Event.request opener env).token 0
      (s.step sys (.request opener env)).auth.tokens := by
    rw [step_tokens (by simp), if_pos opens]
    refine traced_push (by decide) short fun y hy => ?_
    exact fun same => fresh y hy (same.trans fit_newToken)
  have grows : ∀ s, ∀ e ∈ events, (State.step sys s e).auth.tokens =
      if decide (s.Opens sys e) then push maxTokens s.auth.tokens e.token else s.auth.tokens := by
    intro s e he
    rw [step_tokens fun h => lasting (h ▸ he)]
    simp
  have traced := @Traced.run _ _ _ _ maxTokens 0 _ Auth.Token.token (State.step sys) (·.auth.tokens) _ events
    (fun s e => decide (s.Opens sys e)) (fun _ e => e.token) (by decide) grows
    (others.mono fun h opens same => h (of_decide_eq_true opens) (same.trans fit_newToken)) first
  rw [Nat.zero_add] at traced
  have same : (Event.request opener env).token.token = newToken env := fit_newToken
  have found := traced.any (p := fun token => token.token == newToken env && decide (now < token.expires))
    (fun token _ valid => (beq_iff_eq.mp (Bool.and_eq_true_iff.mp valid).left).trans same.symm)
  rw [same, BEq.rfl, Bool.true_and, decide_eq_true_eq] at found
  rw [Auth.State.checkAuth, header]
  dsimp only
  rw [Auth.State.validateToken, closed, Bool.false_or]
  exact found

theorem session_valid_led :
    ((boot (some abcConfig) 0).run counting
      ([] ++ .request (login "abc") always :: [.request (login "abd") always])).auth.checkAuth 5 ownLed ↔
      (5 : Int) < 0 + 30 * 86400 ∧
      Ranking.counted (State.step counting) (fun s e => decide (s.Opens counting e))
        ((boot (some abcConfig) 0).run counting ([] ++ [.request (login "abc") always]))
        [.request (login "abd") always] < 8 :=
  session_valid_iff counting (some abcConfig) 0 [] [.request (login "abd") always] (login "abc") ownLed always 5
    (by decide +kernel) (by decide +kernel)
    (preceded_cons.mpr ⟨by decide +kernel, preceded_nil⟩) (by simp) (by decide +kernel) rfl

end Deneb.Access
