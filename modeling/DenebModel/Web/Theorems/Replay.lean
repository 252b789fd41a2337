import DenebModel.Web.Theorems.Digest

namespace Deneb

open CString Http

-- The sizes of the arrays of a request.
structure Http.Request.Sized (req : Request) : Prop where
  method : req.method.length < 8
  path   : req.path.length < 256
  query  : req.query.length < 256
  few    : req.headers.length ≤ maxHeaders
  names  : ∀ header ∈ req.headers, header.name.length < 64 ∧ 0 ∉ header.name
  values : ∀ header ∈ req.headers, header.value.length < 256 ∧ 0 ∉ header.value

namespace Auth

-- The request passes the check with these fields.
def Accepted (s : State) (now : Int) (req : Request) (digest : Digest) : Prop :=
  ∃ header, req.headers.findSome? authorization = some (.digest header) ∧
    Digest.parse header = some digest ∧ s.checkAuth now req

-- The field stands for the path and the query that the server routes.
def Denotes (uri : CString) (req : Request) : Prop :=
  uri.takeWhile (· != 63) = req.path ∧ (uri.dropWhile (· != 63)).drop 1 = req.query

structure Bound (s : State) (now : Int) : Prop where
  uri  : ∀ (req : Request) (digest : Digest), req.Sized → Accepted s now req digest → Denotes digest.uri req
  path : ∀ (req req' : Request) (digest : Digest), req.Sized → req'.Sized → req.headers = req'.headers →
    Accepted s now req digest → Accepted s now req' digest → req.path = req'.path

-- What a client can know of the user to be accepted.
structure Usable (s : State) : Prop where
  password : s.hasPassword
  username : 34 ∉ s.digestUsername

variable {s : State} {now : Int} {req : Request} {digest : Digest}

theorem no_quote_of_extracted {haystack field value : CString} {size : Nat}
    (h : extractQuoted haystack field size = some value) : 34 ∉ value := by
  simp only [extractQuoted, Option.bind_eq_bind, Option.bind_eq_some_iff] at h
  obtain ⟨⟨_, p⟩, -, h⟩ := h
  split at h
  case isTrue =>
    obtain rfl := Option.some.inj h
    intro hm
    simpa using List.mem_takeWhile_imp (List.mem_of_mem_take hm)
  case isFalse => contradiction

theorem validateDigest_spec {header method path : CString} (enabled : s.isDisabled = false)
    (hd : Digest.parse header = some digest) :
    s.validateDigest now header method path ↔ s.hasPassword ∧ digest.username = s.digestUsername ∧
      s.validateNonce now digest.nonce ∧
      digest.response.take 32 = digest.expected s.digestHa1 method := by
  rw [State.validateDigest, enabled, hd]
  cases s.hasPassword <;> simp [and_assoc]

theorem username_of_parse {header : CString} (hd : Digest.parse header = some digest) :
    extractQuoted header "username" 64 = some digest.username := by
  simp only [Digest.parse, Option.bind_eq_bind, Option.bind_eq_some_iff] at hd
  obtain ⟨username, hu, _, -, _, -, _, -, _, -, hd⟩ := hd
  obtain rfl := Option.some.inj hd
  exact hu

theorem usable_of_accepted (enabled : s.isDisabled = false) (h : Accepted s now req digest) :
    Usable s ∧ ∃ nonce ∈ s.nonces, nonce.Live now := by
  obtain ⟨header, hh, hd, ha⟩ := h
  rw [State.checkAuth, hh] at ha
  obtain ⟨password, username, valid, _⟩ := (validateDigest_spec enabled hd).mp ha
  obtain ⟨nonce, hn, hl⟩ := List.any_eq_true.mp valid
  refine ⟨⟨password, username ▸ no_quote_of_extracted (username_of_parse hd)⟩, nonce, hn, ?_⟩
  simpa using (Bool.and_eq_true_iff.mp hl).right

-- A mark in the last value is behind all fields.
theorem pairwise_apart {fields : List Field}
    (names : (fields.map Field.name).Pairwise fun g f => 61 ∉ g ∧ ¬f <:+ g)
    (values : ∀ f ∈ fields.dropLast, 61 ∉ f.value) : fields.Pairwise Apart := by
  induction fields
  case nil => exact .nil
  case cons g fields ih =>
    cases fields
    case nil => exact List.pairwise_singleton _ _
    case cons h fields =>
      rw [List.dropLast_cons_cons, List.forall_mem_cons] at values
      rw [List.map_cons, List.pairwise_cons] at names
      exact .cons (fun f hf => ⟨values.left, names.left _ (List.mem_map_of_mem hf)⟩)
        (ih names.right values.right)

-- The fields of a header for the root.
def rootFields (user nonce response : CString) : List Field := [
  { name := "nc", value := "1", quoted := false },
  { name := "qop", value := [] },
  { name := "realm", value := realm },
  { name := "nonce", value := nonce },
  { name := "uri", value := "/" },
  { name := "response", value := response },
  { name := "cnonce", value := [] },
  { name := "username", value := user }]

theorem isHex_hexOf {texts : List CString} : IsHex (Md5.hexOf texts) := fun _ hc =>
  Md5.isHex_of_mem_hex hc

theorem IsHex.notMem {t : CString} {c : UInt8} (h : IsHex t)
    (hc : ¬(48 ≤ c ∧ c ≤ 57 ∨ 97 ≤ c ∧ c ≤ 102) := by decide) : c ∉ t := fun hm =>
  hc (h c hm)

variable {user nonce response : CString}

theorem rootFields_values (hn : IsHex nonce) (hr : IsHex response) :
    ∀ f ∈ (rootFields user nonce response).dropLast, 61 ∉ f.value := by
  simp only [rootFields, List.dropLast_cons_cons, List.dropLast_singleton, List.forall_mem_cons]
  exact ⟨by decide, by decide, by decide, hn.notMem, by decide, hr.notMem, by decide, nofun⟩

theorem rootFields_clear (hn : IsHex nonce) (hr : IsHex response) :
    Clear (rootFields user nonce response) := by
  have apart : (rootFields user nonce response).Pairwise Apart :=
    pairwise_apart (by simp only [rootFields, List.map_cons, List.map_nil]; decide)
      (rootFields_values hn hr)
  refine ⟨fun f hf => first_of_pairwise apart hf, ?qop, ?simple⟩
  case qop =>
    have quoted : ∀ f ∈ rootFields user nonce response, f.name = ofString "qop" → f.quoted = true := by
      simp only [rootFields, List.forall_mem_cons]
      exact ⟨by decide, by decide, by decide, by decide, by decide, by decide, by decide, by decide, nofun⟩
    exact fun f hf hq hu => absurd (quoted f hf hq) (by simp [hu])
  case simple => exact fun h => absurd (h _ List.mem_cons_self) (by decide)

theorem rootFields_no_nul (hn : IsHex nonce) (hr : IsHex response) (hu : 0 ∉ user) :
    0 ∉ text (rootFields user nonce response) := by
  have issued : 0 ∉ nonce := hn.notMem
  have hash : 0 ∉ response := hr.notMem
  simp [rootFields, text, Field.text, Field.pattern, issued, hash, hu]
  decide

theorem length_rootFields (hn : nonce.length = 63) (hr : response.length = 32) (hu : user.length < 64) :
    (text (rootFields user nonce response)).length < 249 := by
  simp [rootFields, text, Field.text, Field.pattern, hn, hr, ofString, realm]
  omega

theorem rootFields_proper (hn : IsHex nonce) (hr : IsHex response) (hu : 34 ∉ user) :
    ∀ f ∈ rootFields user nonce response, f.Proper := by
  have issued : 34 ∉ nonce := hn.notMem
  have hash : 34 ∉ response := hr.notMem
  simp only [rootFields, List.forall_mem_cons]
  exact ⟨by decide, by decide, by decide, issued, by decide, hash, by decide, hu, nofun⟩

-- What the fields for a user answer.
def rootResponse (ha1 : List UInt8) (nonce method : CString) : CString :=
  Md5.hexOf [ha1, ":", nonce, ":", "1", ":", [], ":", [], ":", Md5.hexConcat method "/"]

theorem rootFields_answer {method : CString} {ha1 : List UInt8} :
    Answer ha1 nonce method "/" (rootFields user nonce response) (rootResponse ha1 nonce method) := by
  have qop : Has (rootFields user nonce response) "qop" [] true := by simp [Has, rootFields]
  have nc : Has (rootFields user nonce response) "nc" "1" false := by simp [Has, rootFields]
  have cnonce : Has (rootFields user nonce response) "cnonce" [] true := by simp [Has, rootFields]
  exact .long [] "1" [] ⟨true, qop⟩ nc cnonce (by decide) (by decide) (by decide)

theorem rootFields_correct {method : CString} (usable : Usable s) (hn : IsHex nonce) :
    Correct s nonce method "/"
      (rootFields s.digestUsername nonce (rootResponse s.digestHa1 nonce method)) := by
  have hash : IsHex (rootResponse s.digestHa1 nonce method) := isHex_hexOf
  have answer := @rootFields_answer s.digestUsername nonce (rootResponse s.digestHa1 nonce method) method
    s.digestHa1
  generalize rootResponse s.digestHa1 nonce method = response at hash answer ⊢
  refine ⟨rootFields_proper hn hash usable.username, ?_, ?_, ?_, ?_, response, ?_, answer⟩
  all_goals simp [Has, rootFields]

def rootRequest (path fields : CString) : Request where
  method  := "GET"
  path    := path
  headers := [{ name := "Authorization", value := ofString "Digest " ++ fields }]

theorem rootRequest_sized {path fields : CString} (hp : path.length < 256) (hf : fields.length < 249)
    (hz : 0 ∉ fields) : (rootRequest path fields).Sized where
  method := (by decide : (ofString "GET").length < 8)
  path   := hp
  query  := (by decide : ([] : CString).length < 256)
  few    := (by decide : 1 ≤ 16)
  names  := List.forall_mem_singleton.mpr
    (by decide : (ofString "Authorization").length < 64 ∧ 0 ∉ ofString "Authorization")
  values := by
    have scheme : (ofString "Digest ").length = 7 ∧ 0 ∉ ofString "Digest " := by decide
    refine List.forall_mem_singleton.mpr ⟨?_, ?_⟩
    case refine_1 => rw [List.length_append]; omega
    case refine_2 => simp [scheme.right, hz]

theorem rootRequest_accepted {path : CString} {nonce : Nonce} (usable : Usable s) (hn : nonce ∈ s.nonces)
    (live : nonce.Live now) (hp : path.length < 256) :
    ∃ req digest, req.Sized ∧ req.path = path ∧ req.query = [] ∧ Accepted s now req digest ∧
      digest.nonce = nonce.nonce ∧ digest.uri = ofString "/" ∧ digest.nc = some (ofString "1") := by
  let response := rootResponse s.digestHa1 nonce.nonce "GET"
  let fields := rootFields s.digestUsername nonce.nonce response
  have hash : IsHex response := isHex_hexOf
  have hz : 0 ∉ text fields := rootFields_no_nul nonce.hex hash s.username_text
  have clear : Clear fields := rootFields_clear nonce.hex hash
  have right : Correct s nonce.nonce "GET" "/" fields := rootFields_correct usable nonce.hex
  have short : (text fields).length < 249 :=
    length_rootFields nonce.length Md5.length_hexOf s.username_fits
  have size : nonce.nonce.length < 64 := by rw [nonce.length]; decide
  obtain ⟨digest, parsed, -, issued, uri, nc, -⟩ := parse_clear clear hz right size (by decide)
  have found : extractUnquoted (text fields) "nc" 16 = some (ofString "1") :=
    clear.unquoted hz right.proper ⟨_, List.mem_cons_self, rfl, rfl, rfl⟩ (by decide) (by decide)
  have valid := @validateDigest_clear s now fields nonce.nonce "GET" "/" path usable.password
    ⟨nonce, hn, rfl, live⟩ clear hz right (by decide)
  refine ⟨rootRequest path (text fields), digest, rootRequest_sized hp short hz, rfl, rfl,
    ⟨text fields, rfl, parsed, valid⟩, issued, uri, nc.trans found⟩

-- The field says nothing about what is routed, so every path is open to whom any is open to.
theorem not_bound {nonce : Nonce} (usable : Usable s) (hn : nonce ∈ s.nonces) (live : nonce.Live now) :
    ¬Bound s now := by
  intro bound
  obtain ⟨req, digest, sized, path, -, accepted, -, uri, -⟩ :=
    @rootRequest_accepted s now "/api/v1/printer/led" nonce usable hn live (by decide)
  have denotes := (bound.uri req digest sized accepted).left
  rw [uri, path] at denotes
  exact absurd denotes (by decide)

theorem digest_bound_iff (s : State) (now : Int) (enabled : s.isDisabled = false) :
    Bound s now ↔ ¬(s.hasPassword ∧ 34 ∉ s.digestUsername ∧ ∃ nonce ∈ s.nonces, nonce.Live now) := by
  constructor
  case mp =>
    exact fun bound ⟨password, username, _, hn, live⟩ => not_bound ⟨password, username⟩ hn live bound
  case mpr =>
    intro h
    have refused : ∀ req digest, ¬Accepted s now req digest := fun req digest ha =>
      have ⟨usable, live⟩ := usable_of_accepted enabled ha
      h ⟨usable.password, usable.username, live⟩
    exact ⟨fun req digest _ ha => (refused req digest ha).elim,
      fun req _ digest _ _ _ ha => (refused req digest ha).elim⟩

theorem digest_bound_operator :
    Bound operator 10 ↔
      ¬(operator.hasPassword ∧ 34 ∉ operator.digestUsername ∧ ∃ nonce ∈ operator.nonces, nonce.Live 10) :=
  digest_bound_iff operator 10 rfl

theorem operator_usable : Usable operator :=
  ⟨by decide, by decide⟩

theorem operator_not_bound : operator.isDisabled = false ∧ ¬Bound operator 10 :=
  ⟨rfl, not_bound operator_usable List.mem_cons_self (by decide)⟩

-- What can happen between two requests while the user stays the same.
inductive Event
  | challenge (now : Int) (random : Option (List.Vector UInt8 64))
  | request (now : Int) (req : Request)

def State.step (s : State) : Event → State
  | .challenge now random => (s.createNonce now random).1
  | .request _ _          => s

def State.run (s : State) (events : List Event) : State :=
  events.foldl State.step s

-- No two requests with the same nonce and the same count are accepted.
def NoReplay (s : State) : Prop :=
  ∀ (before between : List Event) (now now' : Int) (req req' : Request) (digest digest' : Digest) (nc : CString),
    req.Sized → req'.Sized →
    Accepted (s.run before) now req digest →
    Accepted ((s.run before).run (.request now req :: between)) now' req' digest' →
    ¬(digest.nonce = digest'.nonce ∧ digest.nc = some nc ∧ digest'.nc = some nc)

theorem step_user (event : Event) :
    (s.step event).isDisabled = s.isDisabled ∧ (s.step event).hasPassword = s.hasPassword ∧
      (s.step event).digestUsername = s.digestUsername := by
  cases event <;> exact ⟨rfl, rfl, rfl⟩

theorem run_user (events : List Event) :
    (s.run events).isDisabled = s.isDisabled ∧ (s.run events).hasPassword = s.hasPassword ∧
      (s.run events).digestUsername = s.digestUsername := by
  induction events generalizing s
  case nil => exact ⟨rfl, rfl, rfl⟩
  case cons event events ih =>
    have ⟨disabled, password, username⟩ := @step_user s event
    have ⟨disabled', password', username'⟩ := @ih (s.step event)
    exact ⟨disabled'.trans disabled, password'.trans password, username'.trans username⟩

theorem createNonce_issued (now : Int) (random : Option (List.Vector UInt8 64)) :
    ∃ nonce ∈ (s.createNonce now random).1.nonces, nonce.Live now := by
  refine ⟨_, List.mem_append_right _ List.mem_cons_self, ?_⟩
  simp [Nonce.Live, nonceExpirySec]

-- A request that has been accepted is accepted again while its nonce lives.
theorem replayed (usable : Usable s) : ¬NoReplay s := by
  intro none_replayed
  let events := [Event.challenge 0 none]
  have ⟨_, password, username⟩ := @run_user s events
  have usable' : Usable (s.run events) := ⟨password.trans usable.password, username ▸ usable.username⟩
  obtain ⟨nonce, hn, live⟩ := @createNonce_issued s 0 none
  obtain ⟨req, digest, sized, -, -, accepted, -, -, nc⟩ :=
    @rootRequest_accepted (s.run events) 0 "/" nonce usable' hn live (by decide)
  exact none_replayed events [] 0 0 req req digest digest _ sized sized accepted accepted ⟨rfl, nc, nc⟩

end Auth
end Deneb
