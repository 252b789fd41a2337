import DenebModel.Web.Auth
import DenebModel.Web.Theorems.Request

namespace Deneb.Auth

open CString Http Occurrence

-- A field of the header as its sender writes it.
structure Field where
  blanks : Nat  := 0
  name   : CString
  value  : CString
  quoted : Bool := true

def Field.pattern (f : Field) : CString :=
  f.name ++ 61 :: (if f.quoted then [34] else [])

def Field.text (f : Field) : CString :=
  List.replicate f.blanks 32 ++ (f.pattern ++ (f.value ++ if f.quoted then [34] else []))

def text : List Field → CString
  | []          => []
  | f :: fields => f.text ++ fields.flatMap fun g => 44 :: g.text

-- The text in front of a field.
def front (pre : List Field) (f : Field) : CString :=
  (pre.flatMap fun g => g.text ++ [44]) ++ List.replicate f.blanks 32

-- The text behind the value of a field.
def back (f : Field) (post : List Field) : CString :=
  (if f.quoted then [34] else []) ++ post.flatMap fun g => 44 :: g.text

-- A value goes to the quote or, without quotes, to the mark in front of the next field.
def Field.Proper (f : Field) : Prop :=
  if f.quoted then 34 ∉ f.value else ∀ c ∈ f.value, !isEnd c

instance : DecidablePred Field.Proper := fun f =>
  inferInstanceAs (Decidable (if f.quoted then 34 ∉ f.value else ∀ c ∈ f.value, !isEnd c))

-- What is looked for does not occur in front of the field.
def First (fields : List Field) (f : Field) : Prop :=
  ∃ pre post, fields = pre ++ f :: post ∧ index f.pattern (text fields) = some (front pre f).length

theorem text_cons {g f : Field} {pre post : List Field} :
    text (g :: (pre ++ f :: post)) = g.text ++ 44 :: text (pre ++ f :: post) := by
  cases pre <;> simp [text]

theorem text_split {pre post : List Field} {f : Field} :
    text (pre ++ f :: post) = front pre f ++ (f.pattern ++ (f.value ++ back f post)) := by
  induction pre
  case nil => simp [text, front, back, Field.text]
  case cons g pre ih =>
    rw [List.cons_append, text_cons, ih]
    simp [front]

theorem search_first {fields : List Field} {f : Field} (hf : First fields f) (hz : 0 ∉ text fields) :
    ∃ front post, search f.pattern (text fields) = some (front, f.pattern ++ (f.value ++ back f post)) := by
  obtain ⟨pre, post, rfl, hi⟩ := hf
  refine ⟨front pre f, post, ?_⟩
  rw [search, cString_of_no_nul hz, hi, text_split]
  simp

theorem extractQuoted_first {fields : List Field} {f : Field} {size : Nat} (hf : First fields f)
    (hz : 0 ∉ text fields) (hq : f.quoted = true) (hp : f.Proper) (hn : f.pattern.length < 64)
    (hs : f.value.length < size) : extractQuoted (text fields) f.name size = some f.value := by
  obtain ⟨_, post, found⟩ := search_first hf hz
  have pattern : fit 64 (f.name ++ ("=\"" : CString)) = f.pattern := by
    rw [Field.pattern, hq] at hn ⊢
    exact fit_of_length_lt hn
  have value : 34 ∉ f.value := by simpa [Field.Proper, hq] using hp
  rw [extractQuoted, pattern, found]
  simp only [Option.bind_eq_bind, Option.bind_some, List.drop_left, back, hq, if_true,
    List.singleton_append, takeWhile_mark value, fit_of_length_lt hs]
  exact if_pos (by simp)

theorem takeWhile_end {s : CString} {fields : List Field} (h : ∀ c ∈ s, !isEnd c) :
    (s ++ fields.flatMap fun g => 44 :: g.text).takeWhile (!isEnd ·) = s := by
  rw [List.takeWhile_append_of_pos h]
  cases fields <;> simp [isEnd]

theorem extractUnquoted_first {fields : List Field} {f : Field} {size : Nat} (hf : First fields f)
    (hz : 0 ∉ text fields) (hq : f.quoted = false) (hp : f.Proper) (hn : f.pattern.length < 64)
    (hs : f.value.length < size) : extractUnquoted (text fields) f.name size = some f.value := by
  obtain ⟨_, post, found⟩ := search_first hf hz
  have pattern : fit 64 (f.name ++ ("=" : CString)) = f.pattern := by
    rw [Field.pattern, hq] at hn ⊢
    exact fit_of_length_lt hn
  have value : ∀ c ∈ f.value, !isEnd c := by simpa [Field.Proper, hq] using hp
  rw [extractUnquoted, pattern, found]
  simp only [Option.bind_eq_bind, Option.bind_some, List.drop_left, back, hq, Bool.false_eq_true,
    if_false, List.nil_append, takeWhile_end value, fit_of_length_lt hs]

structure PlainName (name : CString) : Prop where
  some_name : name ≠ []
  no_mark   : 61 ∉ name
  no_comma  : 44 ∉ name
  no_blank  : 32 ∉ name

-- What one field is looked for with does not occur in another one.
def Apart (g f : Field) : Prop :=
  61 ∉ g.value ∧ 61 ∉ g.name ∧ ¬f.name <:+ g.name

instance : DecidableRel Apart := fun g f =>
  inferInstanceAs (Decidable (61 ∉ g.value ∧ 61 ∉ g.name ∧ ¬f.name <:+ g.name))

theorem mark_behind {name p a b : CString} (hn : 61 ∉ name) (ha : 61 ∉ a)
    (h : name ++ 61 :: p <+: a ++ b) : a <+: name := by
  obtain ⟨t, ht⟩ := h
  rw [List.append_assoc, List.cons_append] at ht
  have marks : ∀ c ∈ a, (c != 61) = true := fun c hc => bne_iff_ne.mpr fun he => ha (he ▸ hc)
  have front : a <+: (a ++ b).takeWhile (· != 61) := by
    rw [List.takeWhile_append_of_pos marks]
    exact List.prefix_append _ _
  rwa [← ht, takeWhile_mark hn] at front

theorem suffix_of_blanks {name t : CString} {blanks k : Nat} (hb : 32 ∉ name)
    (h : name = (List.replicate blanks 32 ++ t).drop k) : name <:+ t := by
  rw [List.drop_append, List.drop_replicate, List.length_replicate] at h
  have none_left : blanks - k = 0 := by
    by_contra hn
    exact hb (by rw [h]; simp [hn])
  rw [none_left] at h
  exact h ▸ List.drop_suffix _ t

-- The mark and what follows it in a field, with the comma.
def Field.tail (g : Field) : CString :=
  (if g.quoted then [34] else []) ++ (g.value ++ if g.quoted then [34] else [])

theorem Field.text_eq {g : Field} :
    g.text ++ [44] = (List.replicate g.blanks 32 ++ g.name) ++ 61 :: (g.tail ++ [44]) := by
  simp [Field.text, Field.pattern, Field.tail]

theorem no_mark_tail {g : Field} (h : 61 ∉ g.value) : 61 ∉ g.tail := by
  unfold Field.tail
  split <;> simp [h]

-- A field in front of the one that is looked for.
theorem index_field {g f : Field} {rest : CString} (hf : PlainName f.name) (h : Apart g f) :
    index f.pattern (g.text ++ 44 :: rest) = (index f.pattern rest).map ((g.text ++ [44]).length + ·) := by
  have ⟨no_mark, name_mark, no_suffix⟩ := h
  have before : 61 ∉ List.replicate g.blanks 32 ++ g.name := by
    simpa [List.mem_replicate] using name_mark
  rw [← List.singleton_append, ← List.append_assoc, Field.text_eq]
  refine index_append fun k hk hp => ?_
  rw [List.append_assoc] at hp
  by_cases early : k ≤ (List.replicate g.blanks 32 ++ g.name).length
  case pos =>
    rw [List.drop_append_of_le_length early] at hp
    have ⟨same, _⟩ := prefix_mark hf.no_mark (fun hm => before (List.mem_of_mem_drop hm)) hp
    exact no_suffix (suffix_of_blanks hf.no_blank same)
  case neg =>
    obtain ⟨j, rfl⟩ := Nat.exists_eq_add_of_lt (Nat.lt_of_not_le early)
    have within : j ≤ g.tail.length := by
      simp only [List.length_append, List.length_cons, List.length_nil] at hk
      omega
    have within' : j ≤ (g.tail ++ [44]).length := by
      rw [List.length_append]
      omega
    rw [Nat.add_assoc, List.drop_length_add_append, List.cons_append, List.drop_succ_cons,
      List.drop_append_of_le_length within', List.drop_append_of_le_length within] at hp
    have inside := mark_behind hf.no_mark (by
      simpa using fun hm => no_mark_tail no_mark (List.mem_of_mem_drop hm)) hp
    exact hf.no_comma (inside.subset (by simp))

theorem index_own {f : Field} {rest : CString} (hf : PlainName f.name) :
    index f.pattern (List.replicate f.blanks 32 ++ (f.pattern ++ rest)) = some f.blanks := by
  obtain ⟨c, name, hc⟩ := List.exists_cons_of_ne_nil hf.some_name
  have blank : 32 ≠ c := fun h => hf.no_blank (hc ▸ h ▸ List.mem_cons_self)
  have apart : ∀ k < (List.replicate f.blanks (32 : UInt8)).length,
      ¬f.pattern <+: (List.replicate f.blanks 32 ++ (f.pattern ++ rest)).drop k := by
    intro k hk hp
    rw [List.length_replicate] at hk
    obtain ⟨n, hn⟩ := Nat.exists_eq_add_of_lt hk
    rw [List.drop_append_of_le_length (by simp; omega), List.drop_replicate, hn,
      show k + n + 1 - k = n + 1 by omega, Field.pattern, hc] at hp
    exact blank (List.cons_prefix_cons.mp hp).left.symm
  rw [index_append apart, index_self]
  simp

theorem index_fields {pre post : List Field} {f : Field} (hf : PlainName f.name)
    (h : ∀ g ∈ pre, Apart g f) :
    index f.pattern (text (pre ++ f :: post)) = some (front pre f).length := by
  induction pre
  case nil => rw [text_split, front, List.flatMap_nil, List.nil_append, index_own hf, List.length_replicate]
  case cons g pre ih =>
    have ⟨hg, hr⟩ := List.forall_mem_cons.mp h
    rw [List.cons_append, text_cons, index_field hf hg, ih hr, Option.map_some]
    simp [front]
    omega

theorem first_of_apart {pre post : List Field} {f : Field} (hf : PlainName f.name)
    (h : ∀ g ∈ pre, Apart g f) : First (pre ++ f :: post) f :=
  ⟨pre, post, rfl, index_fields hf h⟩

def Has (fields : List Field) (name value : CString) (quoted : Bool) : Prop :=
  ∃ f ∈ fields, f.name = name ∧ f.value = value ∧ f.quoted = quoted

instance {fields : List Field} {name value : CString} {quoted : Bool} :
    Decidable (Has fields name value quoted) :=
  inferInstanceAs (Decidable (∃ f ∈ fields, f.name = name ∧ f.value = value ∧ f.quoted = quoted))

def fieldNames : List CString :=
  ["username", "realm", "nonce", "uri", "response", "qop", "nc", "cnonce"]

def longNames : List CString :=
  ["qop", "nc", "cnonce"]

-- The response that belongs to the fields.
inductive Answer (ha1 : List UInt8) (nonce method uri : CString) (fields : List Field) : CString → Prop
  | long (qop nc cnonce : CString) :
    (∃ quoted, Has fields "qop" qop quoted) → Has fields "nc" nc false → Has fields "cnonce" cnonce true →
    qop.length < 16 → nc.length < 16 → cnonce.length < 64 →
    Answer ha1 nonce method uri fields
      (Md5.hexOf [ha1, ":", nonce, ":", nc, ":", cnonce, ":", qop, ":", Md5.hexConcat method uri])
  | simple :
    (∀ f ∈ fields, f.name ∉ longNames) →
    Answer ha1 nonce method uri fields (Md5.hexOf [ha1, ":", nonce, ":", Md5.hexConcat method uri])

-- The header answers a nonce for a method and a target.
structure Correct (s : State) (issued method target : CString) (fields : List Field) : Prop where
  proper   : ∀ f ∈ fields, f.Proper
  username : Has fields "username" s.digestUsername true
  realm    : Has fields "realm" realm true
  nonce    : Has fields "nonce" issued true
  uri      : Has fields "uri" target true
  response : ∃ response, Has fields "response" response true ∧
    Answer s.digestHa1 issued method target fields response

-- What the server looks for in the header occurs first where it stands for a field.
structure Clear (fields : List Field) : Prop where
  own    : ∀ f ∈ fields, f.name ∈ fieldNames → First fields f
  qop    : ∀ f ∈ fields, f.name = ofString "qop" → f.quoted = false →
    ¬ofString "qop=\"" <:+: text fields
  simple : (∀ f ∈ fields, f.name ∉ longNames) →
    ¬(ofString "qop=" <:+: text fields ∧ ofString "nc=" <:+: text fields ∧
      ofString "cnonce=\"" <:+: text fields)

theorem plainName_of_known {name : CString} (h : name ∈ fieldNames) : PlainName name := by
  have plain : ∀ name ∈ fieldNames, name ≠ [] ∧ 61 ∉ name ∧ 44 ∉ name ∧ 32 ∉ name := by decide
  have ⟨some_name, no_mark, no_comma, no_blank⟩ := plain name h
  exact ⟨some_name, no_mark, no_comma, no_blank⟩

theorem first_of_pairwise {fields : List Field} (h : fields.Pairwise Apart) {f : Field} (hf : f ∈ fields)
    (known : f.name ∈ fieldNames) : First fields f := by
  obtain ⟨pre, post, rfl⟩ := List.append_of_mem hf
  exact first_of_apart (plainName_of_known known) fun g hg =>
    (List.pairwise_append.mp h).right.right g hg f List.mem_cons_self

variable {s : State} {now : Int} {fields : List Field} {name value nonce method uri : CString} {size : Nat}

theorem Clear.quoted (clear : Clear fields) (hz : 0 ∉ text fields) (hp : ∀ f ∈ fields, f.Proper)
    (has : Has fields name value true) (known : name ∈ fieldNames) (hs : value.length < size) :
    extractQuoted (text fields) name size = some value := by
  obtain ⟨f, hf, rfl, rfl, hq⟩ := has
  have short : f.pattern.length < 64 := by
    have : ∀ n ∈ fieldNames, n.length < 16 := by decide
    have := this _ known
    simp only [Field.pattern, hq, if_true, List.length_append, List.length_cons, List.length_nil]
    omega
  exact extractQuoted_first (clear.own f hf known) hz hq (hp f hf) short hs

theorem Clear.unquoted (clear : Clear fields) (hz : 0 ∉ text fields) (hp : ∀ f ∈ fields, f.Proper)
    (has : Has fields name value false) (known : name ∈ fieldNames) (hs : value.length < size) :
    extractUnquoted (text fields) name size = some value := by
  obtain ⟨f, hf, rfl, rfl, hq⟩ := has
  have short : f.pattern.length < 64 := by
    have : ∀ n ∈ fieldNames, n.length < 16 := by decide
    have := this _ known
    simp only [Field.pattern, hq, List.length_append, List.length_cons]
    simp
    omega
  exact extractUnquoted_first (clear.own f hf known) hz hq (hp f hf) short hs

theorem extractQuoted_absent {p : CString} (hz : 0 ∉ text fields) (hp : fit 64 (name ++ ofString "=\"") = p)
    (h : ¬p <:+: text fields) : extractQuoted (text fields) name size = none := by
  rw [extractQuoted, hp, search_eq_none hz h]
  rfl

theorem extractUnquoted_absent {p : CString} (hz : 0 ∉ text fields) (hp : fit 64 (name ++ ofString "=") = p)
    (h : ¬p <:+: text fields) : extractUnquoted (text fields) name size = none := by
  rw [extractUnquoted, hp, search_eq_none hz h]
  rfl

theorem Clear.qop_found (clear : Clear fields) (hz : 0 ∉ text fields) (hp : ∀ f ∈ fields, f.Proper)
    (has : ∃ quoted, Has fields "qop" value quoted) (hs : value.length < 16) :
    (extractQuoted (text fields) "qop" 16).or (extractUnquoted (text fields) "qop" 16) = some value := by
  obtain ⟨quoted, f, hf, hn, hv, hq⟩ := has
  cases quoted
  case true => rw [clear.quoted hz hp ⟨f, hf, hn, hv, hq⟩ (by decide) hs, Option.some_or]
  case false =>
    have absent := @extractQuoted_absent fields "qop" 16 _ hz (by decide) (clear.qop f hf hn hq)
    rw [absent, Option.none_or, clear.unquoted hz hp ⟨f, hf, hn, hv, hq⟩ (by decide) hs]

theorem Clear.simple_found (clear : Clear fields) (hz : 0 ∉ text fields)
    (h : ∀ f ∈ fields, f.name ∉ longNames) :
    (extractQuoted (text fields) "qop" 16).or (extractUnquoted (text fields) "qop" 16) = none ∨
      extractUnquoted (text fields) "nc" 16 = none ∨ extractQuoted (text fields) "cnonce" 64 = none := by
  by_cases hq : ofString "qop=" <:+: text fields
  case neg =>
    have quoted : ¬ofString "qop=\"" <:+: text fields := fun h =>
      hq ((show ofString "qop=" <+: ofString "qop=\"" by decide).isInfix.trans h)
    rw [extractQuoted_absent hz (by decide) quoted, extractUnquoted_absent hz (by decide) hq]
    exact .inl rfl
  case pos =>
    by_cases hn : ofString "nc=" <:+: text fields
    case neg => exact .inr <| .inl <| extractUnquoted_absent hz (by decide) hn
    case pos =>
      exact .inr <| .inr <| extractQuoted_absent hz (by decide) fun hc => clear.simple h ⟨hq, hn, hc⟩

theorem parse_clear (clear : Clear fields) (hz : 0 ∉ text fields)
    (right : Correct s nonce method uri fields) (hn : nonce.length < 64) (hu : uri.length < 256) :
    ∃ digest, Digest.parse (text fields) = some digest ∧ digest.username = s.digestUsername ∧
      digest.nonce = nonce ∧ digest.uri = uri ∧ digest.nc = extractUnquoted (text fields) "nc" 16 ∧
      digest.response = digest.expected s.digestHa1 method := by
  have ⟨response, hr, answer⟩ := right.response
  have long : response.length = 32 := by
    cases answer
    case long   => exact Md5.length_hexOf
    case simple => exact Md5.length_hexOf
  have proper := right.proper
  refine ⟨{
    username := s.digestUsername, realm, nonce, uri, response
    qop := (extractQuoted (text fields) "qop" 16).or (extractUnquoted (text fields) "qop" 16)
    nc := extractUnquoted (text fields) "nc" 16
    cnonce := extractQuoted (text fields) "cnonce" 64
  }, ?parsed, rfl, rfl, rfl, rfl, ?answer⟩
  case parsed =>
    rw [Digest.parse, clear.quoted hz proper right.username (by decide) s.username_fits,
      clear.quoted hz proper right.realm (by decide) (by decide : Auth.realm.length < 64),
      clear.quoted hz proper right.nonce (by decide) hn,
      clear.quoted hz proper right.uri (by decide) hu,
      clear.quoted hz proper hr (by decide) (by omega : response.length < 64)]
    rfl
  case answer =>
    cases answer
    case long qop nc cnonce hq hnc hc sq snc sc =>
      simp only [Digest.expected, clear.qop_found hz proper hq sq,
        clear.unquoted hz proper hnc (by decide) snc, clear.quoted hz proper hc (by decide) sc]
    case simple h =>
      have absent := clear.simple_found hz h
      simp only [Digest.expected]
      split
      case h_1 hq hnc hc => simp [hq, hnc, hc] at absent
      case h_2 => rfl

theorem validateDigest_clear {path : CString} (password : s.hasPassword)
    (live : ∃ n ∈ s.nonces, n.nonce = nonce ∧ n.Live now) (clear : Clear fields) (hz : 0 ∉ text fields)
    (right : Correct s nonce method uri fields) (hu : uri.length < 256) :
    s.validateDigest now (text fields) method path := by
  obtain ⟨n, hn, rfl, hl⟩ := live
  have short : n.nonce.length < 64 := by rw [n.length]; decide
  obtain ⟨digest, parsed, username, same, -, -, response⟩ := parse_clear clear hz right short hu
  have valid : s.validateNonce now n.nonce := List.any_eq_true.mpr ⟨n, hn, by simp [hl]⟩
  have long : digest.response.length = 32 := by
    rw [response, Digest.expected]
    split <;> exact Md5.length_hexOf
  rw [State.validateDigest, password, parsed]
  simp only [username, same, valid, List.take_of_length_le (Nat.le_of_eq long), ← response]
  simp

theorem sameText_authorization {header : Header} :
    sameText header.stored.name "Authorization" = sameText header.name "Authorization" := by
  have short : ∀ t : CString, sameText t "Authorization" → t.length = 13 := fun t h => by
    have := congrArg List.length (beq_iff_eq.mp h)
    rwa [List.length_map, List.length_map] at this
  by_cases h : header.name.length < 64
  case pos => rw [Header.stored, List.take_of_length_le (Nat.le_of_lt_succ h)]
  case neg =>
    have cut : header.stored.name.length = 63 := by
      rw [Header.stored, List.length_take]
      omega
    rw [Bool.eq_iff_iff]
    constructor
    case mp  => exact fun hs => absurd (short _ hs) (by omega)
    case mpr => exact fun hs => absurd (short _ hs) (by omega)

-- A message whose only header for authorization has the fields.
structure Carries (msg : Message) (pre : List Header) (header : Header) (fields : List Field) : Prop where
  split  : ∃ post, msg.headers = pre ++ header :: post
  others : ∀ h ∈ pre, ¬sameText h.name "Authorization"
  name   : sameText header.name "Authorization"
  value  : header.trim.value = ofString "Digest " ++ text fields

theorem findSome_authorization {msg : Message} {pre : List Header} {header : Header}
    (carries : Carries msg pre header fields) (early : pre.length < maxHeaders)
    (whole : header.trim.value.length < 256) :
    ((msg.headers.take maxHeaders).map Header.stored).findSome? authorization =
      some (.digest (text fields)) := by
  obtain ⟨post, hm⟩ := carries.split
  have others : (pre.map Header.stored).findSome? authorization = none := by
    rw [List.findSome?_eq_none_iff]
    intro h hh
    obtain ⟨h, hp, rfl⟩ := List.mem_map.mp hh
    rw [authorization, sameText_authorization, if_neg (carries.others h hp)]
  have found : authorization header.stored = some (.digest (text fields)) := by
    have value : header.stored.value = ofString "Digest " ++ text fields := by
      rw [Header.stored, List.take_of_length_le (Nat.le_of_lt_succ whole), carries.value]
    rw [authorization, sameText_authorization, if_pos carries.name, value]
    rfl
  obtain ⟨room, hr⟩ := Nat.exists_eq_add_of_lt early
  rw [hm, hr, Nat.add_assoc, List.take_length_add_append, List.take_succ_cons, List.map_append,
    List.findSome?_append, others, List.map_cons, List.findSome?_cons, found]
  rfl

def issued : Nonce where
  nonce   := .replicate 63 97
  created := 0
  length  := List.length_replicate
  hex     := fun c hc => by obtain rfl := List.eq_of_mem_replicate hc; decide

def operator : State where
  setupComplete := true
  digestHa1     := ofString "3b6998a789e1ac227098c87dbf483485"
  nonces        := [issued]

-- A header that has the nonce of the client in front of that of the server, or behind it.
def verifyFields (clientFirst : Bool) : List Field :=
  let nonce : Field := { name := "nonce", value := issued.nonce }
  let cnonce : Field := { name := "cnonce", value := "0a4f113b" }
  [{ name := "username", value := "operator" }, { name := "realm", value := "deneb" }] ++
    (if clientFirst then [cnonce, nonce] else [nonce, cnonce]) ++
    [{ name := "uri", value := "/api/v1/auth/verify" }, { name := "qop", value := "auth", quoted := false },
      { name := "nc", value := "00000001", quoted := false },
      { name := "response", value := "d68b4fbb03e0bd0975ebb453fb54c482" }]

def verifyHeader (clientFirst : Bool) : Header where
  name  := "Authorization"
  value := ofString " Digest " ++ text (verifyFields clientFirst)

def verify (clientFirst : Bool) : Message where
  method  := "GET"
  target  := "/api/v1/auth/verify"
  version := "HTTP/1.1"
  headers := [verifyHeader clientFirst]
  body    := []

theorem verify_response :
    Md5.hexOf [operator.digestHa1, ":", issued.nonce, ":", "00000001", ":", "0a4f113b", ":", "auth", ":",
      Md5.hexConcat "GET" "/api/v1/auth/verify"] = ofString "d68b4fbb03e0bd0975ebb453fb54c482" := by
  decide +kernel

theorem verify_correct {clientFirst : Bool} :
    Correct operator issued.nonce "GET" "/api/v1/auth/verify" (verifyFields clientFirst) where
  proper   := by cases clientFirst <;> decide
  username := by cases clientFirst <;> decide
  realm    := by cases clientFirst <;> decide
  nonce    := by cases clientFirst <;> decide
  uri      := by cases clientFirst <;> decide
  response := by
    refine ⟨"d68b4fbb03e0bd0975ebb453fb54c482", by cases clientFirst <;> decide, ?_⟩
    rw [← verify_response]
    refine .long "auth" "00000001" "0a4f113b" ⟨false, ?_⟩ ?_ ?_ (by decide) (by decide) (by decide)
    all_goals cases clientFirst <;> decide

theorem verify_plain {clientFirst : Bool} : (verify clientFirst).Plain where
  method       := by decide +revert +kernel
  method_blank := by decide +revert +kernel
  method_fits  := by decide +revert +kernel
  target       := by decide +revert +kernel
  target_blank := by decide +revert +kernel
  target_fits  := by decide +revert +kernel
  version      := by decide +revert +kernel
  headers      := List.forall_mem_singleton.mpr
    ⟨by decide +revert, by decide +revert, by decide +revert +kernel⟩
  body         := by decide +revert +kernel

theorem verify_carries {clientFirst : Bool} :
    Carries (verify clientFirst) [] (verifyHeader clientFirst) (verifyFields clientFirst) where
  split  := ⟨[], rfl⟩
  others := nofun
  name   := by decide +revert +kernel
  value  := by decide +revert +kernel

theorem verify_clear : Clear (verifyFields false) where
  own    := fun _ hf known => first_of_pairwise (by decide +kernel) hf known
  qop    := fun _ _ _ _ => by decide +revert +kernel
  simple := fun h => absurd h (by decide +kernel)

end Deneb.Auth
