import DenebModel.Primitives.Theorems.Decimal
import DenebModel.Web.Route
import DenebModel.Web.Theorems.Request

namespace Deneb.Http

open CString Occurrence BinaryFloat

def contentLength (n : Nat) : CString :=
  ofString "Content-Length: " ++ digits n

-- What a client reads of a response: the status line, the lines of the header, an empty line and
-- as many bytes as the header says.
structure Parts (out : CString) where
  status  : CString
  headers : List CString
  body    : CString
  bytes   : out = line status ++ (headers.flatMap line ++ (crlf ++ body))
  version : startsWith status "HTTP/1.1 "
  inline  : ∀ text ∈ status :: headers, Inline text ∧ text ≠ []
  length  : contentLength body.length ∈ headers
  unique  : ∀ text ∈ headers, startsWith text "Content-Length: " → text = contentLength body.length

def Framed (cap : Nat) (out : CString) : Prop :=
  out.length ≤ cap ∧ Nonempty (Parts out)

-- A response within the types of its fields.
structure Response.Sized (resp : Response) : Prop where
  status      : -2 ^ 31 ≤ resp.statusCode ∧ resp.statusCode < 2 ^ 31
  contentType : Inline resp.contentType ∧ resp.contentType.length < 64

-- No handler sets a challenge.
structure Handlers.Proper (handlers : Handlers) : Prop where
  sized        : ∀ r req s, (handlers r req {} s).1.Sized
  no_challenge : ∀ r req s, (handlers r req {} s).1.authChallenge = []

variable {resp : Response} {n cap : Nat}

def fixedLines : List CString := [
  "Cache-Control: no-store",
  "X-Content-Type-Options: nosniff",
  "Access-Control-Allow-Origin: *",
  "Access-Control-Allow-Methods: GET, PUT, POST, DELETE, OPTIONS",
  "Access-Control-Allow-Headers: Authorization, Content-Type"]

-- The lines of a header behind the status line, without the challenge.
def Response.headerLines (resp : Response) (n : Nat) : List CString :=
  (ofString "Content-Type: " ++ resp.contentTypeOr "application/json") :: contentLength n ::
    (ofString "Connection: " ++ if resp.keepAlive then ofString "keep-alive" else "close") :: fixedLines

theorem header_eq (sse : resp.isSse = false) :
    resp.header n = line resp.statusLine ++ ((resp.headerLines n).flatMap line ++ (resp.challenge ++ crlf)) := by
  have common : commonLines = fixedLines.flatMap line := rfl
  simp only [Response.header, sse, common, Response.headerLines, List.flatMap_cons, List.append_assoc,
    Bool.false_eq_true, if_false]
  rfl

theorem isDigit_inline {t : CString} (h : ∀ c ∈ t, isDigit c) : Inline t := by
  intro c hc
  have := h c hc
  refine ⟨?_, ?_, ?_⟩
  all_goals rintro rfl; contradiction

theorem inline_formatD {i : Int} : Inline (formatD i) := by
  have digits : Inline (digits i.natAbs) := isDigit_inline isDigit_of_mem_digits
  unfold formatD
  split
  case isTrue  => exact digits.cons (by decide)
  case isFalse => exact digits

def statusTexts : List CString := [
  "OK", "Created", "No Content", "Bad Request", "Unauthorized", "Forbidden", "Not Found",
  "Method Not Allowed", "Conflict", "Internal Server Error", "Not Implemented", "Service Unavailable"]

theorem mem_ite {p : Prop} [Decidable p] {t t' : CString} {texts : List CString} (h : t ∈ texts)
    (h' : t' ∈ texts) : (if p then t else t') ∈ texts := by
  split
  case isTrue  => exact h
  case isFalse => exact h'

theorem statusText_mem {code : Int} : statusText code ∈ statusTexts := by
  unfold statusText
  repeat' apply mem_ite
  all_goals decide

theorem inline_statusText {code : Int} : Inline (statusText code) :=
  (by decide : ∀ t ∈ statusTexts, Inline t) _ statusText_mem

theorem length_statusText {code : Int} : (statusText code).length ≤ 21 :=
  (by decide : ∀ t ∈ statusTexts, t.length ≤ 21) _ statusText_mem

theorem length_digits_le {k : Nat} (h : n < 10 ^ k) (hk : 0 < k) : (digits n).length ≤ k := by
  rw [digits, List.length_map]
  exact (Nat.length_toDigits_le_iff (by decide) hk).mpr h

theorem length_formatD_le {i : Int} (h : -2 ^ 31 ≤ i ∧ i < 2 ^ 31) : (formatD i).length ≤ 11 := by
  have digits := @length_digits_le i.natAbs 10 (by omega) (by decide)
  unfold formatD
  split <;> simp <;> omega

theorem contentTypeOr_sized (sized : resp.Sized) :
    Inline (resp.contentTypeOr "application/json") ∧ (resp.contentTypeOr "application/json").length < 64 := by
  unfold Response.contentTypeOr
  split
  case isTrue  => decide
  case isFalse => exact sized.contentType

theorem inline_statusLine : Inline resp.statusLine :=
  ((by decide : Inline "HTTP/1.1 ").append inline_formatD).append (by decide) |>.append inline_statusText

theorem statusLine_ne_nil : resp.statusLine ≠ [] := by
  simp only [Response.statusLine, List.append_assoc]
  exact List.append_ne_nil_of_left_ne_nil (by decide) _

theorem inline_headerLines (sized : resp.Sized) : ∀ t ∈ resp.headerLines n, Inline t ∧ t ≠ [] := by
  have contentType := (contentTypeOr_sized sized).left
  have count : Inline (digits n) := isDigit_inline isDigit_of_mem_digits
  have connection : Inline (if resp.keepAlive then ofString "keep-alive" else "close") := by
    split <;> decide
  have fixed : ∀ t ∈ fixedLines, Inline t ∧ t ≠ [] := by decide
  simp only [Response.headerLines, List.forall_mem_cons]
  exact ⟨⟨(by decide : Inline "Content-Type: ").append contentType, List.append_ne_nil_of_left_ne_nil (by decide) _⟩,
    ⟨(by decide : Inline "Content-Length: ").append count, List.append_ne_nil_of_left_ne_nil (by decide) _⟩,
    ⟨(by decide : Inline "Connection: ").append connection, List.append_ne_nil_of_left_ne_nil (by decide) _⟩, fixed⟩

theorem length_header_le (sse : resp.isSse = false) (sized : resp.Sized) (hn : n < 10 ^ 10) :
    (resp.header n).length ≤ 400 + resp.challenge.length := by
  have contentType := (contentTypeOr_sized sized).right
  have count := length_digits_le hn (by decide)
  have code := length_formatD_le sized.status
  have text := @length_statusText resp.statusCode
  have connection : (if resp.keepAlive then ofString "keep-alive" else "close").length ≤ 10 := by
    split <;> decide
  have version : (ofString "HTTP/1.1 ").length = 9 ∧ (ofString " ").length = 1 := by decide
  have names : (ofString "Content-Type: ").length = 14 ∧ (ofString "Content-Length: ").length = 16 ∧
      (ofString "Connection: ").length = 12 := by decide
  have fixed : (fixedLines.flatMap line).length = 212 := by decide +kernel
  rw [header_eq sse]
  simp only [Response.headerLines, List.flatMap_cons, List.length_append, length_line, Response.statusLine,
    contentLength, crlf, List.length_cons, List.length_nil]
  omega

-- The body takes what the header leaves of the room.
theorem serialize_eq (sse : resp.isSse = false) (sized : resp.Sized) (hc : resp.challenge.length < 512)
    (low : 1024 ≤ cap) (high : cap < 2 ^ 31) :
    resp.serialize cap = resp.header (min resp.bodyBytes.length (cap - 512)) ++
      resp.bodyBytes.take (min resp.bodyBytes.length (cap - 512)) := by
  have short := @length_header_le resp (min resp.bodyBytes.length (cap - 512)) sse sized (by omega)
  rw [Response.serialize, fit_of_length_lt (by omega)]

theorem length_serialize_le (sse : resp.isSse = false) (sized : resp.Sized)
    (hc : resp.challenge.length ≤ 112) (low : 1024 ≤ cap) (high : cap < 2 ^ 31) :
    (resp.serialize cap).length ≤ cap := by
  have short := @length_header_le resp (min resp.bodyBytes.length (cap - 512)) sse sized (by omega)
  rw [serialize_eq sse sized (by omega) low high, List.length_append, List.length_take]
  omega

theorem unique_headerLines :
    ∀ t ∈ resp.headerLines n, startsWith t "Content-Length: " → t = contentLength n := by
  have fixed : ∀ t ∈ fixedLines, startsWith t "Content-Length: " → t = contentLength n := fun t ht hs =>
    absurd hs ((by decide : ∀ t ∈ fixedLines, ¬startsWith t "Content-Length: ") t ht)
  refine List.forall_mem_cons.mpr ⟨fun h => (Bool.false_ne_true h).elim, ?_⟩
  refine List.forall_mem_cons.mpr ⟨fun _ => rfl, ?_⟩
  exact List.forall_mem_cons.mpr ⟨fun h => (Bool.false_ne_true h).elim, fixed⟩

theorem framed_of_plain (sse : resp.isSse = false) (sized : resp.Sized) (plain : resp.authChallenge = [])
    (low : 1024 ≤ cap) (high : cap < 2 ^ 31) : Framed cap (resp.serialize cap) := by
  have challenge : resp.challenge = [] := by simp [Response.challenge, plain]
  have size : (resp.bodyBytes.take (min resp.bodyBytes.length (cap - 512))).length =
      min resp.bodyBytes.length (cap - 512) := by
    rw [List.length_take]
    omega
  refine ⟨length_serialize_le sse sized (by simp [challenge]) low high, ⟨{
    status  := resp.statusLine
    headers := resp.headerLines (min resp.bodyBytes.length (cap - 512))
    body    := resp.bodyBytes.take (min resp.bodyBytes.length (cap - 512))
    bytes   := ?_, version := ?_, inline := ?_, length := ?_, unique := ?_ }⟩⟩
  case refine_1 =>
    rw [serialize_eq sse sized (by simp [challenge]) low high, header_eq sse, challenge]
    simp only [List.append_assoc, List.nil_append]
  case refine_2 => rfl
  case refine_3 => exact List.forall_mem_cons.mpr ⟨⟨inline_statusLine, statusLine_ne_nil⟩,
    inline_headerLines sized⟩
  case refine_4 =>
    rw [size]
    exact List.mem_cons_of_mem _ List.mem_cons_self
  case refine_5 =>
    rw [size]
    exact unique_headerLines

-- Lines that are not empty do not end in the empty line.
theorem index_blank_none {texts : List CString} {body : CString} (hb : 13 ∉ body)
    (ht : ∀ t ∈ texts, Inline t ∧ t ≠ []) : index [13, 10, 13, 10] (texts.flatMap line ++ body) = none := by
  induction texts
  case nil =>
    refine index_eq_none.mpr fun h => hb (h.subset List.mem_cons_self)
  case cons text texts ih =>
    have ⟨⟨inline, _⟩, hr⟩ := List.forall_mem_cons.mp ht
    have next : ¬[13, 10] <+: texts.flatMap line ++ body := by
      cases texts
      case nil  => exact fun h => hb (h.subset List.mem_cons_self)
      case cons =>
        have ⟨inline', some_text⟩ := hr _ List.mem_cons_self
        rw [List.flatMap_cons, List.append_assoc]
        exact line_nonempty inline' some_text
    rw [List.flatMap_cons, List.append_assoc, index_blank_line inline next, ih hr]
    rfl

theorem blank_of_parts {out : CString} (parts : Parts out) : [13, 10, 13, 10] <:+: out := by
  have lines : ∃ front, line parts.status ++ parts.headers.flatMap line = front ++ crlf := by
    rcases List.eq_nil_or_concat parts.headers with h | ⟨headers, last, h⟩
    case inl => exact ⟨parts.status, by simp [h, line]⟩
    case inr => exact ⟨line parts.status ++ (headers.flatMap line ++ last), by simp [h, line]⟩
  obtain ⟨front, hf⟩ := lines
  refine ⟨front, parts.body, Eq.trans ?_ parts.bytes.symm⟩
  rw [← List.append_assoc (line _), hf]
  simp [crlf]

theorem challengeText_spec {nonce : CString} (h : Inline nonce) (hl : nonce.length = 63) :
    Inline (challengeText nonce) ∧ (challengeText nonce).length = 105 := by
  have fits : (ofString "Digest realm=\"" ++ Auth.realm ++ "\", nonce=\"" ++ nonce ++
      "\", qop=\"auth\"").length = 105 := by
    have texts : (ofString "Digest realm=\"").length = 14 ∧ Auth.realm.length = 5 ∧
        (ofString "\", nonce=\"").length = 10 ∧ (ofString "\", qop=\"auth\"").length = 13 := by decide
    simp only [List.length_append]
    omega
  rw [challengeText, fit_of_length_lt (by omega)]
  exact ⟨((by decide : Inline (ofString "Digest realm=\"" ++ Auth.realm ++ "\", nonce=\"")).append h).append
    (by decide), fits⟩

-- The challenge stands where the empty line should.
theorem not_framed_unauthorized {nonce : CString} (h : Inline nonce) (hl : nonce.length = 63)
    (low : 1024 ≤ cap) (high : cap < 2 ^ 31) : ¬Framed cap ((unauthorized {} nonce).serialize cap) := by
  rintro ⟨-, ⟨parts⟩⟩
  have ⟨inline, long⟩ := challengeText_spec h hl
  have some_text : challengeText nonce ≠ [] := fun he => by simp [he] at long
  have challenge : (unauthorized {} nonce).challenge = ofString "WWW-Authenticate: " ++ challengeText nonce :=
    if_neg (by simpa [unauthorized, Response.setBody] using some_text)
  have sized : (unauthorized {} nonce).Sized :=
    ⟨(by decide : -2 ^ 31 ≤ (401 : Int) ∧ (401 : Int) < 2 ^ 31),
      (by decide : Inline "application/json" ∧ (ofString "application/json").length < 64)⟩
  have length : (unauthorized {} nonce).challenge.length = 123 := by
    rw [challenge, List.length_append, long]
    rfl
  have body : 13 ∉ (unauthorized {} nonce).bodyBytes :=
    (by decide : 13 ∉ ofString "\x7b\"message\":\"Unauthorized\"\x7d")
  have blank := blank_of_parts parts
  rw [serialize_eq rfl sized (by omega) low high, header_eq rfl, challenge] at blank
  generalize min (unauthorized {} nonce).bodyBytes.length (cap - 512) = count at blank
  have none_blank := @index_blank_none ((unauthorized {} nonce).statusLine ::
    ((unauthorized {} nonce).headerLines count ++ [ofString "WWW-Authenticate: " ++ challengeText nonce]))
    ((unauthorized {} nonce).bodyBytes.take count) (fun hm => body (List.mem_of_mem_take hm)) ?_
  case refine_1 =>
    refine List.forall_mem_cons.mpr ⟨⟨inline_statusLine, statusLine_ne_nil⟩, ?_⟩
    refine List.forall_mem_append.mpr ⟨inline_headerLines sized, List.forall_mem_singleton.mpr ⟨?_, ?_⟩⟩
    case refine_1 => exact (by decide : Inline "WWW-Authenticate: ").append inline
    case refine_2 => simp [some_text]
  refine index_eq_none.mp none_blank ?_
  simpa [line] using blank

-- No route lets the request through to its handler.
def Refused (s : Auth.State) (now : Int) (req : Request) : Prop :=
  ∃ r, findRoute req = some r ∧ r.requiresAuth ∧ s.checkAuth now req = false

variable {handlers : Handlers} {now : Int} {random : Option (List.Vector UInt8 64)} {s : Auth.State}
  {req : Request}

theorem route_refused (h : Refused s now req) :
    (route handlers now random s req {}).1 = unauthorized {} (Auth.randomHex 64 random) := by
  obtain ⟨r, found, required, refused⟩ := h
  rw [route, found]
  simp only [required, refused]
  rfl

theorem route_passed (proper : handlers.Proper) (h : ¬Refused s now req) :
    (route handlers now random s req {}).1.Sized ∧
      (route handlers now random s req {}).1.authChallenge = [] := by
  have sized : ∀ code : Int, -2 ^ 31 ≤ code → code < 2 ^ 31 → ∀ body, Response.Sized {
      statusCode := code
      body       := body
    } := fun code low high body =>
    ⟨⟨low, high⟩, (by decide : Inline "application/json" ∧ (ofString "application/json").length < 64)⟩
  rw [route]
  split
  case h_1 r found =>
    split
    case isTrue refused =>
      have ⟨required, unchecked⟩ := Bool.and_eq_true_iff.mp refused
      exact absurd ⟨r, found, required, Bool.not_eq_true' _ |>.mp unchecked⟩ h
    case isFalse => exact ⟨proper.sized r req s, proper.no_challenge r req s⟩
  case h_2 =>
    split
    case isTrue => exact ⟨sized 204 (by decide) (by decide) _, rfl⟩
    case isFalse =>
      split
      case isTrue  => exact ⟨sized 405 (by decide) (by decide) _, rfl⟩
      case isFalse => exact ⟨sized 404 (by decide) (by decide) _, rfl⟩

theorem response_framed_iff (handlers : Handlers) (proper : handlers.Proper) (now : Int)
    (random : Option (List.Vector UInt8 64)) (s : Auth.State) (req : Request) (cap : Nat)
    (sse : (route handlers now random s req {}).1.isSse = false) (low : 1024 ≤ cap) (high : cap < 2 ^ 31) :
    Framed cap ((route handlers now random s req {}).1.serialize cap) ↔ ¬Refused s now req := by
  constructor
  case mp =>
    intro framed refused
    rw [route_refused refused] at framed
    have nonce : Inline (Auth.randomHex 64 random) := fun c hc => by
      have := Auth.isHex_randomHex c hc
      refine ⟨?_, ?_, ?_⟩
      all_goals rintro rfl; revert this; decide
    exact not_framed_unauthorized nonce Auth.length_randomHex low high framed
  case mpr =>
    intro passed
    have ⟨sized, plain⟩ := @route_passed handlers now random s req proper passed
    exact framed_of_plain sse sized plain low high

-- Handlers that answer with a number.
def answerNumber : Handlers := fun _ _ resp s =>
  (resp.setBody "42", s)

theorem answerNumber_proper : answerNumber.Proper where
  sized        := fun _ _ _ => ⟨(by decide : -2 ^ 31 ≤ (200 : Int) ∧ (200 : Int) < 2 ^ 31),
    (by decide : Inline "application/json" ∧ (ofString "application/json").length < 64)⟩
  no_challenge := fun _ _ _ => rfl

def putState : Request where
  method := "PUT"
  path   := "/api/v1/print_job/state"

theorem putState_route : findRoute putState = some ⟨"PUT", "/api/v1/print_job/state", true⟩ := by
  decide +kernel

theorem response_framed_state :
    Framed 1024 ((route answerNumber 0 none {} putState {}).1.serialize 1024) ↔ ¬Refused {} 0 putState := by
  refine response_framed_iff answerNumber answerNumber_proper 0 none {} putState 1024 ?_ (by decide) (by decide)
  rw [route, putState_route]
  rfl

-- Authentication is on, and the request brings nothing for it.
theorem response_not_framed :
    answerNumber.Proper ∧ (route answerNumber 0 none { setupComplete := true } putState {}).1.isSse = false ∧
      ¬Framed 1024 ((route answerNumber 0 none { setupComplete := true } putState {}).1.serialize 1024) := by
  have refused : Refused { setupComplete := true } 0 putState := ⟨_, putState_route, rfl, rfl⟩
  rw [route_refused refused]
  exact ⟨answerNumber_proper, rfl, @not_framed_unauthorized 1024 (Auth.randomHex 64 none) (by decide)
    Auth.length_randomHex (by decide) (by decide)⟩

end Deneb.Http
