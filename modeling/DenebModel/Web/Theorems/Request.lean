import DenebModel.Web.Http
import Mathlib.Data.List.TakeWhile

namespace Deneb.Http

open CString Occurrence

-- Text within a line.
def Inline (s : CString) : Prop :=
  ∀ c ∈ s, c ≠ 0 ∧ c ≠ 10 ∧ c ≠ 13

instance : DecidablePred Inline := fun s =>
  inferInstanceAs (Decidable (∀ c ∈ s, c ≠ 0 ∧ c ≠ 10 ∧ c ≠ 13))

-- A request as its sender sees it. The values of its headers can start with blanks.
structure Message where
  method  : CString
  target  : CString
  version : CString
  headers : List Header
  body    : CString

def Header.line (header : Header) : CString :=
  Http.line (header.name ++ 58 :: header.value)

def Header.lines (headers : List Header) : CString :=
  headers.flatMap Header.line

-- The header with its value behind the blanks.
def Header.trim (header : Header) : Header :=
  { header with value := header.value.dropWhile (· == 32) }

-- The part of the header that the arrays of a request have room for.
def Header.stored (header : Header) : Header where
  name  := header.name.take 63
  value := header.trim.value.take 255

def Message.encode (msg : Message) : CString :=
  line (msg.method ++ 32 :: (msg.target ++ 32 :: msg.version)) ++
    (Header.lines msg.headers ++ (crlf ++ msg.body))

structure Header.Plain (header : Header) : Prop where
  name    : Inline header.name
  no_mark : 58 ∉ header.name
  value   : Inline header.value

structure Header.WellFormed (header : Header) : Prop extends header.Plain where
  short : header.name.length < 64
  fits  : header.trim.value.length < 256

-- The headers and the body can be too large for the arrays.
structure Message.Plain (msg : Message) : Prop where
  method       : Inline msg.method
  method_blank : 32 ∉ msg.method
  method_fits  : msg.method.length < 8
  target       : Inline msg.target
  target_blank : 32 ∉ msg.target
  target_fits  : msg.target.length < 256
  version      : Inline msg.version
  headers      : ∀ header ∈ msg.headers, header.Plain
  body         : 0 ∉ msg.body

structure Message.WellFormed (msg : Message) : Prop extends msg.Plain where
  headers_fit : ∀ header ∈ msg.headers, header.WellFormed
  few         : msg.headers.length ≤ maxHeaders
  body_fits   : msg.body.length ≤ maxBody

-- The request that the fields of a message stand for, where the handlers find the end of the body
-- in the array.
structure Message.Parsed (msg : Message) (req : Request) : Prop where
  method     : req.method = msg.method
  path       : req.path = msg.target.takeWhile (· != 63)
  query      : req.query = (msg.target.dropWhile (· != 63)).drop 1
  headers    : req.headers = msg.headers.map Header.trim
  body       : req.body.take req.bodyLen = msg.body
  terminated : req.body[req.bodyLen]? = some 0

theorem Inline.append {s t : CString} (hs : Inline s) (ht : Inline t) : Inline (s ++ t) := fun c hc =>
  (List.mem_append.mp hc).elim (hs c) (ht c)

theorem Inline.cons {c : UInt8} {s : CString} (hc : c ≠ 0 ∧ c ≠ 10 ∧ c ≠ 13) (hs : Inline s) :
    Inline (c :: s) :=
  List.forall_mem_cons.mpr ⟨hc, hs⟩

theorem Inline.no_return {s : CString} (h : Inline s) : 13 ∉ s := fun hm =>
  (h 13 hm).right.right rfl

theorem Inline.no_nul {s : CString} (h : Inline s) : 0 ∉ s := fun hm =>
  (h 0 hm).left rfl

theorem cString_of_no_nul {s : List UInt8} (h : 0 ∉ s) : cString s = s :=
  List.takeWhile_eq_self_iff.mpr fun _ hc => bne_iff_ne.mpr fun he => h (he ▸ hc)

theorem takeWhile_mark {c : UInt8} {s t : CString} (h : c ∉ s) :
    (s ++ c :: t).takeWhile (· != c) = s := by
  have front : ∀ d ∈ s, (d != c) = true := fun d hd => bne_iff_ne.mpr fun he => h (he ▸ hd)
  rw [List.takeWhile_append_of_pos front]
  simp

theorem length_line {t : CString} : (line t).length = t.length + 2 := by
  simp [line, crlf]

theorem no_nul_line {s t : CString} (hs : Inline s) (ht : 0 ∉ t) : 0 ∉ line s ++ t := by
  simp [line, crlf, hs.no_nul, ht]

theorem word_append {s t : CString} (h : 32 ∉ s) : word (s ++ 32 :: t) = some (s, t) := by
  rw [word, if_pos (by simp), takeWhile_mark h]
  simp [← List.drop_drop]

theorem search_found {p front back : CString} {c : UInt8} (hc : c ∉ front)
    (h : 0 ∉ front ++ (c :: p ++ back)) :
    search (c :: p) (front ++ (c :: p ++ back)) = some (front, c :: p ++ back) := by
  rw [search, cString_of_no_nul h, index_found hc]
  simp

theorem search_eq_none {p t : CString} (hz : 0 ∉ t) (h : ¬p <:+: t) : search p t = none := by
  rw [search, cString_of_no_nul hz, index_eq_none.mpr h]
  rfl

theorem breakLine_line {s t : CString} (hs : Inline s) (ht : 0 ∉ t) :
    breakLine (line s ++ t) = some (s, t) := by
  have found := @search_found [10] s t 13 hs.no_return (by
    simpa [line, crlf] using no_nul_line hs ht)
  rw [breakLine, line, crlf, List.append_assoc, found]
  rfl

theorem Header.trim_value {header : Header} :
    header.trim.value = header.value.dropWhile (· == 32) :=
  rfl

theorem headerOf_line {header : Header} (h : header.Plain) :
    headerOf (header.name ++ 58 :: header.value) = some header.stored := by
  have rest : (header.name ++ 58 :: header.value).drop (header.name.length + 1) = header.value := by
    simp [← List.drop_drop]
  have name : 0 ∉ header.name.take 63 := fun hm => h.name.no_nul (List.mem_of_mem_take hm)
  have value : 0 ∉ header.trim.value.take 255 := fun hm =>
    h.value.no_nul (List.dropWhile_subset _ (List.mem_of_mem_take hm))
  rw [headerOf, if_pos (by simp), takeWhile_mark h.no_mark]
  simp only [rest, ← Header.trim_value]
  rw [cString_of_no_nul name, cString_of_no_nul value]
  rfl

theorem stored_eq_trim {header : Header} (h : header.WellFormed) : header.stored = header.trim := by
  rw [Header.stored, List.take_of_length_le (Nat.le_of_lt_succ h.short),
    List.take_of_length_le (Nat.le_of_lt_succ h.fits)]
  rfl

-- A round of the loop over the lines that finds a header.
def Request.add (req : Request) (header : Header) : Request :=
  { req.extract header with headers := req.headers ++ [header] }

theorem headers_add {req : Request} {header : Header} :
    (req.add header).headers = req.headers ++ [header] :=
  rfl

theorem extract_frame {req : Request} {header : Header} :
    (req.extract header).method = req.method ∧ (req.extract header).path = req.path ∧
      (req.extract header).query = req.query := by
  rw [Request.extract]
  repeat' split
  all_goals exact ⟨rfl, rfl, rfl⟩

theorem headers_foldl {headers : List Header} {req : Request} :
    (headers.foldl Request.add req).headers = req.headers ++ headers := by
  induction headers generalizing req
  case nil          => simp
  case cons _ _ ih  => rw [List.foldl_cons, ih, headers_add, List.append_assoc]; rfl

theorem foldl_frame {headers : List Header} {req : Request} :
    (headers.foldl Request.add req).method = req.method ∧
      (headers.foldl Request.add req).path = req.path ∧
      (headers.foldl Request.add req).query = req.query := by
  induction headers generalizing req
  case nil                => exact ⟨rfl, rfl, rfl⟩
  case cons header _ ih   =>
    have ⟨hm, hp, hq⟩ := @extract_frame req header
    have ⟨im, ip, iq⟩ := @ih (req.add header)
    exact ⟨im.trans hm, ip.trans hp, iq.trans hq⟩

theorem inline_header {header : Header} (h : header.Plain) :
    Inline (header.name ++ 58 :: header.value) :=
  h.name.append (h.value.cons (by decide))

theorem lines_cons {header : Header} {headers : List Header} :
    Header.lines (header :: headers) = header.line ++ Header.lines headers :=
  rfl

theorem no_nul_lines {headers : List Header} {t : CString} (h : ∀ header ∈ headers, header.Plain)
    (ht : 0 ∉ t) : 0 ∉ Header.lines headers ++ t := by
  induction headers
  case nil                    => exact ht
  case cons header headers ih =>
    have ⟨hh, hs⟩ := List.forall_mem_cons.mp h
    rw [lines_cons, List.append_assoc]
    exact no_nul_line (inline_header hh) (ih hs)

theorem headerLoop_line {rounds : Nat} {req : Request} {header : Header} {t : CString}
    (h : header.Plain) (room : req.headers.length < maxHeaders) (ht : 0 ∉ t) :
    headerLoop (rounds + 1) req (header.line ++ t) = headerLoop rounds (req.add header.stored) t := by
  have text : header.line ++ t ≠ [] := by simp [Header.line, line]
  have some_name : header.name ++ 58 :: header.value ≠ [] := by simp
  rw [headerLoop, if_neg (by simp [text, room]), Header.line, breakLine_line (inline_header h) ht]
  split
  case h_1 => contradiction
  case h_2 he => exact absurd (congrArg Prod.fst (Option.some.inj he)) some_name
  case h_3 he =>
    obtain ⟨rfl, rfl⟩ := Prod.mk.inj (Option.some.inj he)
    rw [headerOf_line h]
    rfl

theorem headerLoop_full {rounds : Nat} {req : Request} {t : CString}
    (full : maxHeaders ≤ req.headers.length) : headerLoop rounds req t = req := by
  cases rounds
  case zero => rfl
  case succ => rw [headerLoop, if_pos (.inr full)]

theorem headerLoop_end {rounds : Nat} {req : Request} {t : CString} (ht : 0 ∉ t) :
    headerLoop rounds req (crlf ++ t) = req := by
  cases rounds
  case zero => rfl
  case succ =>
    have empty : breakLine (crlf ++ t) = some ([], t) := by
      simpa [line] using @breakLine_line [] t (by simp [Inline]) ht
    rw [headerLoop, empty]
    split <;> rfl

theorem headerLoop_lines {headers : List Header} {rounds room : Nat} {req : Request} {t : CString}
    (h : ∀ header ∈ headers, header.Plain) (size : req.headers.length + room = maxHeaders)
    (enough : headers.length ≤ rounds) (ht : 0 ∉ t) :
    headerLoop rounds req (Header.lines headers ++ (crlf ++ t)) =
      ((headers.take room).map Header.stored).foldl Request.add req := by
  induction headers generalizing rounds room req
  case nil => exact (headerLoop_end ht).trans (by simp)
  case cons header headers ih =>
    have ⟨hh, hs⟩ := List.forall_mem_cons.mp h
    have rest : 0 ∉ Header.lines headers ++ (crlf ++ t) := no_nul_lines hs (by simp [crlf, ht])
    cases room
    case zero => exact headerLoop_full (Nat.le_of_eq size.symm)
    case succ room =>
      rw [List.length_cons] at enough
      obtain ⟨rounds, rfl⟩ := Nat.exists_eq_add_of_lt (Nat.lt_of_lt_of_le (Nat.succ_pos _) enough)
      have size' : (req.add header.stored).headers.length + room = maxHeaders := by
        rw [headers_add, List.length_append, List.length_singleton]
        omega
      rw [lines_cons, List.append_assoc, Nat.zero_add, headerLoop_line hh (by omega) rest,
        ih hs size' (by omega)]
      rfl

theorem length_line_pos {headers : List Header} : headers.length ≤ (Header.lines headers).length := by
  induction headers
  case nil         => exact Nat.le_refl _
  case cons h _ ih =>
    simp only [Header.lines, Header.line, line, crlf, List.flatMap_cons, List.length_append,
      List.length_cons] at ih ⊢
    omega

-- The empty line is not in front of the next line.
theorem index_blank_line {s t : CString} (hs : Inline s) (ht : ¬[13, 10] <+: t) :
    index [13, 10, 13, 10] (line s ++ t) =
      (index [13, 10, 13, 10] t).map ((line s).length + ·) := by
  rw [line, List.append_assoc, index_append_of_notMem hs.no_return]
  have first : ¬[13, 10, 13, 10] <+: 13 :: 10 :: t := by simpa using ht
  have second : ¬[13, 10, 13, 10] <+: 10 :: t := by simp
  rw [crlf, List.cons_append, List.singleton_append, index_cons first, index_cons second,
    Option.map_map, Option.map_map]
  congr 1
  funext i
  simp only [Function.comp_apply, List.length_append, List.length_cons, List.length_nil]
  omega

theorem line_nonempty {s t : CString} (hs : Inline s) (hn : s ≠ []) : ¬[13, 10] <+: line s ++ t := by
  cases s
  case nil  => contradiction
  case cons =>
    intro h
    rw [line, List.append_assoc, List.cons_append, List.cons_prefix_cons] at h
    exact hs.no_return (h.left ▸ List.mem_cons_self)

-- Lines without the line end behind the last one.
def block : List CString → CString
  | []      => []
  | t :: ts => t ++ ts.flatMap fun u => crlf ++ u

theorem block_line {t : CString} {ts : List CString} : (t :: ts).flatMap line = block (t :: ts) ++ crlf := by
  induction ts generalizing t
  case nil => simp [block, line]
  case cons u ts ih =>
    rw [List.flatMap_cons, ih]
    simp [block, line]

theorem index_blank {t s : CString} {ts : List CString} (h : ∀ u ∈ t :: ts, Inline u ∧ u ≠ []) :
    index [13, 10, 13, 10] (block (t :: ts) ++ (crlf ++ (crlf ++ s))) = some (block (t :: ts)).length := by
  induction ts generalizing t
  case nil =>
    rw [block, List.flatMap_nil, List.append_nil]
    exact index_found (p := [10, 13, 10]) (h t List.mem_cons_self).left.no_return
  case cons u ts ih =>
    have ⟨ht, hs⟩ := List.forall_mem_cons.mp h
    have hu := hs u List.mem_cons_self
    have split : block (t :: u :: ts) ++ (crlf ++ (crlf ++ s)) =
        line t ++ (block (u :: ts) ++ (crlf ++ (crlf ++ s))) := by
      simp [block, line]
    have next : ¬[13, 10] <+: block (u :: ts) ++ (crlf ++ (crlf ++ s)) := by
      rw [← List.append_assoc, ← block_line, List.flatMap_cons, List.append_assoc]
      exact line_nonempty hu.left hu.right
    rw [split, index_blank_line ht.left next, ih hs]
    simp [block, line]
    omega

def Header.text (header : Header) : CString :=
  header.name ++ 58 :: header.value

theorem lines_eq {headers : List Header} : Header.lines headers = (headers.map Header.text).flatMap line := by
  rw [List.flatMap_map]
  rfl

theorem texts_inline {headers : List Header} (h : ∀ header ∈ headers, header.Plain) :
    ∀ t ∈ headers.map Header.text, Inline t ∧ t ≠ [] := by
  intro t ht
  obtain ⟨header, hm, rfl⟩ := List.mem_map.mp ht
  exact ⟨inline_header (h header hm), by simp [Header.text]⟩

theorem bodyOf_encode {msg : Message} (h : msg.Plain) : bodyOf msg.encode = some msg.body := by
  let start := msg.method ++ 32 :: (msg.target ++ 32 :: msg.version)
  have inline : Inline start :=
    h.method.append <| (h.target.append <| h.version.cons (by decide)).cons (by decide)
  have no_nul : 0 ∉ msg.encode :=
    no_nul_line inline <| no_nul_lines h.headers (by simp [crlf, h.body])
  have split : msg.encode = block (start :: msg.headers.map Header.text) ++ (crlf ++ (crlf ++ msg.body)) := by
    rw [← List.append_assoc, ← block_line, List.flatMap_cons, ← lines_eq, List.append_assoc]
    rfl
  have found := @index_blank start msg.body (msg.headers.map Header.text)
    (List.forall_mem_cons.mpr ⟨⟨inline, by simp [start]⟩, texts_inline h.headers⟩)
  rw [bodyOf, search, cString_of_no_nul no_nul, split, found, Option.map_some, List.drop_left]
  rfl

theorem drop_takeWhile {p : UInt8 → Bool} {s : CString} :
    s.drop (s.takeWhile p).length = s.dropWhile p :=
  (congrArg (List.drop _) List.takeWhile_append_dropWhile.symm).trans List.drop_left

-- What is behind the mark fits in an array as long as that of the whole target.
theorem query_eq {target : CString} (h : target.length < 256) :
    (target.drop ((target.takeWhile (· != 63)).length + 1)).take 255 =
      (target.dropWhile (· != 63)).drop 1 := by
  rw [← List.drop_drop, drop_takeWhile, List.take_of_length_le]
  have := (List.dropWhile_suffix (p := (· != 63)) (l := target)).length_le
  rw [List.length_drop]
  omega

theorem parse_encode {msg : Message} (h : msg.Plain) :
    ∃ req, parse msg.encode = some req ∧ req.method = msg.method ∧
      req.path = msg.target.takeWhile (· != 63) ∧
      req.query = (msg.target.dropWhile (· != 63)).drop 1 ∧
      req.headers = (msg.headers.take maxHeaders).map Header.stored ∧
      req.bodyLen = (msg.body.take maxBody).length ∧
      req.body = msg.body.take maxBody ++ .replicate (maxBody - (msg.body.take maxBody).length) 0 := by
  let rest := Header.lines msg.headers ++ (crlf ++ msg.body)
  let start : Request := {
    method := msg.method
    path   := msg.target.takeWhile (· != 63)
    query  := (msg.target.dropWhile (· != 63)).drop 1
  }
  let stored := (msg.headers.take maxHeaders).map Header.stored
  have text : msg.encode = msg.method ++ 32 :: (msg.target ++ 32 :: (line msg.version ++ rest)) := by
    simp [Message.encode, line, rest]
  have no_nul : 0 ∉ rest := no_nul_lines h.headers (by simp [crlf, h.body])
  have enough : msg.headers.length ≤ rest.length := by
    have := @length_line_pos msg.headers
    rw [List.length_append]
    omega
  have lines := @headerLoop_lines _ _ maxHeaders start _ h.headers (Nat.zero_add _) enough h.body
  have ⟨method, path, query⟩ := @foldl_frame stored start
  have all := @headers_foldl stored start
  have target : cString msg.target = msg.target := cString_of_no_nul h.target.no_nul
  have found : parse msg.encode = some {
      stored.foldl Request.add start with
      body    := msg.body.take maxBody ++ .replicate (maxBody - (msg.body.take maxBody).length) 0
      bodyLen := (msg.body.take maxBody).length
    } := by
    rw [parse, bodyOf_encode h, text]
    simp only [word_append h.method_blank, word_append h.target_blank, Option.bind_eq_bind,
      Option.bind_some, breakLine_line h.version no_nul, target, query_eq h.target_fits,
      cString_of_no_nul h.method.no_nul,
      if_neg (Nat.not_le_of_lt h.method_fits), if_neg (Nat.not_le_of_lt h.target_fits)]
    rw [lines]
  exact ⟨_, found, method, path, query, all, rfl, rfl⟩

theorem stored_headers {msg : Message} (h : msg.WellFormed) :
    (msg.headers.take maxHeaders).map Header.stored = msg.headers.map Header.trim := by
  rw [List.take_of_length_le h.few]
  exact List.map_congr_left fun header hm => stored_eq_trim (h.headers_fit header hm)

-- The end of a body that fills the array is behind it.
theorem body_lt {msg : Message} {req : Request} (h : msg.WellFormed) (hp : parse msg.encode = some req)
    (parsed : msg.Parsed req) : msg.body.length < maxBody := by
  obtain ⟨req', hp', -, -, -, -, len, body⟩ := parse_encode h.toPlain
  obtain rfl := Option.some.inj (hp.symm.trans hp')
  have bound := (List.getElem?_eq_some_iff.mp parsed.terminated).fst
  rw [body, len, List.length_append, List.length_replicate, List.take_of_length_le h.body_fits] at bound
  omega

def putLed (body : CString) : Message where
  method  := "PUT"
  target  := "/api/v1/printer/led?x=1"
  version := "HTTP/1.1"
  headers := [{ name := "Host", value := " ultimaker" }]
  body    := body

theorem putLed_wellFormed {body : CString} (h : 0 ∉ body) (fits : body.length ≤ maxBody) :
    (putLed body).WellFormed where
  method       := (by decide : Inline "PUT")
  method_blank := (by decide : 32 ∉ ofString "PUT")
  method_fits  := (by decide : (ofString "PUT").length < 8)
  target       := (by decide : Inline "/api/v1/printer/led?x=1")
  target_blank := (by decide : 32 ∉ ofString "/api/v1/printer/led?x=1")
  target_fits  := (by decide : (ofString "/api/v1/printer/led?x=1").length < 256)
  version      := (by decide : Inline "HTTP/1.1")
  headers      := List.forall_mem_singleton.mpr ⟨by decide, by decide, by decide⟩
  body         := h
  headers_fit  := List.forall_mem_singleton.mpr ⟨⟨by decide, by decide, by decide⟩, by decide, by decide⟩
  few          := (by decide : 1 ≤ 16)
  body_fits    := fits

def letters : CString :=
  .replicate maxBody 97

end Deneb.Http
