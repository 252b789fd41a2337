import DenebModel.Web.Multipart
import DenebModel.Web.Theorems.Request

namespace Deneb.Multipart

open CString Http Occurrence

-- A part of a form as its sender sees it, with the lines of its other headers.
structure Part where
  before   : List CString     := []
  name     : CString
  filename : Option CString   := none
  after    : List CString     := []
  content  : List UInt8

def filenameText : Option CString → CString
  | none   => []
  | some f => ofString "; filename=\"" ++ (f ++ [34])

def Part.disposition (p : Part) : CString :=
  ofString "Content-Disposition: form-data; name=\"" ++ (p.name ++ 34 :: filenameText p.filename)

def Part.headers (p : Part) : List CString :=
  p.before ++ p.disposition :: p.after

def delimiter (boundary : CString) : CString :=
  ofString "--" ++ boundary

def Part.encode (boundary : CString) (p : Part) : List UInt8 :=
  line (delimiter boundary) ++ (p.headers.flatMap line ++ (crlf ++ (p.content ++ crlf)))

-- The form; nothing is said about what follows its end.
def encode (boundary : CString) (parts : List Part) (epilogue : List UInt8) : List UInt8 :=
  parts.flatMap (Part.encode boundary) ++ (delimiter boundary ++ (ofString "--" ++ epilogue))

structure Part.WellFormed (boundary : CString) (p : Part) : Prop where
  before   : ∀ t ∈ p.before, Inline t ∧ t ≠ []
  name     : Inline p.name ∧ 34 ∉ p.name
  filename : ∀ f ∈ p.filename, Inline f ∧ 34 ∉ f
  after    : ∀ t ∈ p.after, Inline t ∧ t ≠ []
  content  : ¬delimiter boundary <:+: p.content

variable {boundary : CString} {p : Part} {parts : List Part} {epilogue : List UInt8}

theorem inline_disposition (h : p.WellFormed boundary) : Inline p.disposition := by
  have start : Inline "Content-Disposition: form-data; name=\"" := by decide
  refine start.append (h.name.left.append (Inline.cons (by decide) ?_))
  cases hf : p.filename
  case none   => exact nofun
  case some f => exact (by decide : Inline "; filename=\"").append ((h.filename f hf).left.append (by decide))

theorem headers_inline (h : p.WellFormed boundary) : ∀ t ∈ p.headers, Inline t ∧ t ≠ [] :=
  List.forall_mem_append.mpr ⟨h.before, List.forall_mem_cons.mpr
    ⟨⟨inline_disposition h, by simp [Part.disposition, ofString]⟩, h.after⟩⟩

theorem headers_cons : ∃ t ts, p.headers = t :: ts := by
  cases h : p.before <;> simp [Part.headers, h]

theorem memmem_self {p s : List UInt8} : memmem p (p ++ s) = some ([], p ++ s) := by
  simp [memmem, index_self]

theorem memmem_at {p s t : List UInt8} (h : index p (s ++ t) = some s.length) :
    memmem p (s ++ t) = some (s, t) := by
  simp [memmem, h]

theorem boundaryLine_eq (h : boundary.length < 250) : boundaryLine boundary = delimiter boundary := by
  have two : (ofString "--").length = 2 := by decide
  exact fit_of_length_lt (by rw [List.length_append]; omega)

theorem encode_cons : encode boundary (p :: parts) epilogue = p.encode boundary ++ encode boundary parts epilogue := by
  simp [encode]

-- Every form starts with the delimiter, also an empty one.
theorem encode_start : ∃ rest, encode boundary parts epilogue = delimiter boundary ++ rest := by
  cases parts
  case nil  => exact ⟨_, rfl⟩
  case cons => exact ⟨_, by rw [encode_cons, Part.encode, line, List.append_assoc, List.append_assoc]⟩

theorem index_content {content rest : List UInt8} (hb : 13 ∉ boundary)
    (h : ¬delimiter boundary <:+: content) :
    index (delimiter boundary) (content ++ (crlf ++ (delimiter boundary ++ rest))) = some (content ++ crlf).length := by
  have hc : 13 ∉ delimiter boundary := by simp [delimiter, hb]; decide
  have start : delimiter boundary = 45 :: (45 :: boundary) := rfl
  have first : ¬delimiter boundary <+: 13 :: 10 :: (delimiter boundary ++ rest) := by simp [start]
  have second : ¬delimiter boundary <+: 10 :: (delimiter boundary ++ rest) := by simp [start]
  rw [crlf, List.cons_append, List.singleton_append, index_append_mark hc h, index_cons first,
    index_cons second, index_self]
  simp

theorem no_nul_block {ts : List CString} (h : ∀ t ∈ ts, Inline t ∧ t ≠ []) : 0 ∉ block ts := by
  cases ts
  case nil => exact List.not_mem_nil
  case cons t ts =>
    have ⟨ht, hs⟩ := List.forall_mem_cons.mp h
    have rest : 0 ∉ ts.flatMap fun u => crlf ++ u := fun hm => by
      obtain ⟨u, hu, hz⟩ := List.mem_flatMap.mp hm
      exact (hs u hu).left.no_nul (by simpa [crlf] using hz)
    simp [block, ht.left.no_nul, rest]

theorem nextPiece_cons (hb : 13 ∉ boundary) (h : p.WellFormed boundary) :
    nextPiece (delimiter boundary) (encode boundary (p :: parts) epilogue) = some {
      headers := block p.headers
      content := p.content ++ crlf
      next    := encode boundary parts epilogue
    } := by
  obtain ⟨t, ts, hh⟩ := @headers_cons p
  obtain ⟨rest, hr⟩ := @encode_start boundary parts epilogue
  have inline := headers_inline h
  have split : encode boundary (p :: parts) epilogue = delimiter boundary ++ (13 :: 10 ::
      (block p.headers ++ (crlf ++ (crlf ++ (p.content ++ (crlf ++ encode boundary parts epilogue)))))) := by
    rw [encode_cons, Part.encode, hh, block_line]
    simp [line, crlf]
  have headers : index [13, 10, 13, 10] (block p.headers ++ (crlf ++ (crlf ++ (p.content ++ (crlf ++
      encode boundary parts epilogue))))) = some (block p.headers).length := by
    rw [hh] at inline ⊢
    exact index_blank inline
  have content : memmem (delimiter boundary) (p.content ++ (crlf ++ encode boundary parts epilogue)) =
      some (p.content ++ crlf, encode boundary parts epilogue) := by
    have found := @index_content _ _ rest hb h.content
    rw [← hr, ← List.append_assoc] at found
    rw [← List.append_assoc]
    exact memmem_at found
  have no_nul : 0 ∉ block p.headers := no_nul_block inline
  rw [nextPiece, split, memmem_self]
  simp only [Option.bind_eq_bind, Option.bind_some, List.drop_left]
  rw [if_neg (by simp [startsWith, ofString]), skipLineEnd, memmem_at headers]
  have behind : ∀ s : List UInt8, (crlf ++ (crlf ++ s)).drop 4 = s := fun _ => rfl
  simp only [Option.bind_some, behind, content, cString_of_no_nul no_nul]

theorem nextPiece_nil : nextPiece (delimiter boundary) (encode boundary [] epilogue) = none := by
  rw [nextPiece, encode, List.flatMap_nil, List.nil_append, memmem_self]
  simp only [Option.bind_eq_bind, Option.bind_some, List.drop_left]
  exact if_pos (by simp [startsWith])

theorem stripLineEnd_content {content : List UInt8} : stripLineEnd (content ++ crlf) = content := by
  have last : (content ++ crlf).getLast? = some 10 := by simp [crlf]
  have cut : (content ++ crlf).dropLast = content ++ [13] := by
    rw [crlf, List.dropLast_append_of_ne_nil (by simp)]
    rfl
  have last' : (content ++ [13]).getLast? = some 13 := by simp
  simp only [stripLineEnd, last, if_true, cut, last', List.dropLast_concat]

def lower (s : CString) : CString :=
  s.map toLower

theorem lower_append {s t : CString} : lower (s ++ t) = lower s ++ lower t :=
  List.map_append

theorem toLower_eq {c d : UInt8} (hd : isUpper d = false) (hl : isLower d = false) :
    toLower c = d ↔ c = d := by
  unfold toLower
  split
  case isFalse => rfl
  case isTrue hc =>
    constructor
    case mp =>
      rintro rfl
      simp [isUpper, isLower, UInt8.le_iff_toNat_le] at hc hl
      omega
    case mpr =>
      rintro rfl
      simp [hc] at hd

theorem mem_lower {s : CString} {c : UInt8} (hd : isUpper c = false) (hl : isLower c = false) :
    c ∈ lower s ↔ c ∈ s := by
  constructor
  case mp =>
    intro h
    obtain ⟨d, hd', he⟩ := List.mem_map.mp h
    exact (toLower_eq hd hl).mp he ▸ hd'
  case mpr => exact fun h => List.mem_map.mpr ⟨c, h, (toLower_eq hd hl).mpr rfl⟩

-- The text occurs in another one, ignoring case.
def Mentions (s t : CString) : Prop :=
  lower t <:+: lower s

instance {s t : CString} : Decidable (Mentions s t) :=
  inferInstanceAs (Decidable (lower t <:+: lower s))

theorem strcasestr_isSome {s t : CString} (hz : 0 ∉ s) : (strcasestr s t).isSome ↔ Mentions s t := by
  rw [strcasestr, cString_of_no_nul hz, Option.isSome_map, Option.isSome_iff_ne_none, ne_eq,
    index_eq_none, not_not]
  rfl

theorem strcasestr_at {s t u : CString} (hz : 0 ∉ s ++ t)
    (h : index (lower u) (lower (s ++ t)) = some s.length) : strcasestr (s ++ t) u = some t := by
  rw [strcasestr, cString_of_no_nul hz]
  exact (congrArg (Option.map _) h).trans (by simp)

-- Lines that do not mention the text are in front of its first occurrence.
theorem index_lines {t s : CString} {ts : List CString} (hr : 13 ∉ t) (hn : 10 ∉ t) (ht : t ≠ [])
    (h : ∀ u ∈ ts, ¬t <:+: lower u) :
    index t (lower (ts.flatMap line ++ s)) = (index t (lower s)).map ((ts.flatMap line).length + ·) := by
  induction ts
  case nil => simp
  case cons u ts ih =>
    obtain ⟨hu, hs⟩ := List.forall_mem_cons.mp h
    have split : lower ((u :: ts).flatMap line ++ s) = lower u ++ 13 :: 10 :: lower (ts.flatMap line ++ s) := by
      simp [lower, line, crlf, toLower, isUpper]
    have first : ∀ {c : UInt8} {v : CString}, c ∉ t → ¬t <+: c :: v := fun hc hp => by
      obtain ⟨d, t, rfl⟩ := List.exists_cons_of_ne_nil ht
      exact hc ((List.cons_prefix_cons.mp hp).left ▸ List.mem_cons_self)
    rw [split, index_append_mark hr hu, index_cons (first hr), index_cons (first hn), ih hs, Option.map_map,
      Option.map_map, Option.map_map]
    congr 1
    funext i
    simp [lower, line, crlf]
    omega

theorem block_split {before after : List CString} {t : CString} :
    block (before ++ t :: after) = before.flatMap line ++ block (t :: after) := by
  induction before
  case nil => rfl
  case cons u before ih =>
    have next : block (u :: (before ++ t :: after)) = line u ++ block (before ++ t :: after) := by
      cases before <;> simp [block, line]
    rw [List.cons_append, next, ih, List.flatMap_cons, List.append_assoc]

theorem disposition_block (h : p.WellFormed boundary)
    (clear : ∀ t ∈ p.before, ¬Mentions t "content-disposition:") :
    disposition (block p.headers) = some (block (p.disposition :: p.after)) := by
  have no_nul := no_nul_block (headers_inline h)
  rw [Part.headers, block_split] at no_nul ⊢
  have own : lower "content-disposition:" <+: lower (block (p.disposition :: p.after)) := by
    have start : lower "content-disposition:" <+: lower "Content-Disposition: form-data; name=\"" := by decide
    rw [block, Part.disposition, List.append_assoc, lower_append]
    exact start.trans (List.prefix_append _ _)
  refine strcasestr_at no_nul ?_
  rw [index_lines (by decide) (by decide) (by decide) clear, index_of_prefix own]
  rfl

theorem firstLine_block {t : CString} {ts : List CString} (h : ∀ u ∈ t :: ts, Inline u ∧ u ≠ []) :
    firstLine (block (t :: ts)) = t := by
  have no_nul := no_nul_block h
  have inline := (h t List.mem_cons_self).left
  cases ts
  case nil =>
    have single : block [t] = t := by simp [block]
    have absent : ¬[13, 10] <:+: t := fun hi => inline.no_return (hi.subset List.mem_cons_self)
    have line : t.takeWhile (· != 10) = t :=
      List.takeWhile_eq_self_iff.mpr fun c hc => bne_iff_ne.mpr (inline c hc).right.left
    rw [single] at no_nul ⊢
    rw [firstLine, search_eq_none no_nul absent]
    exact line
  case cons u ts =>
    have split : block (t :: u :: ts) = t ++ (13 :: [10] ++ (u ++ ts.flatMap fun u => crlf ++ u)) := by
      simp [block, crlf]
    rw [split] at no_nul ⊢
    rw [firstLine, search_found inline.no_return no_nul]

-- The text that every disposition starts with, up to the quote.
def start : CString :=
  ofString "content-disposition: form-data; name="

theorem lower_disposition :
    lower p.disposition = start ++ 34 :: (lower p.name ++ 34 :: lower (filenameText p.filename)) := by
  have first : lower (ofString "Content-Disposition: form-data; name=\"") = start ++ [34] := by decide
  have quote : toLower 34 = 34 := by decide
  rw [Part.disposition, lower_append, first, lower_append, List.append_assoc, List.singleton_append]
  simp only [lower, List.map_cons, quote]

theorem no_quote_lower (h : p.WellFormed boundary) : 34 ∉ lower p.name := fun hm =>
  h.name.right ((mem_lower (by decide) (by decide)).mp hm)

-- Without a file name, a text without quotes is in the name or nowhere.
theorem infix_disposition {t tail : CString} (hq : 34 ∉ t) (ht : ¬t <:+: start)
    (hn : ¬t <:+: lower p.name) (hr : ¬t <:+: tail) : ¬t <:+: start ++ 34 :: (lower p.name ++ 34 :: tail) := by
  intro h
  rcases infix_of_mark hq h with h | h
  case inl => exact ht h
  case inr => exact (infix_of_mark hq h).elim hn hr

-- The text in front of the quote is not the end of the name, and what is behind it not its beginning.
theorem infix_disposition_mark {t u tail : CString} (h : p.WellFormed boundary) (hq : 34 ∉ t)
    (hs : ¬(t <:+ start ∧ u <+: lower p.name ++ 34 :: tail)) (hn : ¬(t <:+ lower p.name ∧ u <+: tail))
    (hr : ¬t ++ 34 :: u <:+: tail) : ¬t ++ 34 :: u <:+: start ++ 34 :: (lower p.name ++ 34 :: tail) := by
  intro hi
  rcases infix_mark hq (by decide) hi with hi | hi
  case inl => exact hs hi
  case inr => exact (infix_mark hq (no_quote_lower h) hi).elim hn hr

theorem not_suffix_of_absent {s t : CString} (h : ¬t <:+: s) : ¬t <:+ s := fun hs =>
  h hs.isInfix

variable {filename : CString} {size : Nat}

theorem no_nul_disposition (h : p.WellFormed boundary) : 0 ∉ p.disposition :=
  (inline_disposition h).no_nul

-- A part without a file name whose name does not look like the start of one.
theorem quoted_absent (h : p.WellFormed boundary) (hf : p.filename = none)
    (hn : ¬lower "filename=" <:+ lower p.name) : ¬Mentions p.disposition "filename=\"" := by
  have mark : lower "filename=\"" = lower "filename=" ++ 34 :: [] := by decide
  rw [Mentions, lower_disposition, hf, mark]
  exact infix_disposition_mark h (by decide) (fun ⟨hs, _⟩ => absurd hs (by decide)) (fun ⟨hs, _⟩ => hn hs)
    (by decide)

theorem bare_absent (hf : p.filename = none) (hn : ¬Mentions p.name "filename=") :
    ¬Mentions p.disposition "filename=" := by
  rw [Mentions, lower_disposition, hf]
  exact infix_disposition (by decide) (by decide) hn (by decide)

theorem strcasestr_none {s t : CString} (hz : 0 ∉ s) (h : ¬Mentions s t) : strcasestr s t = none :=
  Option.not_isSome_iff_eq_none.mp fun hs => h ((strcasestr_isSome hz).mp hs)

theorem filenameOf_none (h : p.WellFormed boundary) (hf : p.filename = none)
    (hn : ¬Mentions p.name "filename=") : filenameOf p.disposition filename size = filename := by
  have no_nul := no_nul_disposition h
  rw [filenameOf, strcasestr_none no_nul (quoted_absent h hf (not_suffix_of_absent hn)),
    strcasestr_none no_nul (bare_absent hf hn)]

theorem strcasestr_filename {f : CString} (h : p.WellFormed boundary) (hf : p.filename = some f)
    (hn : ¬lower "filename=" <:+ lower p.name) :
    strcasestr p.disposition "filename=\"" = some (ofString "filename=\"" ++ (f ++ [34])) := by
  have split : p.disposition = (ofString "Content-Disposition: form-data; name=\"" ++ (p.name ++ ofString "\"; ")) ++
      (ofString "filename=\"" ++ (f ++ [34])) := by
    rw [Part.disposition, hf, filenameText]
    simp [ofString]
  have no_nul := no_nul_disposition h
  have found : index (lower "filename=\"") (lower p.disposition) =
      some (ofString "Content-Disposition: form-data; name=\"" ++ (p.name ++ ofString "\"; ")).length := by
    have mark : lower "filename=\"" = lower "filename=" ++ 34 :: [] := by decide
    have own : lower (filenameText p.filename) =
        ofString "; " ++ (lower "filename=" ++ 34 :: [] ++ (lower f ++ [34])) := by
      rw [hf, filenameText]
      simp [lower, ofString, toLower, isUpper]
    rw [lower_disposition, mark, index_mark (by decide) (by decide) (fun ⟨hs, _⟩ => absurd hs (by decide)),
      index_mark (by decide) (no_quote_lower h) (fun ⟨hs, _⟩ => hn hs), own]
    have here : index (lower "filename=" ++ 34 :: []) (ofString "; " ++ (lower "filename=" ++ 34 :: [] ++
        (lower f ++ [34]))) = some (ofString "; ").length :=
      @index_found _ _ (lower "ilename=\"") (ofString "; ") (lower f ++ [34]) 102 (by decide)
    have lengths : (start ++ [34]).length = (ofString "Content-Disposition: form-data; name=\"").length ∧
        (ofString "\"; ").length = (ofString "; ").length + 1 := by decide
    rw [here, Option.map_some, Option.map_some, Option.some_inj, lengths.left]
    simp only [List.length_append, List.length_singleton, lower, List.length_map, lengths.right]
    omega
  rw [split] at no_nul found ⊢
  exact strcasestr_at no_nul found

theorem filenameOf_some {f : CString} (h : p.WellFormed boundary) (hf : p.filename = some f)
    (hn : ¬lower "filename=" <:+ lower p.name) : filenameOf p.disposition filename size = fit size f := by
  have quote : 34 ∉ f := (h.filename f hf).right
  have behind : (ofString "filename=\"" ++ (f ++ [34])).drop 10 = f ++ [34] := rfl
  rw [filenameOf, strcasestr_filename h hf hn]
  simp only [behind, takeWhile_mark quote]
  exact if_pos (by simp)

-- What a client means by a part for a file.
def Part.isFile (p : Part) : Bool :=
  p.filename.isSome || sameText p.name "file"

theorem sameText_iff {s t : CString} : sameText s t ↔ lower s = lower t :=
  beq_iff_eq

theorem isFilePart_of_isFile (h : p.WellFormed boundary) (hf : p.isFile) : isFilePart p.disposition := by
  have no_nul := no_nul_disposition h
  rcases Bool.or_eq_true_iff.mp hf with hf | hf
  case inl =>
    obtain ⟨f, hf⟩ := Option.isSome_iff_exists.mp hf
    have mentions : Mentions p.disposition "filename=\"" := by
      have own : lower (filenameText p.filename) = lower "; " ++ (lower "filename=\"" ++ lower (f ++ [34])) := by
        rw [hf, filenameText, ← lower_append, ← lower_append]
        rfl
      rw [Mentions, lower_disposition, own]
      refine List.infix_append_of_infix_right (List.infix_cons (List.infix_append_of_infix_right ?_))
      exact List.infix_cons (List.infix_append' _ _ _)
    rw [isFilePart, (strcasestr_isSome no_nul).mpr mentions]
    rfl
  case inr =>
    have mentions : Mentions p.disposition "name=\"file\"" := by
      rw [Mentions, lower_disposition, sameText_iff.mp hf]
      have first : start = ofString "content-disposition: form-data; " ++ ofString "name=" := by decide
      rw [first, List.append_assoc]
      refine List.infix_append_of_infix_right ⟨[], lower (filenameText p.filename), ?_⟩
      rfl
    rw [isFilePart, (strcasestr_isSome no_nul).mpr mentions, Bool.or_true]
    rfl

theorem isFilePart_other (h : p.WellFormed boundary) (hf : p.isFile = false)
    (hb : ¬Mentions p.name "name=file") (hn : ¬Mentions p.name "filename=") :
    isFilePart p.disposition = false := by
  have no_nul := no_nul_disposition h
  have ⟨hnone, other⟩ := Bool.or_eq_false_iff.mp hf
  have none_found : p.filename = none := Option.isNone_iff_eq_none.mp (by simpa using hnone)
  have quoted : ¬Mentions p.disposition "name=\"file\"" := by
    have mark : lower "name=\"file\"" = lower "name=" ++ 34 :: lower "file\"" := by decide
    rw [Mentions, lower_disposition, none_found, mark]
    refine infix_disposition_mark h (by decide) (fun ⟨_, hp⟩ => ?_) (fun ⟨_, hp⟩ => absurd hp (by decide))
      (by decide)
    have close : lower "file\"" = lower "file" ++ 34 :: [] := by decide
    rw [close] at hp
    have same := (prefix_mark (by decide) (no_quote_lower h) hp).left
    exact absurd (sameText_iff.mpr same.symm) (by simp [other])
  have bare : ¬Mentions p.disposition "name=file" := by
    rw [Mentions, lower_disposition, none_found]
    exact infix_disposition (by decide) (by decide) hb (by decide)
  rw [isFilePart, strcasestr_none no_nul (quoted_absent h none_found (not_suffix_of_absent hn)),
    strcasestr_none no_nul quoted, strcasestr_none no_nul bare]
  rfl

-- The parts up to the first one that is looked for.
def reached (f : Part → Bool) : List Part → List Part
  | []      => []
  | p :: ps => if f p then [p] else p :: reached f ps

def Part.PlainBefore (p : Part) : Prop :=
  ∀ t ∈ p.before, ¬Mentions t "content-disposition:"

-- The name does not pass for something else in the search for a file.
def Part.FileClear (p : Part) : Prop :=
  p.PlainBefore ∧
    if p.isFile then p.filename.isSome → ¬lower "filename=" <:+ lower p.name
    else ¬Mentions p.name "name=file" ∧ ¬Mentions p.name "filename="

instance {p : Part} : Decidable p.PlainBefore :=
  inferInstanceAs (Decidable (∀ t ∈ p.before, ¬Mentions t "content-disposition:"))

instance : DecidablePred Part.FileClear := fun p =>
  inferInstanceAs (Decidable (p.PlainBefore ∧
    if p.isFile then p.filename.isSome → ¬lower "filename=" <:+ lower p.name
    else ¬Mentions p.name "name=file" ∧ ¬Mentions p.name "filename="))

theorem after_inline (h : p.WellFormed boundary) : ∀ u ∈ p.disposition :: p.after, Inline u ∧ u ≠ [] := fun u hu =>
  headers_inline h u (List.mem_append_right _ hu)

theorem fileLoop_encode {rounds : Nat} (hb : 13 ∉ boundary) (h : ∀ p ∈ parts, p.WellFormed boundary)
    (clear : ∀ p ∈ reached Part.isFile parts, p.FileClear) (enough : parts.length < rounds) :
    fileLoop (delimiter boundary) size rounds filename (encode boundary parts epilogue) =
      (parts.find? Part.isFile).map fun p => (p.content, (p.filename.map (fit size)).getD filename) := by
  induction parts generalizing rounds
  case nil =>
    obtain ⟨rounds, rfl⟩ := Nat.exists_eq_add_of_lt enough
    rw [fileLoop, nextPiece_nil]
    rfl
  case cons p parts ih =>
    obtain ⟨rounds, rfl⟩ := Nat.exists_eq_add_of_lt enough
    have ⟨hp, hs⟩ := List.forall_mem_cons.mp h
    have here : p.FileClear := clear p (by rw [reached]; split <;> exact List.mem_cons_self)
    rw [fileLoop, nextPiece_cons hb hp]
    simp only [disposition_block hp here.left, firstLine_block (after_inline hp)]
    cases hf : p.isFile
    case true =>
      have name := here.right
      rw [hf, if_pos rfl] at name
      have result : filenameOf p.disposition filename size = (p.filename.map (fit size)).getD filename := by
        cases hn : p.filename
        case some f => exact filenameOf_some hp hn (name (by simp [hn]))
        case none =>
          have named : lower p.name = lower "file" := by
            simpa [Part.isFile, hn, sameText_iff] using hf
          exact filenameOf_none hp hn (by rw [Mentions, named]; decide)
      rw [if_pos (isFilePart_of_isFile hp hf), List.find?_cons_of_pos hf, result, stripLineEnd_content]
      rfl
    case false =>
      have name := here.right
      rw [hf, if_neg Bool.false_ne_true] at name
      have none_found : p.filename = none := by
        simpa using (Bool.or_eq_false_iff.mp hf).left
      have clear' : ∀ p ∈ reached Part.isFile parts, p.FileClear := fun q hq =>
        clear q (by rw [reached, hf]; exact List.mem_cons_of_mem _ hq)
      rw [isFilePart_other hp hf name.left name.right, if_neg Bool.false_ne_true,
        filenameOf_none hp none_found name.right, ih hs clear' (by rw [List.length_cons] at *; omega),
        List.find?_cons_of_neg (by simp [hf])]

-- The texts behind the start of the header that a search for a field looks at.
def Part.texts (p : Part) : List CString :=
  p.name :: p.after

def Part.isField (field : CString) (p : Part) : Bool :=
  p.filename.isNone && sameText p.name field

def quotedName (field : CString) : CString :=
  ofString "name=\"" ++ field ++ "\""

def bareName (field : CString) : CString :=
  ofString "name=" ++ field

-- What the part says does not pass for something else in the search for a field.
def Part.FieldClear (field : CString) (p : Part) : Prop :=
  p.PlainBefore ∧
    if p.isField field then ∀ t ∈ p.texts, ¬Mentions t "filename="
    else p.filename = none → (∃ t ∈ p.texts, Mentions t "filename=") ∨
      ∀ t ∈ p.texts, ¬Mentions t (bareName field) ∧ ¬Mentions t (quotedName field)

instance {field : CString} : DecidablePred (Part.FieldClear field) := fun p =>
  inferInstanceAs (Decidable (p.PlainBefore ∧
    if p.isField field then ∀ t ∈ p.texts, ¬Mentions t "filename="
    else p.filename = none → (∃ t ∈ p.texts, Mentions t "filename=") ∨
      ∀ t ∈ p.texts, ¬Mentions t (bareName field) ∧ ¬Mentions t (quotedName field)))

variable {field : CString}

def Part.tail (p : Part) : CString :=
  p.after.flatMap fun u => crlf ++ u

theorem lower_block (hf : p.filename = none) :
    lower (block (p.disposition :: p.after)) = start ++ 34 :: (lower p.name ++ 34 :: lower p.tail) := by
  rw [block, lower_append, lower_disposition, hf]
  simp [filenameText, lower, Part.tail]

-- Without line ends, a text is in one of the lines.
theorem infix_tail {t : CString} {ts : List CString} (hr : 13 ∉ t) (hn : 10 ∉ t) (ht : t ≠ []) :
    t <:+: lower (ts.flatMap fun u => crlf ++ u) ↔ ∃ u ∈ ts, t <:+: lower u := by
  induction ts
  case nil => simp [lower, ht]
  case cons u ts ih =>
    have split : lower ((u :: ts).flatMap fun u => crlf ++ u) =
        13 :: 10 :: (lower u ++ lower (ts.flatMap fun u => crlf ++ u)) := by
      simp [lower, crlf, toLower, isUpper]
    have none_empty : ¬t <:+: [] := by simpa using ht
    simp only [split, List.mem_cons, exists_eq_or_imp, ← ih]
    constructor
    case mp =>
      intro h
      replace h := (infix_of_mark (t := []) hr h).resolve_left none_empty
      replace h := (infix_of_mark (t := []) hn h).resolve_left none_empty
      cases ts
      case nil => exact .inl (by simpa [lower] using h)
      case cons v ts =>
        have next : lower ((v :: ts).flatMap fun u => crlf ++ u) =
            13 :: lower (10 :: (v ++ ts.flatMap fun u => crlf ++ u)) := by
          simp [lower, crlf, toLower, isUpper]
        rw [next] at h ⊢
        exact (infix_of_mark hr h).imp_right List.infix_cons
    case mpr =>
      intro h
      refine List.infix_cons (List.infix_cons ?_)
      rcases h with h | h
      case inl => exact List.infix_append_of_infix_left h
      case inr => exact List.infix_append_of_infix_right h

theorem mentions_texts {t : CString} (hf : p.filename = none) (hq : 34 ∉ lower t) (hr : 13 ∉ lower t)
    (hn : 10 ∉ lower t) (ht : lower t ≠ []) (hs : ¬lower t <:+: start) :
    Mentions (block (p.disposition :: p.after)) t ↔ ∃ u ∈ p.texts, Mentions u t := by
  simp only [Mentions, lower_block hf, Part.texts, List.mem_cons, exists_eq_or_imp]
  constructor
  case mp =>
    intro h
    have h := (infix_of_mark hq h).resolve_left hs
    exact (infix_of_mark hq h).imp_right (infix_tail hr hn ht).mp
  case mpr =>
    intro h
    refine List.infix_append_of_infix_right (List.infix_cons ?_)
    rcases h with h | h
    case inl => exact List.infix_append_of_infix_left h
    case inr => exact List.infix_append_of_infix_right (List.infix_cons ((infix_tail hr hn ht).mpr h))

theorem bareName_start (hf : field ≠ []) : ¬lower (bareName field) <:+: start := by
  have split : start = ofString "content-disposition: form-data; name" ++ 61 :: [] := by decide
  have mark : lower (bareName field) = ofString "name" ++ 61 :: lower field := by
    rw [bareName, lower_append]
    rfl
  rw [split, mark]
  intro h
  rcases infix_mark (by decide) (by decide) h with ⟨-, h⟩ | h
  case inl => simp [lower, hf] at h
  case inr => simp at h

theorem lower_quotedName : lower (quotedName field) = lower "name=" ++ 34 :: (lower field ++ 34 :: []) := by
  rw [quotedName, lower_append, lower_append, List.append_assoc]
  rfl

theorem no_mark_lower {c : UInt8} (hd : isUpper c = false) (hl : isLower c = false) (h : c ∉ field) :
    c ∉ lower field := fun hm => h ((mem_lower hd hl).mp hm)

theorem lower_tail_head {c : UInt8} {s : CString} (hc : c ≠ 13) : ¬c :: s <+: lower p.tail := by
  unfold Part.tail
  cases p.after
  case nil => simp [lower]
  case cons u us =>
    intro h
    exact hc (List.cons_prefix_cons.mp h).left

theorem quotedName_texts (h : p.WellFormed boundary) (hf : p.filename = none) (hi : Inline field)
    (hq : 34 ∉ field) (hn : field ≠ []) (other : lower p.name ≠ lower field)
    (mentions : Mentions (block (p.disposition :: p.after)) (quotedName field)) :
    ∃ u ∈ p.texts, Mentions u (quotedName field) := by
  have quote := no_mark_lower (c := 34) (by decide) (by decide) hq
  rw [Mentions, lower_block hf, lower_quotedName] at mentions
  rcases infix_mark (by decide) (by decide) mentions with ⟨-, hp⟩ | mentions
  case inl => exact absurd (prefix_mark quote (no_quote_lower h) hp).left.symm other
  case inr =>
    rcases infix_mark (by decide) (no_quote_lower h) mentions with ⟨-, hp⟩ | mentions
    case inl =>
      obtain ⟨c, rest, rfl⟩ := List.exists_cons_of_ne_nil hn
      have first : toLower c ≠ 13 := fun hc =>
        (hi c List.mem_cons_self).right.right ((toLower_eq (by decide) (by decide)).mp hc)
      exact absurd hp (lower_tail_head first)
    case inr =>
      have no_return := no_mark_lower (c := 13) (by decide) (by decide) hi.no_return
      have no_feed := no_mark_lower (c := 10) (by decide) (by decide) fun hm => (hi 10 hm).right.left rfl
      obtain ⟨u, hu, hm⟩ := (infix_tail (by simp [no_return]; decide) (by simp [no_feed]; decide)
        (by simp)).mp mentions
      exact ⟨u, List.mem_cons_of_mem _ hu, by rw [Mentions, lower_quotedName]; exact hm⟩

structure FieldName (field : CString) : Prop where
  inline    : Inline field
  no_quote  : 34 ∉ field
  some_name : field ≠ []
  fits      : field.length ≤ 152

theorem dispositionHasName_iff {disp : CString} (hz : 0 ∉ disp) (h : FieldName field) :
    dispositionHasName disp field ↔ Mentions disp (quotedName field) ∨ Mentions disp (bareName field) := by
  have quoted : fit 160 (quotedName field) = quotedName field := by
    have := h.fits
    have marks : (ofString "name=\"").length = 6 ∧ (ofString "\"").length = 1 := by decide
    exact fit_of_length_lt (by simp only [quotedName, List.length_append]; omega)
  have bare : fit 160 (bareName field) = bareName field := by
    have := h.fits
    have mark : (ofString "name=").length = 5 := by decide
    exact fit_of_length_lt (by simp only [bareName, List.length_append]; omega)
  rw [dispositionHasName, if_neg (by simpa using h.some_name), ← quotedName, ← bareName, quoted, bare,
    Bool.or_eq_true, strcasestr_isSome hz, strcasestr_isSome hz]

theorem notMem_bareName {c : UInt8} (hd : isUpper c = false) (hl : isLower c = false)
    (hc : c ∉ ofString "name=") (h : c ∉ field) : c ∉ lower (bareName field) := by
  refine no_mark_lower hd hl ?_
  simp only [bareName, List.mem_append, hc, h, or_false, not_false_eq_true]

theorem bareName_texts (hf : p.filename = none) (h : FieldName field) :
    Mentions (block (p.disposition :: p.after)) (bareName field) ↔ ∃ u ∈ p.texts, Mentions u (bareName field) :=
  mentions_texts hf
    (notMem_bareName (by decide) (by decide) (by decide) h.no_quote)
    (notMem_bareName (by decide) (by decide) (by decide) h.inline.no_return)
    (notMem_bareName (by decide) (by decide) (by decide) fun hm => (h.inline 10 hm).right.left rfl)
    (by simp [lower, bareName, h.some_name]) (bareName_start h.some_name)

theorem filename_texts (hf : p.filename = none) :
    Mentions (block (p.disposition :: p.after)) "filename=" ↔ ∃ u ∈ p.texts, Mentions u "filename=" :=
  mentions_texts hf (by decide) (by decide) (by decide) (by decide) (by decide)

theorem isField_headers (h : p.WellFormed boundary) (hn : FieldName field) (clear : p.FieldClear field) :
    Multipart.isField (block p.headers) field = p.isField field := by
  have no_nul := no_nul_block (after_inline h)
  have absent : (strcasestr (block (p.disposition :: p.after)) "filename=").isNone ↔
      ¬Mentions (block (p.disposition :: p.after)) "filename=" := by
    rw [← strcasestr_isSome no_nul, Bool.not_eq_true, Option.isSome_eq_false_iff]
  have code : Multipart.isField (block p.headers) field ↔
      ¬Mentions (block (p.disposition :: p.after)) "filename=" ∧
        (Mentions (block (p.disposition :: p.after)) (quotedName field) ∨
          Mentions (block (p.disposition :: p.after)) (bareName field)) := by
    rw [Multipart.isField, disposition_block h clear.left]
    simp only [Bool.and_eq_true, absent, dispositionHasName_iff no_nul hn]
  obtain ⟨_, clear⟩ := clear
  cases hf : p.filename
  case some f =>
    have mentions : Mentions (block (p.disposition :: p.after)) "filename=" := by
      have own : lower (filenameText p.filename) = lower "; " ++ (lower "filename=" ++ lower (34 :: (f ++ [34]))) := by
        rw [hf, filenameText, ← lower_append, ← lower_append]
        rfl
      rw [Mentions, block, lower_append, lower_disposition, own]
      refine List.infix_append_of_infix_left (List.infix_append_of_infix_right (List.infix_cons ?_))
      exact List.infix_append_of_infix_right (List.infix_cons (List.infix_append' _ _ _))
    have other : p.isField field = false := by simp [Part.isField, hf]
    rw [other]
    exact Bool.not_eq_true _ |>.mp fun hc => (code.mp hc).left mentions
  case none =>
    rw [Bool.eq_iff_iff, code, filename_texts hf]
    cases own : p.isField field
    case true =>
      have named : lower p.name = lower field := by simpa [Part.isField, hf, sameText_iff] using own
      rw [own, if_pos rfl] at clear
      have mentions : Mentions (block (p.disposition :: p.after)) (quotedName field) := by
        have first : start = ofString "content-disposition: form-data; " ++ lower "name=" := by decide
        rw [Mentions, lower_block hf, lower_quotedName, named, first]
        exact ⟨ofString "content-disposition: form-data; ", lower p.tail, by simp⟩
      have unmarked : ¬∃ u ∈ p.texts, Mentions u "filename=" := by
        rintro ⟨u, hu, hm⟩
        exact clear u hu hm
      exact iff_of_true ⟨unmarked, .inl mentions⟩ rfl
    case false =>
      have other : lower p.name ≠ lower field := fun he => by
        simp [Part.isField, hf, sameText_iff.mpr he] at own
      rw [own, if_neg Bool.false_ne_true] at clear
      refine iff_of_false ?_ Bool.false_ne_true
      rintro ⟨unmarked, named⟩
      rcases clear hf with marked | unnamed
      case inl => exact unmarked marked
      case inr =>
        rcases named with hq | hb
        case inl =>
          obtain ⟨u, hu, hm⟩ := quotedName_texts h hf hn.inline hn.no_quote hn.some_name other hq
          exact (unnamed u hu).right hm
        case inr =>
          obtain ⟨u, hu, hm⟩ := (bareName_texts hf hn).mp hb
          exact (unnamed u hu).left hm

theorem fieldLoop_encode {rounds : Nat} (hb : 13 ∉ boundary) (hn : FieldName field)
    (h : ∀ p ∈ parts, p.WellFormed boundary)
    (clear : ∀ p ∈ reached (Part.isField field) parts, p.FieldClear field) (enough : parts.length < rounds) :
    fieldLoop (delimiter boundary) field size rounds (encode boundary parts epilogue) =
      (parts.find? (Part.isField field)).map fun p => fit size p.content := by
  induction parts generalizing rounds
  case nil =>
    obtain ⟨rounds, rfl⟩ := Nat.exists_eq_add_of_lt enough
    rw [fieldLoop, nextPiece_nil]
    rfl
  case cons p parts ih =>
    obtain ⟨rounds, rfl⟩ := Nat.exists_eq_add_of_lt enough
    have ⟨hp, hs⟩ := List.forall_mem_cons.mp h
    have here : p.FieldClear field := clear p (by rw [reached]; split <;> exact List.mem_cons_self)
    rw [fieldLoop, nextPiece_cons hb hp]
    simp only [isField_headers hp hn here]
    cases hf : p.isField field
    case true =>
      rw [if_pos rfl, List.find?_cons_of_pos hf, stripLineEnd_content]
      rfl
    case false =>
      have clear' : ∀ p ∈ reached (Part.isField field) parts, p.FieldClear field := fun q hq =>
        clear q (by rw [reached, hf]; exact List.mem_cons_of_mem _ hq)
      rw [if_neg Bool.false_ne_true, ih hs clear' (by rw [List.length_cons] at *; omega),
        List.find?_cons_of_neg (by simp [hf])]

theorem length_encode : parts.length < (encode boundary parts epilogue).length := by
  induction parts
  case nil =>
    simp only [encode, delimiter, List.flatMap_nil, List.nil_append, List.length_append, List.length_nil]
    have : (ofString "--").length = 2 := by decide
    omega
  case cons p parts ih =>
    rw [encode_cons, List.length_append, List.length_cons]
    have : 0 < (p.encode boundary).length := by
      rw [Part.encode, List.length_append, length_line]
      omega
    omega

theorem encode_nonempty : (encode boundary parts epilogue).isEmpty = false := by
  have := @length_encode boundary parts epilogue
  rw [List.isEmpty_eq_false_iff, ← List.length_pos_iff]
  omega

def uuidPart : Part where
  name    := "job_instance_uuid"
  content := ofString "4711"

def filePart : Part where
  name     := "file"
  filename := some "cube.gcode"
  after    := ["Content-Type: application/octet-stream"]
  content  := ofString "G28" ++ crlf

-- The name of a part that no one takes for a file.
def renamePart : Part where
  name    := "rename=file"
  content := ofString "old"

theorem wellFormed_parts : ∀ p ∈ [uuidPart, filePart, renamePart], p.WellFormed "xYz" := by
  simp only [List.forall_mem_cons]
  exact ⟨⟨by decide, by decide, by decide, by decide, by decide⟩,
    ⟨by decide, by decide, by decide, by decide, by decide⟩,
    ⟨by decide, by decide, by decide, by decide, by decide⟩, nofun⟩

end Deneb.Multipart
