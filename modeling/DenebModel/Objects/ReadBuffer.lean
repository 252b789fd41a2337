import DenebModel.Objects.GcodeStream

namespace Deneb

-- What `read` returns: some bytes (none of them at the end of the file), or one of the errors.
inductive ReadResult
  | data (bytes : List UInt8)
  | interrupted
  | failed
  deriving DecidableEq

namespace ReadResult

-- What the calls yield byte by byte, up to the end of the file.
def bytes : List ReadResult → List (Option UInt8)
  | []                     => []
  | data [] :: _           => []
  | data (b :: bs) :: rest => (b :: bs).map some ++ bytes rest
  | interrupted :: rest    => bytes rest
  | failed :: rest         => none :: bytes rest

end ReadResult

-- The fields `read_buf`, `read_pos`, `read_len` and `eof` of a stream, with the results of the calls
-- of `read` that are left.
structure ReadBuffer where
  unread  : List UInt8      := []
  eof     : Bool            := false
  results : List ReadResult := []

namespace ReadBuffer

-- The loop of `stream_read_char` when nothing is left in the buffer.
def refill : List ReadResult → Int × ReadBuffer
  | []                    => (0, { eof := true })
  | .data [] :: rest      => (0, { eof := true, results := rest })
  | .data bs :: rest      => (1, { unread := bs, results := rest })
  | .interrupted :: rest  => refill rest
  | .failed :: rest       => (-1, { results := rest })

-- `stream_read_char`
def readChar (r : ReadBuffer) : Int × Option UInt8 × ReadBuffer :=
  match r.unread with
  | c :: unread => (1, some c, { r with unread := unread })
  | []          =>
    if r.eof then (0, none, r)
    else
      match refill r.results with
      | (rc, r) =>
        match r.unread with
        | c :: unread => (1, some c, { r with unread := unread })
        | []          => (rc, none, r)

-- The bytes that are still to come.
def reads (r : ReadBuffer) : List (Option UInt8) :=
  r.unread.map some ++ if r.eof then [] else ReadResult.bytes r.results

theorem refill_reads {results : List ReadResult} :
    match ReadResult.bytes results with
    | []             => (refill results).1 = 0 ∧ (refill results).2.unread = [] ∧
      (refill results).2.reads = []
    | none :: rest   => (refill results).1 = -1 ∧ (refill results).2.unread = [] ∧
      (refill results).2.reads = rest
    | some c :: rest => ∃ unread, (refill results).2.unread = c :: unread ∧
      (refill results).2.eof = false ∧
      unread.map some ++ ReadResult.bytes (refill results).2.results = rest := by
  induction results
  case nil => simp [ReadResult.bytes, refill, reads]
  case cons result results hi =>
    cases result
    case data bs =>
      cases bs
      case nil  => simp [ReadResult.bytes, refill, reads]
      case cons => simp [ReadResult.bytes, refill]
    case interrupted => exact hi
    case failed      => simp [ReadResult.bytes, refill, reads]

-- However the bytes are spread over the calls of `read`, a character is the next one of them.
theorem readChar_reads {r : ReadBuffer} :
    match r.reads with
    | []             => ∃ r', r.readChar = (0, none, r') ∧ r'.reads = []
    | none :: rest   => ∃ r', r.readChar = (-1, none, r') ∧ r'.reads = rest
    | some c :: rest => ∃ r', r.readChar = (1, some c, r') ∧ r'.reads = rest := by
  rcases r with ⟨_ | ⟨c, unread⟩, eof, results⟩
  · cases eof
    case true => exact ⟨_, rfl, rfl⟩
    case false =>
      have h := @refill_reads results
      simp only [reads, List.map_nil, List.nil_append, Bool.false_eq_true, if_false, readChar]
      rcases hb : ReadResult.bytes results with _ | ⟨_ | c, rest⟩
      · rw [hb] at h
        obtain ⟨hrc, hu, hr⟩ := h
        dsimp only
        rw [hu, hrc]
        exact ⟨_, rfl, hr⟩
      · rw [hb] at h
        obtain ⟨hrc, hu, hr⟩ := h
        dsimp only
        rw [hu, hrc]
        exact ⟨_, rfl, hr⟩
      · rw [hb] at h
        obtain ⟨unread, hu, he, hr⟩ := h
        dsimp only
        rw [hu]
        refine ⟨_, rfl, ?_⟩
        simp only [he, Bool.false_eq_true, if_false, hr]
  · exact ⟨_, rfl, rfl⟩

-- The loop of `stream_read_line`. Every round but the last takes at least one byte.
def readLoop : Nat → ReadBuffer → Nat → LineBuffer → Int × LineBuffer × ReadBuffer
  | 0, r, _, buffer            => (0, buffer, r)
  | rounds + 1, r, len, buffer =>
    match r.readChar with
    | (_, some c, r) =>
      if c = 13 then readLoop rounds r len buffer
      else if c = 10 then (1, buffer.write len [0], r)
      else if len + 1 < maxGcodeLine then readLoop rounds r (len + 1) (buffer.write len [c])
      else readLoop rounds r len buffer
    | (rc, none, r) => (if rc < 0 then -1 else if 0 < len then 1 else 0, buffer, r)

-- The line that is read depends on the bytes only, not on the calls that yield them.
theorem readLoop_reads {rounds len : Nat} {r : ReadBuffer} {buffer : LineBuffer}
    (h : r.reads.length < rounds) :
    GcodeStream.readLoop r.reads len buffer =
      let (rc, buffer, r) := readLoop rounds r len buffer
      (rc, buffer, r.reads) := by
  induction rounds generalizing r len buffer
  case zero => omega
  case succ rounds hi =>
    have hc := @readChar_reads r
    rcases hr : r.reads with _ | ⟨_ | c, rest⟩
    all_goals
      rw [hr] at hc
      obtain ⟨r', hc, hr'⟩ := hc
      rw [readLoop, hc]
    · simp [GcodeStream.readLoop, hr']
    · simp [GcodeStream.readLoop, hr']
    · have hlt : r'.reads.length < rounds := by
        rw [hr, List.length_cons] at h
        rw [hr']
        omega
      simp only [GcodeStream.readLoop, ← hr']
      split_ifs
      · exact hi hlt
      · rfl
      · exact hi hlt
      · exact hi hlt

end ReadBuffer

end Deneb
