import DenebModel.Objects.GcodeStream

namespace Deneb

open CString

namespace LineBuffer

theorem setAll_eq {bytes : List UInt8} {i : Nat} {bs : List UInt8}
    (h : i + bs.length ≤ bytes.length) :
    setAll bytes i bs = bytes.take i ++ bs ++ bytes.drop (i + bs.length) := by
  induction bs generalizing bytes i
  case nil => simp [setAll]
  case cons b bs hi =>
    simp only [List.length_cons] at h
    have hset : bytes.set i b = bytes.take i ++ b :: bytes.drop (i + 1) :=
      List.set_eq_take_cons_drop b (by omega)
    have htake : (bytes.set i b).take (i + 1) = bytes.take i ++ [b] := by
      rw [hset, List.take_append, List.length_take, Nat.min_eq_left (by omega),
        List.take_of_length_le (by rw [List.length_take]; omega)]
      simp
    have hdrop : (bytes.set i b).drop (i + 1 + bs.length) = bytes.drop (i + 1 + bs.length) :=
      List.drop_set_of_lt (by omega)
    rw [setAll, hi (by rw [List.length_set]; omega), htake, hdrop, List.length_cons,
      Nat.add_right_comm]
    simp [Nat.add_assoc]

theorem write_bytes {buffer : LineBuffer} {bs : List UInt8} (h : bs.length ≤ maxGcodeLine) :
    (buffer.write 0 bs).bytes = bs ++ buffer.bytes.drop bs.length := by
  have hl := buffer.bytes_length
  simp only [write]
  rw [setAll_eq (by omega)]
  simp

theorem write_append {buffer : LineBuffer} {i : Nat} {bs cs : List UInt8} :
    (buffer.write i bs).write (i + bs.length) cs = buffer.write i (bs ++ cs) := by
  have h : ∀ (bytes : List UInt8) (i : Nat),
      setAll (setAll bytes i bs) (i + bs.length) cs = setAll bytes i (bs ++ cs) := by
    induction bs
    case nil => exact fun _ _ => rfl
    case cons b bs hi =>
      intro bytes i
      rw [List.length_cons, ← Nat.add_assoc, Nat.add_right_comm]
      exact hi _ _
  simp only [write, h]

-- What is left of a terminator at the front, once a text is written over it.
theorem write_over {buffer : LineBuffer} {bs : List UInt8} (h : bs ≠ []) :
    (buffer.write 0 [0]).write 0 bs = buffer.write 0 bs := by
  obtain ⟨b, bs, rfl⟩ := List.exists_cons_of_ne_nil h
  simp only [write, setAll, List.set_set]

-- What reading a line leaves in a buffer.
def put (buffer : LineBuffer) (line : CString) : LineBuffer :=
  buffer.write 0 (line ++ [0])

-- The text behind the first bytes.
def stale (buffer : LineBuffer) (len : Nat) : CString :=
  (buffer.bytes.drop len).takeWhile (· ≠ 0)

theorem takeWhile_append_zero {line rest : CString} (h : 0 ∉ line) :
    (line ++ rest).takeWhile (· ≠ 0) = line ++ rest.takeWhile (· ≠ 0) :=
  List.takeWhile_append_of_pos fun c hc => by
    rw [decide_eq_true_eq]
    rintro rfl
    exact h hc

theorem put_text {buffer : LineBuffer} {line : CString} (hl : line.length < maxGcodeLine) :
    (buffer.put line).text = line.takeWhile (· ≠ 0) := by
  rw [text, put, write_bytes (by rw [List.length_append]; exact hl)]
  generalize buffer.bytes.drop (line ++ [0]).length = rest
  clear hl
  induction line
  case nil => rfl
  case cons c line hi =>
    simp only [List.cons_append, List.takeWhile_cons]
    split_ifs
    · rw [hi]
    · rfl

-- A text that is not terminated is continued by what is behind it.
theorem write_text {buffer : LineBuffer} {line : CString} (h : 0 ∉ line)
    (hl : line.length < maxGcodeLine) :
    (buffer.write 0 line).text = line ++ buffer.stale line.length := by
  rw [text, write_bytes (Nat.le_of_lt hl), takeWhile_append_zero h, stale]

end LineBuffer

namespace GcodeStream

-- A line without its carriage returns.
def plainLine (line : List UInt8) : CString :=
  line.filter (· ≠ 13)

-- The bytes of a line without its end.
theorem readLoop_line {line : List UInt8} {rest : List (Option UInt8)} {len : Nat}
    {buffer : LineBuffer} (hn : 10 ∉ line) (hl : len + (plainLine line).length < maxGcodeLine) :
    readLoop (line.map some ++ rest) len buffer =
      readLoop rest (len + (plainLine line).length) (buffer.write len (plainLine line)) := by
  induction line generalizing len buffer
  case nil => rfl
  case cons c line hi =>
    simp only [List.mem_cons, not_or] at hn
    rw [List.map_cons, List.cons_append, readLoop]
    by_cases hc : c = 13
    · have hp : plainLine (c :: line) = plainLine line := by simp [plainLine, hc]
      rw [hp] at hl ⊢
      rw [if_pos hc, hi hn.right hl]
    · have hp : plainLine (c :: line) = c :: plainLine line := by simp [plainLine, hc]
      rw [hp, List.length_cons] at hl ⊢
      rw [if_neg hc, if_neg (Ne.symm hn.left), if_pos (by omega), hi hn.right (by omega),
        Nat.add_right_comm, Nat.add_assoc]
      rfl

-- A line with its end.
theorem readLine_put {line : List UInt8} {rest : List (Option UInt8)} {buffer : LineBuffer}
    (hn : 10 ∉ line) (hl : line.length < maxGcodeLine) :
    readLine (line.map some ++ some 10 :: rest) buffer = (1, buffer.put (plainLine line), rest) := by
  have hp : (plainLine line).length ≤ line.length := List.length_filter_le _ _
  rw [readLine, readLoop_line hn (by omega), readLoop, if_neg (by decide), if_pos rfl,
    LineBuffer.write_append, LineBuffer.write_over (by simp)]
  rfl

-- The bytes behind the last end of a line.
theorem readLine_last {line : List UInt8} {buffer : LineBuffer} (hn : 10 ∉ line)
    (hl : line.length < maxGcodeLine) (hne : plainLine line ≠ []) :
    readLine (line.map some) buffer = (1, buffer.write 0 (plainLine line), []) := by
  have hp : (plainLine line).length ≤ line.length := List.length_filter_le _ _
  have h := @readLoop_line line [] 0 (buffer.write 0 [0]) hn (by omega)
  rw [List.append_nil] at h
  have hpos : 0 < 0 + (plainLine line).length := by
    rw [Nat.zero_add]
    exact List.length_pos_iff.mpr hne
  rw [readLine, h, readLoop, if_pos hpos, LineBuffer.write_over hne]

theorem readLine_nothing {line : List UInt8} {buffer : LineBuffer} (hn : 10 ∉ line)
    (hne : plainLine line = []) :
    (readLine (line.map some) buffer).1 = 0 := by
  have h := @readLoop_line line [] 0 (buffer.write 0 [0]) hn (by rw [hne]; decide)
  rw [List.append_nil] at h
  rw [readLine, h, readLoop, hne]
  rfl

theorem head_skipSpaces {text : CString} : ∀ c ∈ (skipSpaces text).head?, isSpace c = false := by
  intro c hc
  have h := List.head?_dropWhile_not isSpace text
  rw [show text.dropWhile isSpace = skipSpaces text from rfl, hc] at h
  simpa using h

-- A text is a command unless it is blank or a comment.
theorem commandOf_isEmpty {text : CString} :
    (commandOf (skipSpaces text)).isEmpty =
      ((skipSpaces text).isEmpty || (skipSpaces text).head? = some 59) := by
  have hs := @head_skipSpaces text
  rcases hp : skipSpaces text with _ | ⟨c, p⟩
  · rfl
  · rw [hp] at hs
    have hc : isSpace c = false := hs c rfl
    by_cases h : c = 59
    · simp [commandOf, trimRight, h]
    · have hne : trimRight (c :: p.takeWhile (· ≠ 59)) ≠ [] := by
        rw [trimRight, List.reverse_cons, List.dropWhile_append]
        split_ifs
        · simp [hc]
        · simp
      have hbody : (c :: p).takeWhile (· ≠ 59) = c :: p.takeWhile (· ≠ 59) := by
        simp [h]
      rw [commandOf, hbody, List.isEmpty_eq_false_iff.mpr hne]
      simp [h]

theorem trimRight_cons {c : UInt8} {s : CString} (h : isSpace c = false) :
    trimRight (c :: s) = c :: trimRight s := by
  rw [trimRight, List.reverse_cons, List.dropWhile_append]
  split_ifs with he
  · have hs : trimRight s = [] := by
      rw [trimRight, List.isEmpty_iff.mp he]
      rfl
    simp [h, hs]
  · simp [trimRight]

theorem trimRight_head {s : CString} : trimRight s = [] ∨ (trimRight s).head? = s.head? := by
  cases s
  case nil => exact .inl rfl
  case cons c s =>
    rw [trimRight, List.reverse_cons, List.dropWhile_append]
    split_ifs
    · by_cases hc : isSpace c
      · simp [hc]
      · simp [hc]
    · simp

-- A comment ends a command just as a blank does.
theorem all_trimRight {rest : CString} :
    (trimRight (rest.takeWhile (· ≠ 59))).head?.all isSpace ↔
      ∀ c ∈ rest.head?, isSpace c ∨ c = 59 := by
  cases rest
  case nil => simp [trimRight]
  case cons c rest =>
    by_cases h59 : c = 59
    · simp [h59, trimRight]
    · rw [List.takeWhile_cons_of_pos (by simpa using h59)]
      by_cases hc : isSpace c
      · have hall : (trimRight (c :: rest.takeWhile (· ≠ 59))).head?.all isSpace := by
          rcases @trimRight_head (c :: rest.takeWhile (· ≠ 59)) with hn | hh
          · rw [hn]
            rfl
          · rw [hh]
            exact hc
        exact iff_of_true hall (by simp [hc])
      · rw [trimRight_cons ((Bool.not_eq_true _).mp hc)]
        simp [hc, h59]

-- A word at the front of a text.
section

variable {text word rest : CString}

theorem skipSpaces_word (hw : ∀ c ∈ word, isSpace c = false ∧ c ≠ 59) (hne : word ≠ []) :
    skipSpaces (word ++ rest) = word ++ rest := by
  obtain ⟨c, word, rfl⟩ := List.exists_cons_of_ne_nil hne
  rw [skipSpaces, List.cons_append, List.dropWhile_cons_of_neg (by simp [hw c])]

-- The command keeps the word, and what is left of the text behind it.
theorem commandOf_word (hw : ∀ c ∈ word, isSpace c = false ∧ c ≠ 59) :
    commandOf (word ++ rest) = word ++ trimRight (rest.takeWhile (· ≠ 59)) := by
  have h : ∀ c ∈ word, decide (c ≠ 59) = true := fun c hc => by simpa using (hw c hc).right
  rw [commandOf, List.takeWhile_append_of_pos h]
  generalize rest.takeWhile (· ≠ 59) = body
  clear h
  induction word
  case nil => rfl
  case cons c word hi =>
    rw [List.cons_append, trimRight_cons (hw c List.mem_cons_self).left,
      hi fun d hd => hw d (.tail _ hd)]
    rfl

theorem commandStartsWith_word (hw : ∀ c ∈ word, isSpace c = false ∧ c ≠ 59) (hne : word ≠ []) :
    GcodeRewrite.commandStartsWith (word ++ rest) word ↔ rest.head?.all isSpace := by
  have hstart : startsWith (word ++ rest) word := List.isPrefixOf_iff_prefix.mpr ⟨rest, rfl⟩
  rw [GcodeRewrite.commandStartsWith, skipSpaces_word hw hne, hstart, Bool.true_and,
    List.drop_left]
  cases rest <;> rfl

theorem commandOf_begins : commandOf text <+: text := by
  have h : (commandOf text).IsPrefix (text.takeWhile (· ≠ 59)) := by
    rw [commandOf, trimRight, ← List.reverse_suffix, List.reverse_reverse]
    exact List.dropWhile_suffix _
  exact h.trans (List.takeWhile_prefix _)

theorem startsWith_of_command
    (h : GcodeRewrite.commandStartsWith (commandOf (skipSpaces text)) word) :
    ∃ rest, skipSpaces text = word ++ rest := by
  have hp := @commandOf_begins (skipSpaces text)
  have hs := @head_skipSpaces text
  have hskip : skipSpaces (commandOf (skipSpaces text)) = commandOf (skipSpaces text) := by
    rcases hc : commandOf (skipSpaces text) with _ | ⟨c, command⟩
    · rfl
    · obtain ⟨rest, hr⟩ := hp
      rw [hc] at hr
      have hsc : isSpace c = false := hs c (by rw [← hr]; rfl)
      rw [skipSpaces, List.dropWhile_cons_of_neg (by simp [hsc])]
  rw [GcodeRewrite.commandStartsWith, hskip, Bool.and_eq_true] at h
  obtain ⟨rest, hr⟩ := (List.isPrefixOf_iff_prefix.mp h.left).trans hp
  exact ⟨rest, hr.symm⟩

end

-- The commands of a line, as the arrays of a rewrite hold them.
def expand (text : CString) : List CString :=
  let command := commandOf (skipSpaces text)
  if command.isEmpty then [] else (GcodeRewrite.line command).commands.map (fit maxGcodeLine)

-- What a line without commands leaves in the buffer that it was read into.
def skip (buffer : LineBuffer) : LineBuffer :=
  let p := skipSpaces buffer.text
  if p.isEmpty || p.head? = some 59 then buffer else isolate buffer

section

variable {stream : GcodeStream} {buffer buffer' : LineBuffer} {reads : List (Option UInt8)}
variable {rounds : Nat} (hr : readLine stream.reads buffer = (1, buffer', reads))

-- A stream at a given place of its file.
def At (stream : GcodeStream) (reads : List (Option UInt8)) (pending : List CString) : Prop :=
  stream.isOpen ∧ stream.reads = reads ∧ stream.pending = pending

-- The stream reports the wait that a rewrite asks for.
def Asks (stream : GcodeStream) (rewrite : GcodeRewrite) : Prop :=
  stream.lastWaitForBed = rewrite.waitForBed ∧ stream.lastWaitForNozzle = rewrite.waitForNozzle ∧
    stream.lastWaitTarget = rewrite.waitTarget

theorem head_of_startsWith {p mark : CString} {c : UInt8} (h : startsWith p mark)
    (hm : mark.head? = some c) : p.head? = some c := by
  obtain ⟨rest, rfl⟩ := List.isPrefixOf_iff_prefix.mp h
  rw [List.head?_append, hm]
  rfl

theorem skip_comment (h : (skipSpaces buffer.text).head? = some 59) : skip buffer = buffer := by
  simp [skip, h]

include hr in
theorem nextLoop_skip (h : expand buffer'.text = []) (ho : stream.isOpen) :
    ∃ stream', nextLoop (rounds + 1) stream buffer = nextLoop rounds stream' (skip buffer') ∧
      stream'.At reads stream.pending := by
  have he := @commandOf_isEmpty buffer'.text
  rw [nextLoop, hr]
  dsimp only
  rw [if_neg (by decide)]
  by_cases hlayer : startsWith (skipSpaces buffer'.text) ";LAYER:0"
  · rw [if_pos hlayer, skip_comment (head_of_startsWith hlayer rfl)]
    exact ⟨_, rfl, ho, rfl, rfl⟩
  rw [if_neg hlayer]
  by_cases htime : startsWith (skipSpaces buffer'.text) ";TIME_ELAPSED:"
  · rw [if_pos htime, skip_comment (head_of_startsWith htime rfl)]
    cases Scan.strtod ((skipSpaces buffer'.text).drop 14)
    case none => exact ⟨_, rfl, ho, rfl, rfl⟩
    case some elapsed =>
      dsimp only
      split_ifs
      · exact ⟨_, rfl, ho, rfl, rfl⟩
      · exact ⟨_, rfl, ho, rfl, rfl⟩
  rw [if_neg htime, skip]
  by_cases hblank : (skipSpaces buffer'.text).isEmpty || (skipSpaces buffer'.text).head? = some 59
  · rw [if_pos hblank, if_pos hblank]
    exact ⟨_, rfl, ho, rfl, rfl⟩
  · rw [if_neg hblank, if_neg hblank]
    rw [(Bool.not_eq_true _).mp hblank] at he
    rw [expand, he, if_neg (by decide), List.map_eq_nil_iff] at h
    rw [h]
    exact ⟨_, rfl, ho, rfl, rfl⟩

include hr in
theorem nextLoop_emit {command : CString} {rest : List CString}
    (h : expand buffer'.text = command :: rest) (ho : stream.isOpen) :
    ∃ stream', nextLoop (rounds + 1) stream buffer = (1, command, stream') ∧
      stream'.At reads rest ∧
      stream'.Asks (GcodeRewrite.line (commandOf (skipSpaces buffer'.text))) := by
  have he := @commandOf_isEmpty buffer'.text
  rw [expand] at h
  split_ifs at h with hempty
  rw [(Bool.not_eq_true _).mp hempty] at he
  have hcomment : (skipSpaces buffer'.text).head? ≠ some 59 := by
    intro hc
    simp [hc] at he
  rw [nextLoop, hr]
  dsimp only
  rw [if_neg (by decide), if_neg fun hl => hcomment (head_of_startsWith hl rfl),
    if_neg fun ht => hcomment (head_of_startsWith ht rfl), ← he, if_neg (by decide)]
  obtain ⟨command', rest', hc, rfl, rfl⟩ := List.map_eq_cons_iff.mp h
  rw [hc]
  exact ⟨_, rfl, ⟨ho, rfl, rfl⟩, rfl, rfl, rfl⟩

theorem nextLoop_end (hr : (readLine stream.reads buffer).1 ≤ 0) (ho : stream.isOpen) :
    ∃ stream', nextLoop (rounds + 1) stream buffer = (0, [], stream') ∧
      stream'.At (readLine stream.reads buffer).2.2 stream.pending := by
  rw [nextLoop]
  dsimp only
  rw [if_pos hr]
  exact ⟨_, rfl, ho, rfl, rfl⟩

end

-- The bytes of lines with their ends, and of what follows the last end.
def bytesOf (lines : List (List UInt8)) (last : List UInt8) : List UInt8 :=
  lines.flatMap (· ++ [10]) ++ last

-- Lines that fit the line buffer.
structure Fits (line : List UInt8) : Prop where
  no_end : 10 ∉ line
  short  : line.length < maxGcodeLine

theorem Fits.plainLine_length {line : List UInt8} (h : Fits line) :
    (plainLine line).length < maxGcodeLine :=
  Nat.lt_of_le_of_lt (List.length_filter_le _ _) h.short

-- The text of a line in the line buffer.
def lineText (line : List UInt8) : CString :=
  (plainLine line).takeWhile (· ≠ 0)

-- What lines without commands leave in a buffer.
def leave (buffer : LineBuffer) (lines : List (List UInt8)) : LineBuffer :=
  lines.foldl (fun buffer line => skip (buffer.put (plainLine line))) buffer

-- The commands of the bytes behind the last end of a line: the text in the buffer is not terminated.
def lastCommands (buffer : LineBuffer) (last : List UInt8) : List CString :=
  if (plainLine last).isEmpty then [] else expand (buffer.write 0 (plainLine last)).text

section

variable {stream : GcodeStream} {lines : List (List UInt8)} {last : List UInt8} {rounds : Nat}
variable (hfit : ∀ line ∈ lines, Fits line) (hlast : Fits last)

theorem map_bytesOf_cons {line : List UInt8} :
    (bytesOf (line :: lines) last).map some =
      line.map some ++ some 10 :: (bytesOf lines last).map some := by
  simp [bytesOf]

-- A call that meets no commands in the lines in front of it goes on behind them.
include hfit in
theorem nextLoop_leave {buffer : LineBuffer} {more : List (List UInt8)} (ho : stream.isOpen)
    (hreads : stream.reads = (bytesOf (lines ++ more) last).map some)
    (hsilent : ∀ line ∈ lines, expand (lineText line) = []) :
    ∃ stream', nextLoop (rounds + lines.length) stream buffer =
        nextLoop rounds stream' (leave buffer lines) ∧
      stream'.At ((bytesOf more last).map some) stream.pending := by
  induction lines generalizing stream buffer
  case nil => exact ⟨stream, rfl, ho, hreads, rfl⟩
  case cons line lines hi =>
    have hf := hfit line List.mem_cons_self
    rw [List.cons_append, map_bytesOf_cons] at hreads
    have hr := @readLine_put line ((bytesOf (lines ++ more) last).map some) buffer hf.no_end hf.short
    rw [← hreads] at hr
    have htext : expand (buffer.put (plainLine line)).text = [] := by
      rw [LineBuffer.put_text hf.plainLine_length]
      exact hsilent line List.mem_cons_self
    obtain ⟨s₁, h₁, ho₁, hr₁, hp₁⟩ := nextLoop_skip hr htext ho
    obtain ⟨s₂, h₂, ho₂, hr₂, hp₂⟩ := hi (fun l hl => hfit l (.tail _ hl)) ho₁ hr₁
      fun l hl => hsilent l (.tail _ hl)
    exact ⟨s₂, h₁.trans h₂, ho₂, hr₂, hp₂.trans hp₁⟩

theorem nextLoop_line {line : List UInt8} {buffer : LineBuffer} {command : CString}
    {rest : List CString} (hf : Fits line) (ho : stream.isOpen)
    (hreads : stream.reads = (bytesOf (line :: lines) last).map some)
    (h : expand (lineText line) = command :: rest) :
    ∃ stream', nextLoop (rounds + 1) stream buffer = (1, command, stream') ∧
      stream'.At ((bytesOf lines last).map some) rest := by
  rw [map_bytesOf_cons] at hreads
  have hr := @readLine_put line ((bytesOf lines last).map some) buffer hf.no_end hf.short
  rw [← hreads] at hr
  have he : expand (buffer.put (plainLine line)).text = command :: rest := by
    rw [LineBuffer.put_text hf.plainLine_length]
    exact h
  obtain ⟨stream', hs, hat, -⟩ := nextLoop_emit hr he ho
  exact ⟨stream', hs, hat⟩

include hlast in
theorem nextLoop_last {buffer : LineBuffer} (ho : stream.isOpen)
    (hreads : stream.reads = last.map some) (hrounds : last.length < rounds) :
    match lastCommands buffer last with
    | []              => ∃ stream', nextLoop rounds stream buffer = (0, [], stream')
    | command :: rest => ∃ stream', nextLoop rounds stream buffer = (1, command, stream') ∧
      stream'.At [] rest := by
  rw [lastCommands]
  by_cases hne : plainLine last = []
  · obtain ⟨rounds, rfl⟩ : ∃ r, rounds = r + 1 := ⟨rounds - 1, by omega⟩
    have hr : (readLine stream.reads buffer).1 = 0 := by
      rw [hreads]
      exact readLine_nothing hlast.no_end hne
    obtain ⟨s, hs, -⟩ := @nextLoop_end stream buffer rounds (Int.le_of_eq hr) ho
    rw [hne]
    exact ⟨s, hs⟩
  · have hlen : 0 < (plainLine last).length := List.length_pos_iff.mpr hne
    have hle : (plainLine last).length ≤ last.length := List.length_filter_le _ _
    obtain ⟨rounds, rfl⟩ : ∃ r, rounds = r + 1 + 1 := ⟨rounds - 2, by omega⟩
    have hr := @readLine_last last buffer hlast.no_end hlast.short hne
    rw [← hreads] at hr
    rw [if_neg (by simpa using hne)]
    rcases he : expand (buffer.write 0 (plainLine last)).text with _ | ⟨command, rest⟩
    · obtain ⟨s₁, h₁, ho₁, hr₁, -⟩ := nextLoop_skip hr he ho
      have hr' : (readLine s₁.reads (skip (buffer.write 0 (plainLine last)))).1 ≤ 0 := by
        rw [hr₁]
        exact Int.le_refl 0
      obtain ⟨s₂, h₂, -⟩ := @nextLoop_end s₁ _ rounds hr' ho₁
      exact ⟨s₂, h₁.trans h₂⟩
    · obtain ⟨s, hs, hat, -⟩ := nextLoop_emit hr he ho
      exact ⟨s, hs, hat⟩

end

end GcodeStream

end Deneb
