import DenebModel.Setup.Wifi

namespace Deneb.Wifi

open CString NetUtils Shell

section

variable {value s t : CString} {size out max n : Nat}

theorem escapeLoop_eq (h : out + 4 * s.length + 1 < size) : escapeLoop size out s = quoteBody s := by
  induction s generalizing out
  case nil => rfl
  case cons c s ih =>
    rw [List.length_cons] at h
    rw [escapeLoop, if_neg (by omega), quoteBody_cons, ih (by omega), ih (by omega)]
    split <;> rfl

-- The buffers are large enough for every value that fits its field.
theorem uciEscape_eq (h : value.length ≤ max) : uciEscape (max * 4 + 4) value = quote value := by
  have body := @escapeLoop_eq value (max * 4 + 4) 1 (by omega)
  have length := @length_quoteBody value
  have := List.count_le_length (a := (39 : UInt8)) (l := value)
  simp only [uciEscape, body]
  rw [if_neg (by omega), if_pos (by omega)]
  rfl

theorem raw_eq (h : 39 ∉ value) : raw value = quote value := by
  have body : quoteBody value = value := by
    induction value
    case nil => rfl
    case cons c value ih =>
      have ⟨hc, hv⟩ := not_or.mp (mt List.mem_cons.mpr h)
      rw [quoteBody_cons, if_neg (Ne.symm hc), ih hv]
      rfl
  rw [raw, quote, body]

-- A value that reaches the shell in a buffer of 512 bytes, of which `room` are left between the
-- quotes. It still does when only the quotes behind its last apostrophe are cut off.
def Fits (room : Nat) (value : CString) : Prop :=
  value.length + 3 * value.count 39 ≤ room ∨
    value.length + 3 * value.count 39 = room + 2 ∧ value.getLast? = some 39

-- What is set, with the value as it is quoted.
def word (option value : CString) : Word :=
  (option ++ [61]).map (⟨·, false⟩) ++ value.map (⟨·, true⟩)

-- The shell reads a command as the setting that it is meant for.
def Command.Intact (glob : Word → List CString) (command : Command) : Prop :=
  ∀ setting ∈ command.setting, SimpleCommand glob command.text
    ["uci", setting.verb, setting.option ++ 61 :: setting.value]

variable {glob : Word → List CString} {verb option : String} {u text : CString} {words : List Word}

-- The words in front of the value.
def front (verb : String) : List Word :=
  [(ofString "uci").map (⟨·, false⟩), (ofString verb).map (⟨·, false⟩)]

-- The verb and the option of a setting are words that mean themselves to the shell.
structure Plainly (verb option : String) : Prop where
  verb_plain   : Plain (ofString verb)
  verb_ne      : ofString verb ≠ []
  no_pattern   : ∀ w ∈ front verb, w.isPattern = false
  option_plain : Plain (ofString option)

theorem text_word {option : CString} : (word option value).text = option ++ 61 :: value := by
  simp [word, Word.text, Function.comp_def]

theorem text_front : (front verb).map Word.text = [ofString "uci", ofString verb] := by
  simp [front, Word.text, Function.comp_def]

-- The text of a setting up to the quote that opens its value.
def opening (verb option : String) : CString :=
  ofString "uci " ++ ofString verb ++ 32 :: ofString option ++ [61, 39]

theorem read_opening (h : Plainly verb option) : Shell.read (opening verb option ++ u) =
    Reader.reads { words := front verb, word := some (word option []), mode := .quoted } u := by
  have name : (ofString "uci " : CString) = ofString "uci" ++ [32] := by decide
  have plain : Plain (ofString option ++ [61]) := by
    intro c hc
    rcases List.mem_append.mp hc with hc | hc
    · exact h.option_plain c hc
    · rw [List.mem_singleton.mp hc]
      decide
  have split : opening verb option ++ u =
      ofString "uci" ++ 32 :: (ofString verb ++ 32 :: (ofString option ++ [61] ++ 39 :: u)) := by
    rw [opening, name]
    simp only [List.append_assoc, List.cons_append, List.nil_append]
  rw [split, Shell.read, reads_word (by decide) (by decide), reads_word h.verb_plain h.verb_ne,
    reads_prefix plain (by simp), reads_cons]
  simp [Reader.step, front, word]

-- A setting that is read as its words is intact unless its option is taken for a pattern.
theorem intact_of_read (h : Plainly verb option)
    (hr : Shell.read text = some (front verb ++ [word option value])) :
    Command.Intact glob ⟨text, some ⟨verb, option, value⟩⟩ ↔
      ((word option value).isPattern → glob (word option value) = []) := by
  have named : namesCommand ((ofString "uci").map (⟨·, false⟩)) := by decide
  constructor
  case mp =>
    intro intact hp
    obtain ⟨cut, hc, -, hg, -⟩ := intact _ rfl
    obtain rfl := Option.some_inj.mp (hr.symm.trans hc)
    exact hg _ (by simp) hp
  case mpr =>
    rintro hg setting ⟨⟩
    refine ⟨_, hr, ⟨_, rfl, named⟩, ?_, ?_⟩
    · intro w hw hp
      rcases List.mem_append.mp hw with hw | hw
      · rw [h.no_pattern w hw] at hp
        cases hp
      · rw [List.mem_singleton.mp hw] at hp ⊢
        exact hg hp
    · rw [List.map_append, text_front, List.map_singleton, text_word]
      rfl

-- An intact setting gives its value at the end of its last word.
theorem gives_of_intact (h : Plainly verb option)
    (intact : Command.Intact glob ⟨opening verb option ++ u, some ⟨verb, option, value⟩⟩) :
    Gives (front verb) (word option []) value u := by
  obtain ⟨cut, hc, -, -, ht⟩ := intact _ rfl
  rw [read_opening h] at hc
  refine ⟨cut, hc, ?_⟩
  rw [ht, text_front, text_word]
  simp

-- How many bytes of the buffer are left for a quoted value, without the quotes.
def room (verb option : String) : Nat :=
  503 - (ofString verb).length - (ofString option).length

theorem length_opening :
    (opening verb option).length = (ofString verb).length + (ofString option).length + 7 := by
  have four : (ofString "uci ").length = 4 := rfl
  simp only [opening, List.length_append, List.length_cons, List.length_nil, four]
  omega

theorem uci_opening :
    uci verb option value (39 :: u) = ⟨fit 512 (opening verb option ++ u), some ⟨verb, option, value⟩⟩ := by
  have text : opening verb option ++ u =
      ofString "uci " ++ ofString verb ++ 32 :: ofString option ++ 61 :: 39 :: u := by
    simp only [opening, List.append_assoc, List.cons_append, List.nil_append]
  rw [text]
  rfl

theorem uci_quote (hl : (ofString verb).length + (ofString option).length ≤ 503) :
    uci verb option value (quote value) =
      ⟨opening verb option ++ (quoteBody value ++ [39]).take (room verb option + 1),
        some ⟨verb, option, value⟩⟩ := by
  have length := @length_opening verb option
  rw [quote, List.cons_append, uci_opening, fit, List.take_append, List.take_of_length_le (by omega),
    show 512 - 1 - (opening verb option).length = room verb option + 1 by unfold room; omega]

-- Exactly the values that fit reach the shell, all the others are cut off.
theorem quoted_intact_iff (h : Plainly verb option)
    (hl : (ofString verb).length + (ofString option).length ≤ 503) :
    (uci verb option value (quote value)).Intact glob ↔
      Fits (room verb option) value ∧
        ((word option value).isPattern → glob (word option value) = []) := by
  have length := @length_quoteBody value
  have append : ∀ s : CString, word option [] ++ s.map (⟨·, true⟩) = word option s := by
    intro s
    simp [word]
  rw [uci_quote hl]
  by_cases hf : value.length + 3 * value.count 39 ≤ room verb option
  case pos =>
    have fits : Fits (room verb option) value := .inl hf
    refine (intact_of_read h ?_).trans (and_iff_right fits).symm
    rw [List.take_of_length_le (by simp; omega), read_opening h, reads_quoteBody, reads_cons, append]
    rfl
  case neg =>
    have short : room verb option + 1 < (quoteBody value).length + 1 := by omega
    have lucky : Fits (room verb option) value ↔
        (quoteBody value).length + 1 = room verb option + 1 + 2 ∧ value.getLast? = some 39 := by
      rw [Fits, or_iff_right hf, length]
      exact and_congr_left fun _ => by omega
    by_cases fits : Fits (room verb option) value
    case pos =>
      obtain ⟨hk, hg⟩ := lucky.mp fits
      obtain ⟨s, rfl⟩ := List.getLast?_eq_some_iff.mp hg
      have body : quoteBody (s ++ [39]) = quoteBody s ++ [39, 92, 39, 39] := List.flatMap_append
      have cut : (quoteBody (s ++ [39]) ++ [39]).take (room verb option + 1) = quoteBody s ++ [39, 92, 39] := by
        rw [body, List.length_append, List.length_cons, List.length_cons] at hk
        rw [body, List.append_assoc, List.take_append, List.take_of_length_le (by omega),
          show room verb option + 1 - (quoteBody s).length = 3 by simp at hk; omega]
        rfl
      refine (intact_of_read h ?_).trans (and_iff_right fits).symm
      rw [cut, read_opening h, reads_cut, append]
    case neg =>
      refine iff_of_false (fun intact => fits (lucky.mpr ?_)) fun h => fits h.1
      exact (gives_take short).mp (gives_of_intact h intact)

-- A value that is not escaped: an apostrophe in it ends the quotation.
theorem raw_intact_iff (h : Plainly verb option)
    (hl : (ofString verb).length + (ofString option).length + value.length ≤ 503)
    (hp : (word option value).isPattern = false) :
    (uci verb option value (raw value)).Intact glob ↔ 39 ∉ value := by
  by_cases hq : 39 ∈ value
  case neg =>
    rw [raw_eq hq, quoted_intact_iff h (by omega), hp]
    have fits : Fits (room verb option) value := by
      left
      rw [List.count_eq_zero.mpr hq]
      unfold room
      omega
    exact iff_of_true ⟨fits, nofun⟩ hq
  case pos =>
    refine iff_of_false (fun intact => ?_) (not_not.mpr hq)
    have eq : uci verb option value (raw value) =
        ⟨opening verb option ++ (value ++ [39]), some ⟨verb, option, value⟩⟩ := by
      have length := @length_opening verb option
      rw [raw, List.cons_append, uci_opening, fit_of_length_lt (by simp; omega)]
    rw [eq] at intact
    exact not_mem_of_gives (gives_of_intact h intact) hq

theorem isPattern_word {option : CString} : (word option value).isPattern = (word option []).isPattern := by
  simp [word, Word.isPattern, List.any_append, List.any_map]

-- A value that is escaped, in the buffer that every value of its field fits.
theorem escaped_intact_iff (h : Plainly verb option)
    (hl : (ofString verb).length + (ofString option).length ≤ 503) (hv : value.length ≤ max) :
    (uci verb option value (uciEscape (max * 4 + 4) value)).Intact glob ↔
      Fits (room verb option) value ∧
        ((word option []).isPattern → glob (word option value) = []) := by
  rw [uciEscape_eq hv, quoted_intact_iff h hl, isPattern_word]

theorem fits_of_length (h : 4 * value.length ≤ n) : Fits n value := by
  have := List.count_le_length (a := (39 : UInt8)) (l := value)
  left
  omega

end

section

variable {p : Parser} {line : CString} {cfg : Config}

-- The values of a configuration fit their fields.
structure Bounded (cfg : Config) : Prop where
  ssid      : cfg.ssid.length < maxSsid
  password  : cfg.password.length < maxPass
  ipAddress : cfg.ipAddress.length < maxIp
  netmask   : cfg.netmask.length < maxIp
  gateway   : cfg.gateway.length < maxIp
  dns       : cfg.dns.length < maxDns
  ntpServer : cfg.ntpServer.length < maxNtp
  hostname  : cfg.hostname.length < maxHost
  country   : cfg.country.length = 2

theorem bounded_ite {c : Prop} [Decidable c] {p q : Parser} (hp : Bounded p.cfg) (hq : Bounded q.cfg) :
    Bounded (if c then p else q).cfg := by
  split
  case isTrue => exact hp
  case isFalse => exact hq

theorem readLine_bounded (h : Bounded p.cfg) : Bounded (p.readLine line).cfg := by
  have fits : ∀ val n, (fit (n + 1) val).length < n + 1 := fun val n => fit_length_lt val n.succ_pos
  unfold Parser.readLine
  split
  case h_1 => exact h
  case h_2 key val _ =>
    refine bounded_ite { h with ssid := fits val _ } ?_
    refine bounded_ite { h with password := fits val _ } ?_
    refine bounded_ite { h with } ?_
    refine bounded_ite { h with ipAddress := fits val _ } ?_
    refine bounded_ite { h with netmask := fits val _ } ?_
    refine bounded_ite { h with gateway := fits val _ } ?_
    refine bounded_ite { h with dns := fits val _ } ?_
    refine bounded_ite { h with ntpServer := fits val _ } ?_
    refine bounded_ite { h with hostname := fits val _ } ?_
    refine bounded_ite ?_ h
    split
    case h_1 => exact { h with country := rfl }
    case h_2 => exact h

theorem normalize_mem {encryption : CString} {gotPassword : Bool} :
    normalize encryption gotPassword ∈ encryptions := by
  have known : ∀ encryption : CString, (if encryption ∈ encryptions then encryption
      else if gotPassword then ("psk2" : CString) else ("none" : CString)) ∈ encryptions := by
    intro encryption
    split
    case isTrue h => exact h
    case isFalse => split <;> decide
  exact known _

-- What the parser promises of a configuration.
theorem parse_bounded {content : List UInt8} (h : parse content = some cfg) :
    Bounded cfg ∧ cfg.encryption ∈ encryptions ∧ cfg.ssid ≠ [] := by
  have lines : ∀ (lines : List CString) (p : Parser), Bounded p.cfg →
      Bounded (lines.foldl Parser.readLine p).cfg := by
    intro lines
    induction lines
    case nil => exact fun _ h => h
    case cons line lines ih => exact fun p h => ih _ (readLine_bounded h)
  have first : Bounded ({} : Config) := by constructor <;> decide
  have bounded := lines (fgetsLines maxLine content []) {} first
  dsimp only [parse] at h
  split at h
  case isTrue => cases h
  case isFalse hs =>
    split at h
    case isTrue => cases h
    case isFalse =>
      cases h
      exact ⟨{ bounded with }, normalize_mem, fun he => hs (.inr he)⟩

theorem tokens_length {s token : CString} (h : token ∈ tokens s) : token.length ≤ s.length := by
  have pieces : ∀ (s piece : CString), piece ∈ s.splitOnP (fun c => c == 32 || c == 44 || c == 59) →
      piece.length ≤ s.length := by
    intro s
    induction s
    case nil => simp [List.splitOnP_nil]
    case cons c s ih =>
      intro piece hp
      rw [List.splitOnP_cons_eq_if_modifyHead] at hp
      split at hp
      case isTrue =>
        rcases List.mem_cons.mp hp with rfl | hp
        · exact Nat.zero_le _
        · exact Nat.le_succ_of_le (ih piece hp)
      case isFalse =>
        obtain ⟨head, rest, hr⟩ := List.exists_cons_of_ne_nil (List.splitOnP_ne_nil _ s)
        rw [hr, List.modifyHead_cons] at hp
        rcases List.mem_cons.mp hp with rfl | hp
        · exact Nat.succ_le_succ (ih head (hr ▸ .head _))
        · exact Nat.le_succ_of_le (ih piece (hr ▸ .tail _ hp))
  exact pieces s token (List.mem_filter.mp h).1

end

section

variable {steps : List Step} {codes : Nat → Int} {i : Nat} {command : Command}

theorem mem_run (h : command ∈ (run codes i steps).1) : ∃ step ∈ steps, step.command = command := by
  induction steps generalizing i
  case nil => cases h
  case cons step steps ih =>
    have later : command ∈ step.command :: (run codes (i + 1) steps).1 := by
      unfold run at h
      split at h
      case h_1 =>
        split at h
        case isTrue => exact List.mem_singleton.mp h ▸ .head _
        case isFalse => exact h
      case h_2 => exact h
    rcases List.mem_cons.mp later with rfl | h
    · exact ⟨step, .head _, rfl⟩
    · obtain ⟨step, hs, rfl⟩ := ih h
      exact ⟨step, .tail _ hs, rfl⟩

-- Where no command fails, all of them are passed to the shell.
theorem run_all : (run (fun _ => 0) i steps).1 = steps.map Step.command := by
  induction steps generalizing i
  case nil => rfl
  case cons step steps ih =>
    unfold run
    split
    case h_1 => rw [if_neg fun h => h rfl, ih, List.map_cons]
    case h_2 => rw [ih, List.map_cons]

end

section

variable {cfg : Config} {glob : Word → List CString} {codes : Nat → Int}

-- The values that reach the shell as they are: a country without an apostrophe, a password and names
-- of servers that are not cut off, and a host name that does not complete the name of a file.
structure Quotable (glob : Word → List CString) (cfg : Config) : Prop where
  country   : 39 ∉ cfg.country
  password  : cfg.encryption ≠ ("none" : CString) → Fits 484 cfg.password
  dns       : cfg.ipAddress ≠ [] → ∀ token ∈ tokens cfg.dns, Fits 479 token
  ntpServer : ∀ token ∈ tokens cfg.ntpServer, Fits 478 token
  hostname  : cfg.hostname ≠ [] → glob (word "system.@system[0].hostname" cfg.hostname) = []

theorem fixed_intact {text : String} {failure : Option Result} :
    (fixed text failure).command.Intact glob ↔ True :=
  iff_true_intro nofun

theorem forall_mem_ite {α : Type} {c : Prop} [Decidable c] {l m : List α} {p : α → Prop} :
    (∀ x ∈ if c then l else m, p x) ↔ (c → ∀ x ∈ l, p x) ∧ (¬c → ∀ x ∈ m, p x) := by
  split
  case isTrue h => simp [h]
  case isFalse h => simp [h]

-- A value that is escaped, in a field that is so small that the buffer holds every value of it.
theorem escaped_intact {verb option : String} {value : CString} {max : Nat} (h : Plainly verb option)
    (hp : (word option []).isPattern = false)
    (hm : (ofString verb).length + (ofString option).length + 4 * max ≤ 503) (hv : value.length ≤ max) :
    (uci verb option value (uciEscape (max * 4 + 4) value)).Intact glob := by
  rw [escaped_intact_iff h (by omega) hv, hp]
  exact ⟨fits_of_length (by unfold room; omega), nofun⟩

theorem raw_settings_intact_iff (h : Bounded cfg) (he : cfg.encryption ∈ encryptions) :
    ((uci "set" "wireless.radio0.country" cfg.country (raw cfg.country)).Intact glob ↔ 39 ∉ cfg.country) ∧
      (uci "set" "wireless.sta.encryption" cfg.encryption (raw cfg.encryption)).Intact glob := by
  have known : ∀ encryption ∈ encryptions, 39 ∉ encryption ∧ encryption.length ≤ 4 := by decide
  obtain ⟨hq, hl⟩ := known _ he
  constructor
  case left =>
    refine raw_intact_iff (by constructor <;> decide) ?_ (isPattern_word.trans (by decide))
    rw [h.country]
    decide
  case right =>
    refine (raw_intact_iff (by constructor <;> decide) ?_ (isPattern_word.trans (by decide))).mpr hq
    exact Nat.le_trans (Nat.add_le_add_left hl _) (by decide)

theorem tokens_intact_iff {option : String} {s : CString} {max n : Nat} (h : Plainly "add_list" option)
    (hp : (word option []).isPattern = false) (hl : (ofString option).length ≤ 400)
    (hn : room "add_list" option = n) (hs : s.length ≤ max) :
    (∀ token ∈ tokens s, (uci "add_list" option token (uciEscape (max * 4 + 4) token)).Intact glob) ↔
      ∀ token ∈ tokens s, Fits n token := by
  refine forall₂_congr fun token ht => ?_
  have verb : (ofString "add_list").length = 8 := rfl
  rw [escaped_intact_iff h (by omega) (Nat.le_trans (tokens_length ht) hs), hp, hn]
  exact and_iff_left nofun

theorem script_intact_iff (h : Bounded cfg) (he : cfg.encryption ∈ encryptions) :
    (∀ step ∈ script cfg, step.command.Intact glob) ↔ Quotable glob cfg := by
  obtain ⟨country, encryption⟩ := @raw_settings_intact_iff cfg glob h he
  have ssid := @escaped_intact glob "set" "wireless.sta.ssid" cfg.ssid maxSsid
    (by constructor <;> decide) (by decide) (by decide) (Nat.le_of_lt h.ssid)
  have ipAddress := @escaped_intact glob "set" "network.wwan.ipaddr" cfg.ipAddress maxIp
    (by constructor <;> decide) (by decide) (by decide) (Nat.le_of_lt h.ipAddress)
  have netmask := @escaped_intact glob "set" "network.wwan.netmask" cfg.netmask maxIp
    (by constructor <;> decide) (by decide) (by decide) (Nat.le_of_lt h.netmask)
  have gateway := @escaped_intact glob "set" "network.wwan.gateway" cfg.gateway maxIp
    (by constructor <;> decide) (by decide) (by decide) (Nat.le_of_lt h.gateway)
  have hostname := @escaped_intact glob "set" "network.wwan.hostname" cfg.hostname maxHost
    (by constructor <;> decide) (by decide) (by decide) (Nat.le_of_lt h.hostname)
  have key : (uci "set" "wireless.sta.key" cfg.password
      (uciEscape (maxPass * 4 + 4) cfg.password)).Intact glob ↔ Fits 484 cfg.password := by
    have plain : (word "wireless.sta.key" []).isPattern = false := by decide
    rw [escaped_intact_iff (by constructor <;> decide) (by decide) (Nat.le_of_lt h.password), plain,
      show room "set" "wireless.sta.key" = 484 by decide]
    exact and_iff_left nofun
  have system : (uci "set" "system.@system[0].hostname" cfg.hostname
      (uciEscape (maxHost * 4 + 4) cfg.hostname)).Intact glob ↔
        glob (word "system.@system[0].hostname" cfg.hostname) = [] := by
    have pattern : (word "system.@system[0].hostname" []).isPattern = true := by decide
    have hl := h.hostname
    rw [escaped_intact_iff (by constructor <;> decide) (by decide) (Nat.le_of_lt hl), pattern]
    refine (and_iff_right (fits_of_length ?_)).trans (forall_prop_of_true rfl)
    exact Nat.le_trans (Nat.mul_le_mul_left 4 (Nat.le_of_lt hl)) (by decide)
  have dns := @tokens_intact_iff glob "network.wwan.dns" cfg.dns maxDns 479
    (by constructor <;> decide) (by decide) (by decide) (by decide) (Nat.le_of_lt h.dns)
  have ntp := @tokens_intact_iff glob "system.ntp.server" cfg.ntpServer maxNtp 478
    (by constructor <;> decide) (by decide) (by decide) (by decide) (Nat.le_of_lt h.ntpServer)
  unfold script
  simp only [List.forall_mem_append, List.forall_mem_cons, forall_mem_ite, List.forall_mem_map, fixed_intact,
    country, encryption, ssid, ipAddress, netmask, gateway, hostname, key, system, dns, ntp,
    List.not_mem_nil, false_implies, implies_true, and_true, true_and]
  constructor
  case mp =>
    rintro ⟨⟨⟨⟨hc, hk⟩, hd⟩, hh⟩, hn⟩
    refine ⟨hc, fun he => ?_, fun hi => ?_, ?_, hh⟩
    · by_cases hp : cfg.password = []
      case pos => exact fits_of_length (by rw [hp]; decide)
      case neg => exact hk ⟨he, hp⟩
    · by_cases he : cfg.dns = []
      case pos => rw [he]; nofun
      case neg => exact hd hi he
    · by_cases he : cfg.ntpServer = []
      case pos => rw [he]; nofun
      case neg => exact hn he
  case mpr =>
    rintro ⟨hc, hk, hd, hn, hh⟩
    exact ⟨⟨⟨⟨hc, fun he => hk he.1⟩, fun hi _ => hd hi⟩, hh⟩, fun _ => hn⟩

-- The values of an imported configuration reach the shell as they are exactly if it is quotable.
theorem settings_intact_iff {content : List UInt8} (h : parse content = some cfg) :
    (∀ codes, ∀ command ∈ (apply codes cfg).1, command.Intact glob) ↔ Quotable glob cfg := by
  obtain ⟨bounded, encryption, ssid⟩ := parse_bounded h
  rw [← script_intact_iff bounded encryption]
  simp only [apply, if_neg ssid]
  constructor
  case mp =>
    intro all step hs
    refine all (fun _ => 0) step.command ?_
    rw [run_all]
    exact List.mem_map_of_mem hs
  case mpr =>
    intro all codes command hc
    obtain ⟨step, hs, rfl⟩ := mem_run hc
    exact all step hs

-- A file that names only the network, which is then open.
theorem plain_network_intact :
    parse (ofString "ssid=net\n") = some { ssid := ofString "net", encryption := ofString "none" } ∧
      ∀ codes, ∀ command ∈ (apply codes { ssid := ofString "net", encryption := ofString "none" }).1,
        command.Intact fun _ => [] := by
  have parsed : parse (ofString "ssid=net\n") =
      some { ssid := ofString "net", encryption := ofString "none" } := by decide
  refine ⟨parsed, (settings_intact_iff parsed).mpr ⟨?_, ?_, ?_, ?_, ?_⟩⟩
  · decide
  · exact fun he => (he rfl).elim
  · exact fun hi => (hi rfl).elim
  · nofun
  · exact fun hh => (hh rfl).elim

-- An apostrophe in the country leaves a quotation open: the shell reads no command.
theorem country_unbalanced : ∃ content cfg, parse content = some cfg ∧
    ¬∀ codes, ∀ command ∈ (apply codes cfg).1, command.Intact fun _ => [] := by
  refine ⟨ofString "ssid=net\ncountry=a'\n",
    { ssid := ofString "net", encryption := ofString "none", country := ofString "A'" }, by decide, ?_⟩
  intro all
  have intact := all (fun _ => 0) (uci "set" "wireless.radio0.country" "A'" (raw "A'")) (by decide) _ rfl
  have unread : Shell.read (uci "set" "wireless.radio0.country" "A'" (raw "A'")).text = none := by decide
  obtain ⟨words, hr, -⟩ := intact
  rw [unread] at hr
  cases hr

end
end Deneb.Wifi
