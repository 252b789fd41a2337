import DenebModel.Primitives.Shell
import DenebModel.Primitives.CString
import Mathlib.Data.List.Basic

open CString

-- `ui/src/net_utils.c`
namespace Deneb.NetUtils

def chomp (s : CString) : CString :=
  (s.reverse.dropWhile fun c => c == 10 || c == 13).reverse

def trim (s : CString) : CString :=
  trimRight (skipSpaces s)

def strLower (s : CString) : CString :=
  s.map toLower

-- The loop of `net_uci_escape`, with `out` bytes in the buffer of `size` bytes.
def escapeLoop (size : Nat) : Nat → CString → CString
  | _, []       => []
  | out, c :: s =>
    if size ≤ out + 5 then []
    else if c = 39 then [39, 92, 39, 39] ++ escapeLoop size (out + 4) s
    else c :: escapeLoop size (out + 1) s

def uciEscape (size : Nat) (src : CString) : CString :=
  if size < 3 then []
  else
    let body := escapeLoop size 1 src
    if 1 + body.length + 1 < size then 39 :: body ++ [39] else 39 :: body

-- The key and the value of a line.
def parseKeyValueLine (line : CString) : Option (CString × CString) :=
  let p := skipSpaces (chomp line)
  if p = [] ∨ p.head? = some 35 ∨ p.head? = some 59 then none
  else
    match p.dropWhile (· != 61) with
    | []       => none
    | _ :: val => some (strLower (trim (p.takeWhile (· != 61))), trim val)

end Deneb.NetUtils

-- `ui/src/wifi_setup.c`
namespace Deneb.Wifi

open NetUtils

def maxSsid : Nat := 64
def maxPass : Nat := 128
def maxEncr : Nat := 16
def maxIp : Nat := 48
def maxDns : Nat := 128
def maxNtp : Nat := 128
def maxHost : Nat := 64
def maxLine : Nat := 256

-- `wifi_config_t`, with the defaults of the parser.
structure Config where
  ssid       : CString := []
  password   : CString := []
  encryption : CString := []
  ipAddress  : CString := []
  netmask    : CString := []
  gateway    : CString := []
  dns        : CString := []
  ntpServer  : CString := []
  hostname   : CString := []
  country    : CString := "US"
  deriving DecidableEq

-- What the parser keeps track of.
structure Parser where
  cfg           : Config := {}
  gotSsid       : Bool   := false
  gotPassword   : Bool   := false
  gotEncryption : Bool   := false

-- The lines that `fgets` reads into a buffer of `size` bytes.
def fgetsLines (size : Nat) : List UInt8 → List UInt8 → List CString
  | [], read      => if read.isEmpty then [] else [read.takeWhile (· ≠ 0)]
  | b :: bs, read =>
    let read := read ++ [b]
    if b = 10 ∨ read.length = size - 1 then read.takeWhile (· ≠ 0) :: fgetsLines size bs []
    else fgetsLines size bs read

def isKey (names : List String) (key : CString) : Bool :=
  names.any fun name => ofString name == key

-- The body of the loop over the lines.
def Parser.readLine (p : Parser) (line : CString) : Parser :=
  match parseKeyValueLine line with
  | none            => p
  | some (key, val) =>
    let cfg := p.cfg
    if isKey ["ssid"] key then { p with cfg := { cfg with ssid := fit maxSsid val }, gotSsid := true }
    else if isKey ["password", "pass", "key", "psk"] key then
      { p with cfg := { cfg with password := fit maxPass val }, gotPassword := fit maxPass val ≠ [] }
    else if isKey ["encryption", "encr", "auth", "security"] key then
      { p with
        cfg           := { cfg with encryption := strLower (fit maxEncr val) }
        gotEncryption := strLower (fit maxEncr val) ≠ [] }
    else if isKey ["ip", "ip_address", "ipaddress", "static_ip"] key then
      { p with cfg := { cfg with ipAddress := fit maxIp val } }
    else if isKey ["netmask", "mask", "subnet"] key then
      { p with cfg := { cfg with netmask := fit maxIp val } }
    else if isKey ["gateway", "gw", "router"] key then
      { p with cfg := { cfg with gateway := fit maxIp val } }
    else if isKey ["dns", "nameserver", "dns_server"] key then
      { p with cfg := { cfg with dns := fit maxDns val } }
    else if isKey ["ntp", "ntp_server", "ntpserver", "timeserver", "time_server"] key then
      { p with cfg := { cfg with ntpServer := fit maxNtp val } }
    else if isKey ["hostname", "host", "name", "device_name", "printer_name"] key then
      { p with cfg := { cfg with hostname := fit maxHost val } }
    else if isKey ["country", "country_code", "region"] key then
      match val with
      | a :: b :: _ => { p with cfg := { cfg with country := [toUpper a, toUpper b] } }
      | _           => p
    else p

def encryptions : List CString :=
  ["none", "psk2", "psk", "sae", "wep"]

-- The kind of encryption as the settings know it.
def normalize (encryption : CString) (gotPassword : Bool) : CString :=
  let encryption : CString :=
    if isKey ["wpa2", "wpa2-psk"] encryption then "psk2"
    else if isKey ["wpa", "wpa1", "wpa-psk"] encryption then "psk"
    else if isKey ["wpa3", "wpa3-sae", "sae"] encryption then "sae"
    else if isKey ["open", "none"] encryption then "none"
    else if isKey ["wep"] encryption then "wep"
    else encryption
  if encryption ∈ encryptions then encryption
  else if gotPassword then "psk2" else "none"

-- `wifi_setup_parse`, of a file that can be opened. There is no result without a name of the network.
def parse (content : List UInt8) : Option Config :=
  let p := (fgetsLines maxLine content []).foldl Parser.readLine {}
  if ¬p.gotSsid ∨ p.cfg.ssid = [] then none
  else if trim p.cfg.ssid = [] then none
  else
    let encryption : CString :=
      if p.gotEncryption then p.cfg.encryption else if p.gotPassword then "psk2" else "none"
    some { p.cfg with encryption := normalize encryption p.gotPassword }

-- What a command is meant to set.
structure Setting where
  verb   : CString
  option : CString
  value  : CString
  deriving DecidableEq

-- A string that is passed to `system`, and the setting if a value of the configuration is in it.
structure Command where
  text    : CString
  setting : Option Setting := none
  deriving DecidableEq

inductive Result
  | ok
  | noSsid
  | uciFail
  | netFail
  | ntpFail
  deriving DecidableEq

-- A command, and what the function returns if it fails, where that is looked at.
structure Step where
  command : Command
  failure : Option Result := none

-- A command without a value of the configuration.
def fixed (text : String) (failure : Option Result) : Step :=
  { command := { text := text }, failure }

-- A command that `snprintf` puts into a buffer of 512 bytes; `quoted` is how the value stands in it.
def uci (verb option : String) (value quoted : CString) : Command where
  text    := fit 512 ("uci " ++ ofString verb ++ 32 :: ofString option ++ 61 :: quoted)
  setting := some { verb := verb, option := option, value }

-- `'%s'`
def raw (value : CString) : CString :=
  39 :: value ++ [39]

-- The texts between the delimiters, as `strtok` finds them.
def tokens (s : CString) : List CString :=
  (s.splitOnP fun c => c == 32 || c == 44 || c == 59).filter (· ≠ [])

-- What `wifi_setup_apply` does for a configuration, in order.
def script (cfg : Config) : List Step :=
  let escape (max : Nat) := uciEscape (max * 4 + 4)
  let set (option : String) (max : Nat) (value : CString) : Command :=
    uci "set" option value (escape max value)
  [fixed "uci set wireless.radio0.disabled='0'" (some .uciFail),
    ⟨uci "set" "wireless.radio0.country" cfg.country (raw cfg.country), some .uciFail⟩,
    ⟨set "wireless.sta.ssid" maxSsid cfg.ssid, some .uciFail⟩,
    ⟨uci "set" "wireless.sta.encryption" cfg.encryption (raw cfg.encryption), some .uciFail⟩,
    fixed "uci delete wireless.sta.key 2>/dev/null" none] ++
  (if cfg.encryption ≠ ("none" : CString) ∧ cfg.password ≠ [] then
    [⟨set "wireless.sta.key" maxPass cfg.password, some .uciFail⟩]
  else []) ++
  [fixed "uci set wireless.sta.disabled='0'" none,
    fixed "uci set wireless.ap.disabled='1'" none,
    fixed "uci set wireless.ap.hidden='1'" none] ++
  (if cfg.ipAddress ≠ [] then
    [fixed "uci set network.wwan.proto='static'" none,
      fixed "uci delete network.wwan.gateway 2>/dev/null" none,
      fixed "uci delete network.wwan.dns 2>/dev/null" none,
      ⟨set "network.wwan.ipaddr" maxIp cfg.ipAddress, none⟩] ++
    (if cfg.netmask ≠ [] then [⟨set "network.wwan.netmask" maxIp cfg.netmask, none⟩]
    else [fixed "uci set network.wwan.netmask='255.255.255.0'" none]) ++
    (if cfg.gateway ≠ [] then [⟨set "network.wwan.gateway" maxIp cfg.gateway, none⟩] else []) ++
    (if cfg.dns ≠ [] then
      fixed "uci delete network.wwan.dns 2>/dev/null" none ::
        (tokens cfg.dns).map fun token =>
          ⟨uci "add_list" "network.wwan.dns" token (escape maxDns token), none⟩
    else [])
  else
    [fixed "uci set network.wwan.proto='dhcp'" none,
      fixed "uci delete network.wwan.ipaddr 2>/dev/null" none,
      fixed "uci delete network.wwan.netmask 2>/dev/null" none,
      fixed "uci delete network.wwan.gateway 2>/dev/null" none,
      fixed "uci delete network.wwan.dns 2>/dev/null" none]) ++
  (if cfg.hostname ≠ [] then
    [⟨set "network.wwan.hostname" maxHost cfg.hostname, none⟩,
      ⟨set "system.@system[0].hostname" maxHost cfg.hostname, none⟩]
  else [fixed "uci set network.wwan.hostname='Ultimaker-2C'" none]) ++
  (if cfg.ntpServer ≠ [] then
    fixed "uci delete system.ntp.server 2>/dev/null" none ::
      (tokens cfg.ntpServer).map fun token =>
        ⟨uci "add_list" "system.ntp.server" token (escape maxNtp token), none⟩
  else []) ++
  [fixed "uci commit" (some .uciFail),
    fixed "(wifi reload; /etc/init.d/network restart) >/dev/null 2>&1" (some .netFail)] ++
  (if cfg.ntpServer ≠ [] then
    [fixed "/etc/init.d/sysntpd restart >/dev/null 2>&1" (some .ntpFail)]
  else [])

-- The commands that are passed to `system`, where `codes` are the results of the calls.
def run (codes : Nat → Int) : Nat → List Step → List Command × Result
  | _, []            => ([], .ok)
  | i, step :: steps =>
    match step.failure with
    | some result =>
      if codes i ≠ 0 then ([step.command], result)
      else (step.command :: (run codes (i + 1) steps).1, (run codes (i + 1) steps).2)
    | none        => (step.command :: (run codes (i + 1) steps).1, (run codes (i + 1) steps).2)

-- `wifi_setup_apply`
def apply (codes : Nat → Int) (cfg : Config) : List Command × Result :=
  if cfg.ssid = [] then ([], .noSsid) else run codes 0 (script cfg)

end Deneb.Wifi
