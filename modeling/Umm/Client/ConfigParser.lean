import Umm.Client.Init
import Umm.Lib.Cut
import Mathlib.Data.List.DropRight

/-! `config_parser.c`: the list of devices, with `path:size` entries and sizes in bytes or with one of
the suffixes G, M and K, and the file with its `key: value` lines. -/
namespace Umm
open Umm.Lib

def trim (s : List UInt8) : List UInt8 := (s.rdropWhile isSpace).dropWhile isSpace

/-- Surrounding quotes, double or single, are taken off. -/
def stripQuotes (s : List UInt8) : List UInt8 :=
  if 2 ≤ s.length ∧ (s.head? = some 34 ∧ s.getLast? = some 34 ∨
      s.head? = some 39 ∧ s.getLast? = some 39) then (s.drop 1).dropLast
  else s

def sizeFactor (suffix : UInt8) : Option ℕ :=
  if suffix = 71 || suffix = 103 then some (2 ^ 30)
  else if suffix = 77 || suffix = 109 then some (2 ^ 20)
  else if suffix = 75 || suffix = 107 then some (2 ^ 10)
  else none

/-- The size in bytes; the product of a `uint64_t`. -/
def sizeBytes (sizeStr : List UInt8) : UInt64 :=
  match sizeStr.getLast? with
  | none => 0
  | some suffix =>
    let num := strtoull prefixed sizeStr
    if (strtoullEnd sizeStr).length ≤ 1 then
      match sizeFactor suffix with
      | some factor => num * UInt64.ofNat factor
      | none => num
    else num

/-- One turn of the loop over the entries. -/
def parseSsdDevice (token : List UInt8) : Option SsdDevicePath :=
  match cutLast colon (token.dropWhile isSpace) with
  | none => none
  | some (front, back) =>
    let path := stripQuotes (trim front)
    let size := sizeBytes (trim back)
    if path ≠ [] ∧ 0 < size then some ⟨.ofBytes (path.take 255), size⟩ else none

def maxSsdDevices : ℕ := 16

/-- The loop over the entries. -/
def addSsdDevices : List (List UInt8) → List SsdDevicePath → List SsdDevicePath
  | [], devices => devices
  | token :: tokens, devices =>
    if maxSsdDevices ≤ devices.length then devices
    else addSsdDevices tokens (devices ++ (parseSsdDevice token).toList)

/-- The tokens that `strtok_r` finds between the separators. -/
def strtok (sep : UInt8) (s : List UInt8) : List (List UInt8) := (s.splitOn sep).filter (· ≠ [])

/-- The devices of a value of `ssd_devices`, behind those that are there. -/
def parseSsdDevices (value : CString) (devices : List SsdDevicePath) : List SsdDevicePath :=
  addSsdDevices (strtok comma value.bytes) devices

/-! The fields that a file sets. -/

inductive TextField
  | transport | consistencyModel | metaServerAddr | memServerAddr | cxlDevice | ssdDevice
  | ndsRpcServerCtrl | ndsRpcServerSocket | peerNodes | rpcToken | allowCidrs
  deriving DecidableEq

/-- The size of the buffer. -/
def TextField.size : TextField → ℕ
  | .transport | .consistencyModel => 16
  | .peerNodes => 1024
  | .rpcToken => 64
  | .allowCidrs => 512
  | _ => 256

/-- `set_str` into that buffer. -/
def TextField.setStr (field : TextField) (value : List UInt8) : CString :=
  .ofBytes (value.take (field.size - 1))

inductive NumberField
  | memorySize | listenPort | baseGpa | myNodeId | ndsRpcServerEnable | ndsRpcServerNs
  | ndsRpcServerQd | ndsRpcServerKeepAlive | ssdOwnerNode | dataMaxIo
  deriving DecidableEq

inductive ConfigKey
  | text (field : TextField)
  | number (field : NumberField)
  | ssdDevices
  deriving DecidableEq

def asciiBytes (s : String) : List UInt8 := s.toList.map fun c => c.toNat.toUInt8

/-- The keys. Two of them set the address of the metadata server. -/
def configKeys : List (String × ConfigKey) :=
  [("transport", .text .transport), ("consistency_model", .text .consistencyModel),
    ("memory_size", .number .memorySize), ("meta_server_addr", .text .metaServerAddr),
    ("mem_server_addr", .text .memServerAddr), ("cxl_device", .text .cxlDevice),
    ("ssd_device", .text .ssdDevice), ("ssd_devices", .ssdDevices),
    ("listen_addr", .text .metaServerAddr), ("listen_port", .number .listenPort),
    ("base_gpa", .number .baseGpa), ("my_node_id", .number .myNodeId),
    ("nds_rpc_server_enable", .number .ndsRpcServerEnable),
    ("nds_rpc_server_ctrl", .text .ndsRpcServerCtrl),
    ("nds_rpc_server_ns", .number .ndsRpcServerNs), ("nds_rpc_server_qd", .number .ndsRpcServerQd),
    ("nds_rpc_server_socket", .text .ndsRpcServerSocket),
    ("nds_rpc_server_keep_alive", .number .ndsRpcServerKeepAlive),
    ("peer_nodes", .text .peerNodes), ("rpc_token", .text .rpcToken),
    ("allow_cidrs", .text .allowCidrs), ("ssd_owner_node", .number .ssdOwnerNode),
    ("data_max_io", .number .dataMaxIo)]

def configKey (key : List UInt8) : Option ConfigKey :=
  (configKeys.find? fun entry => asciiBytes entry.1 = key).map Prod.snd

/-! Numbers and flags. -/

/-- The digits of a number, without its sign. -/
def unsigned (s : List UInt8) : List UInt8 :=
  match s.dropWhile isSpace with
  | 45 :: rest => rest
  | 43 :: rest => rest
  | rest => rest

/-- The number is read to the end of the string and is not out of range. -/
def parseUll (s : List UInt8) : Option UInt64 :=
  if prefixed (unsigned s) < 2 ^ 64 ∧ strtoullEnd s = [] then some (strtoull prefixed s) else none

/-- `parse_int`; what does not fit a `long` does not fit an `int`. -/
def parseInt (s : List UInt8) : Option ℤ :=
  let value : ℤ := match s.dropWhile isSpace with
    | 45 :: rest => -prefixed rest
    | _ => prefixed (unsigned s)
  if strtoullEnd s = [] ∧ -(2 ^ 31) ≤ value ∧ value < 2 ^ 31 then some value else none

/-- `tolower` -/
def lower (b : UInt8) : UInt8 := if 65 ≤ b && b ≤ 90 then b + 32 else b

def parseBool (s : List UInt8) : Option ℕ :=
  if s.map lower = asciiBytes "true" ∨ s = asciiBytes "1" ∨ s.map lower = asciiBytes "yes" then some 1
  else if s.map lower = asciiBytes "false" ∨ s = asciiBytes "0" ∨ s.map lower = asciiBytes "no" then
    some 0
  else none

/-- The value that a number is stored as, if it is one that the field takes. -/
def NumberField.parse : NumberField → List UInt8 → Option ℕ
  | .memorySize, s | .baseGpa, s => (parseUll s).map UInt64.toNat
  | .dataMaxIo, s => (parseUll s).map fun v => v.toUInt32.toNat
  | .listenPort, s => (parseInt s).bind fun v => if v < 0 ∨ 65535 < v then none else some v.toNat
  | .ssdOwnerNode, s => (parseInt s).bind fun v => if v < 0 ∨ 255 < v then none else some v.toNat
  -- a node is stored in one byte, and larger numbers are not refused
  | .myNodeId, s => (parseInt s).bind fun v => if v < 0 then none else some (v.toNat % 256)
  | .ndsRpcServerNs, s | .ndsRpcServerQd, s =>
    (parseInt s).bind fun v => if v ≤ 0 then none else some v.toNat
  | .ndsRpcServerEnable, s | .ndsRpcServerKeepAlive, s => parseBool s

/-! The configuration, and the loop over the file. -/

/-- `UMMConfig`, as far as a file sets it. -/
structure FileConfig where
  text : TextField → CString
  number : NumberField → ℕ
  ssdDevices : List SsdDevicePath

namespace FileConfig

/-- What stands in the configuration before the file is read. -/
def initial : FileConfig where
  text _ := emptyString
  number
    | .ndsRpcServerNs | .ndsRpcServerKeepAlive => 1
    | .ndsRpcServerQd => 64
    | _ => 0
  ssdDevices := []

def set (cfg : FileConfig) (key : ConfigKey) (value : List UInt8) : Option FileConfig :=
  match key with
  | .text field => some { cfg with text := Function.update cfg.text field (field.setStr value) }
  | .number field => (field.parse value).map fun v =>
    { cfg with number := Function.update cfg.number field v }
  | .ssdDevices => some { cfg with ssdDevices := parseSsdDevices (.ofBytes value) cfg.ssdDevices }

end FileConfig

def newline : UInt8 := 10

/-- `fgets` into a buffer of that size: a line, whether the end of the file was met, and what is left
of the file. -/
def fgets (size : ℕ) (file : List UInt8) : Option (List UInt8 × Bool × List UInt8) :=
  let chunk := file.take (size - 1)
  if file = [] then none
  else if newline ∈ chunk then
    some (chunk.takeWhile (· ≠ newline) ++ [newline], false, (file.dropWhile (· ≠ newline)).tail)
  else some (chunk, decide (file.length < size - 1), file.drop (size - 1))

def splitKeyValue (line : List UInt8) : Option (List UInt8 × List UInt8) :=
  if colon ∈ line then
    let key := trim (line.takeWhile (· ≠ colon))
    let value := trim (line.dropWhile (· ≠ colon)).tail
    if key = [] then none else some (key, value)
  else none

/-- The setting on a line, none on a blank line or a comment. -/
def lineSetting (text : List UInt8) : Except Error (Option (List UInt8 × List UInt8)) :=
  match trim text with
  | [] => .ok none
  | 35 :: _ => .ok none
  | trimmed =>
    match splitKeyValue trimmed with
    | none => .error .invalidArg
    | some (key, value) => .ok (some (key, stripQuotes value))

namespace FileConfig

/-- A setting in the configuration. Unknown keys are ignored. -/
def apply (cfg : FileConfig) : Option (List UInt8 × List UInt8) → Except Error FileConfig
  | none => .ok cfg
  | some (key, value) =>
    match configKey key with
    | none => .ok cfg
    | some key =>
      match cfg.set key value with
      | none => .error .invalidArg
      | some cfg => .ok cfg

/-- One turn of the loop: a line that the buffer does not hold, or with a NUL before its end, is
refused. -/
def readLine (cfg : FileConfig) (line : List UInt8) (atEnd : Bool) : Except Error FileConfig :=
  let text := line.takeWhile (· ≠ 0)
  if newline ∉ text ∧ atEnd = false then .error .invalidArg
  else do
    let text := if text.getLast? = some newline then text.dropLast else text
    cfg.apply (← lineSetting text)

end FileConfig

def configLineSize : ℕ := 8192

/-- The loop over the file; every line takes a byte of it at least. -/
def parseConfigLoop : ℕ → List UInt8 → FileConfig → Except Error Unit × FileConfig
  | 0, _, cfg => (.ok (), cfg)
  | fuel + 1, file, cfg =>
    match fgets configLineSize file with
    | none => (.ok (), cfg)
    | some (line, atEnd, rest) =>
      match cfg.readLine line atEnd with
      | .error e => (.error e, cfg)
      | .ok cfg => parseConfigLoop fuel rest cfg

/-- `umm_parse_config` on the bytes of the file, `none` where it cannot be opened. -/
def ummParseConfig (file : Option (List UInt8)) : Except Error Unit × FileConfig :=
  match file with
  | none => (.error .notFound, .initial)
  | some file => parseConfigLoop file.length file .initial

/-! What a file says. -/

/-- The lines of a file, each with whether the file ends behind it. -/
def configLines (file : List UInt8) : List (List UInt8 × Bool) :=
  let lines := file.splitOn newline
  lines.dropLast.map (·, false) ++ lines.getLast?.toList.map (·, true)

/-- The setting on a line that the buffer holds with its newline and that has no NUL before it. -/
def settingOf (l : List UInt8 × Bool) : Except Error (Option (List UInt8 × List UInt8)) :=
  if configLineSize ≤ l.1.length + 1 ∨ 0 ∈ l.1 ∧ l.2 = false then .error .invalidArg
  else lineSetting (l.1.takeWhile (· ≠ 0))

def ConfigKey.takes (value : List UInt8) : ConfigKey → Bool
  | .number field => (field.parse value).isSome
  | _ => true

/-- A line that is not refused. -/
def lineTaken (l : List UInt8 × Bool) : Bool :=
  match settingOf l with
  | .error _ => false
  | .ok none => true
  | .ok (some (key, value)) => (configKey key).all (ConfigKey.takes value)

/-- The known key on a line, with its value. -/
def keySetting (l : List UInt8 × Bool) : Option (ConfigKey × List UInt8) := do
  let (key, value) ← (settingOf l).toOption.join
  return (← configKey key, value)

def textOf (field : TextField) (l : List UInt8 × Bool) : Option CString :=
  (keySetting l).bind fun s => if s.1 = .text field then some (field.setStr s.2) else none

def numberOf (field : NumberField) (l : List UInt8 × Bool) : Option ℕ :=
  (keySetting l).bind fun s => if s.1 = .number field then field.parse s.2 else none

def devicesOf (l : List UInt8 × Bool) : List SsdDevicePath :=
  match keySetting l with
  | some (.ssdDevices, value) => (strtok comma (CString.ofBytes value).bytes).filterMap parseSsdDevice
  | _ => []

section Lines

variable {cfg cfg' : FileConfig} {l : List UInt8 × Bool} {ls : List (List UInt8 × Bool)}
  {file line rest : List UInt8}

theorem addSsdDevices_take {tokens : List (List UInt8)} {devices : List SsdDevicePath}
    (h : devices.length ≤ maxSsdDevices) : addSsdDevices tokens devices =
      (devices ++ tokens.filterMap parseSsdDevice).take maxSsdDevices := by
  induction tokens generalizing devices with
  | nil => rw [addSsdDevices, List.filterMap_nil, List.append_nil, List.take_of_length_le h]
  | cons token tokens ih =>
    unfold addSsdDevices
    split_ifs with hfull
    · rw [List.take_append_of_le_length hfull, List.take_of_length_le h]
    · have hnext : (devices ++ (parseSsdDevice token).toList).length ≤ maxSsdDevices := by
        rw [List.length_append]
        have hone : (parseSsdDevice token).toList.length ≤ 1 := by
          cases parseSsdDevice token <;> simp
        omega
      rw [ih hnext, List.append_assoc]
      congr 2
      cases hparse : parseSsdDevice token with
      | none => rw [List.filterMap_cons_none hparse]; rfl
      | some device => rw [List.filterMap_cons_some hparse]; rfl

/-- What one line does to the configuration. -/
structure FileConfig.After (cfg cfg' : FileConfig) (l : List UInt8 × Bool) : Prop where
  text : ∀ field, cfg'.text field = (textOf field l).getD (cfg.text field)
  number : ∀ field, cfg'.number field = (numberOf field l).getD (cfg.number field)
  devices : cfg.ssdDevices.length ≤ maxSsdDevices →
    cfg'.ssdDevices = (cfg.ssdDevices ++ devicesOf l).take maxSsdDevices

theorem FileConfig.after_same (h : keySetting l = none) : cfg.After cfg l where
  text field := by rw [textOf, h]; rfl
  number field := by rw [numberOf, h]; rfl
  devices hroom := by
    rw [devicesOf, h, List.append_nil, List.take_of_length_le hroom]

theorem FileConfig.after_set {key : ConfigKey} {value : List UInt8}
    (h : keySetting l = some (key, value)) (hset : cfg.set key value = some cfg') :
    cfg.After cfg' l := by
  cases key with
  | text field =>
    obtain rfl := Option.some.inj hset
    refine ⟨fun field' => ?_, fun field' => ?_, fun hroom => ?_⟩
    · rw [textOf, h]
      by_cases hf : field' = field
      · subst hf
        simp
      · simp [Function.update_of_ne hf, Ne.symm hf]
    · rw [numberOf, h]
      rfl
    · rw [devicesOf, h, List.append_nil, List.take_of_length_le hroom]
  | number field =>
    obtain ⟨v, hv, rfl⟩ := Option.map_eq_some_iff.mp hset
    refine ⟨fun field' => ?_, fun field' => ?_, fun hroom => ?_⟩
    · rw [textOf, h]
      rfl
    · rw [numberOf, h]
      by_cases hf : field' = field
      · subst hf
        simp [hv]
      · simp [Function.update_of_ne hf, Ne.symm hf]
    · rw [devicesOf, h, List.append_nil, List.take_of_length_le hroom]
  | ssdDevices =>
    obtain rfl := Option.some.inj hset
    refine ⟨fun field' => ?_, fun field' => ?_, fun hroom => ?_⟩
    · rw [textOf, h]
      rfl
    · rw [numberOf, h]
      rfl
    · rw [devicesOf, h]
      exact addSsdDevices_take hroom

theorem lineSetting_error {e : Error} {text : List UInt8} (h : lineSetting text = .error e) :
    e = .invalidArg := by
  unfold lineSetting at h
  split at h
  · cases h
  · cases h
  · split at h
    · exact (Except.error.inj h).symm
    · cases h

theorem settingOf_error {e : Error} (h : settingOf l = .error e) : e = .invalidArg := by
  unfold settingOf at h
  split_ifs at h
  · exact (Except.error.inj h).symm
  · exact lineSetting_error h

/-- A line is applied where it is taken, and refused otherwise. -/
theorem FileConfig.apply_line (cfg : FileConfig) (l : List UInt8 × Bool) :
    (lineTaken l = true ∧ ∃ cfg', (settingOf l).bind cfg.apply = .ok cfg' ∧ cfg.After cfg' l) ∨
      (lineTaken l = false ∧ (settingOf l).bind cfg.apply = .error .invalidArg) := by
  unfold lineTaken
  cases hsetting : settingOf l with
  | error e =>
    obtain rfl := settingOf_error hsetting
    exact .inr ⟨rfl, rfl⟩
  | ok setting =>
    cases setting with
    | none =>
      refine .inl ⟨rfl, cfg, rfl, after_same ?_⟩
      rw [keySetting, hsetting]
      rfl
    | some setting =>
      obtain ⟨key, value⟩ := setting
      have hkey : keySetting l = (configKey key).map (·, value) := by
        rw [keySetting, hsetting]
        cases hk : configKey key <;> simp [Except.toOption, hk]
      dsimp only [Except.bind, apply]
      cases hk : configKey key with
      | none =>
        rw [hk] at hkey
        exact .inl ⟨rfl, cfg, rfl, after_same hkey⟩
      | some key =>
        rw [hk] at hkey
        dsimp only
        cases hset : cfg.set key value with
        | some cfg' =>
          refine .inl ⟨?_, cfg', rfl, after_set hkey hset⟩
          cases key with
          | text field => rfl
          | number field =>
            obtain ⟨v, hv, -⟩ := Option.map_eq_some_iff.mp hset
            simp [ConfigKey.takes, hv]
          | ssdDevices => rfl
        | none =>
          refine .inr ⟨?_, rfl⟩
          cases key with
          | text field => cases hset
          | number field =>
            have hv : field.parse value = none := Option.map_eq_none_iff.mp hset
            simp [ConfigKey.takes, hv]
          | ssdDevices => cases hset

/-- The loop on lines. -/
def applyLines : List (List UInt8 × Bool) → FileConfig → Except Error Unit × FileConfig
  | [], cfg => (.ok (), cfg)
  | l :: ls, cfg =>
    match (settingOf l).bind cfg.apply with
    | .error e => (.error e, cfg)
    | .ok cfg => applyLines ls cfg

/-- The configuration that lines leave: each field has the value that the last of them gives it. -/
structure FileConfig.Read (cfg cfg' : FileConfig) (ls : List (List UInt8 × Bool)) : Prop where
  text : ∀ field, cfg'.text field = (ls.filterMap (textOf field)).getLast?.getD (cfg.text field)
  number : ∀ field,
    cfg'.number field = (ls.filterMap (numberOf field)).getLast?.getD (cfg.number field)
  devices : cfg'.ssdDevices = (cfg.ssdDevices ++ ls.flatMap devicesOf).take maxSsdDevices

theorem getLast?_filterMap_cons {α β : Type} (f : α → Option β) (a : α) (as : List α) (d : β) :
    ((a :: as).filterMap f).getLast?.getD d = (as.filterMap f).getLast?.getD ((f a).getD d) := by
  cases hf : f a with
  | none => rw [List.filterMap_cons_none hf, Option.getD_none]
  | some b =>
    rw [List.filterMap_cons_some hf, List.getLast?_cons, Option.getD_some, Option.getD_some]

theorem FileConfig.After.read {cfg'' : FileConfig} (h : cfg.After cfg' l)
    (hroom : cfg.ssdDevices.length ≤ maxSsdDevices) (hrest : cfg'.Read cfg'' ls) :
    cfg.Read cfg'' (l :: ls) where
  text field := by rw [getLast?_filterMap_cons, ← h.text, hrest.text]
  number field := by rw [getLast?_filterMap_cons, ← h.number, hrest.number]
  devices := by
    rw [hrest.devices, h.devices hroom, List.flatMap_cons, ← List.append_assoc]
    generalize cfg.ssdDevices ++ devicesOf l = found
    rw [List.take_append, List.take_take, min_self, List.length_take, List.take_append]
    congr 2
    omega

theorem applyLines_read (ls : List (List UInt8 × Bool))
    (hroom : cfg.ssdDevices.length ≤ maxSsdDevices) :
    ((applyLines ls cfg).1 = if ls.all lineTaken then .ok () else .error .invalidArg) ∧
      cfg.Read (applyLines ls cfg).2 (ls.takeWhile lineTaken) := by
  induction ls generalizing cfg with
  | nil => exact ⟨rfl, ⟨fun _ => rfl, fun _ => rfl, by simpa [applyLines] using hroom⟩⟩
  | cons l ls ih =>
    unfold applyLines
    rcases cfg.apply_line l with ⟨htaken, cfg', happly, hafter⟩ | ⟨htaken, happly⟩
    · have hnext : cfg'.ssdDevices.length ≤ maxSsdDevices := by
        rw [hafter.devices hroom, List.length_take]
        exact min_le_left _ _
      obtain ⟨hstatus, hread⟩ := ih hnext
      rw [happly, List.all_cons, htaken, Bool.true_and, List.takeWhile_cons_of_pos htaken]
      exact ⟨hstatus, hafter.read hroom hread⟩
    · rw [happly, List.all_cons, htaken, Bool.false_and,
        List.takeWhile_cons_of_neg (by rw [htaken]; decide)]
      exact ⟨rfl, ⟨fun _ => rfl, fun _ => rfl, by simpa using hroom⟩⟩

/-! The lines that `fgets` reads. -/

theorem configLines_last (h : newline ∉ line) : configLines line = [(line, true)] := by
  unfold configLines
  rw [List.splitOn_eq_singleton h]
  rfl

theorem configLines_cons (h : newline ∉ line) :
    configLines (line ++ newline :: rest) = (line, false) :: configLines rest := by
  have hne := List.splitOn_ne_nil newline rest
  unfold configLines
  dsimp only
  rw [List.splitOn_append_cons_self_of_not_mem h, List.dropLast_cons_of_ne_nil hne, List.map_cons,
    List.cons_append, List.getLast?_cons]
  cases hlast : (rest.splitOn newline).getLast? with
  | none => exact absurd (List.getLast?_eq_none_iff.mp hlast) hne
  | some last => rfl

theorem fgets_cons (h : newline ∉ line) (hfit : line.length + 1 < configLineSize) :
    fgets configLineSize (line ++ newline :: rest) = some (line ++ [newline], false, rest) := by
  have htake : (line ++ newline :: rest).take (configLineSize - 1) =
      line ++ newline :: rest.take (configLineSize - 2 - line.length) := by
    rw [List.take_append, List.take_of_length_le (by omega)]
    congr 1
    rw [show configLineSize - 1 - line.length = configLineSize - 2 - line.length + 1 by omega,
      List.take_succ_cons]
  unfold fgets
  dsimp only
  rw [htake, if_neg (by simp), if_pos (by simp), takeWhile_cut h, dropWhile_cut h]
  rfl

theorem fgets_last (hne : line ≠ []) (h : newline ∉ line) (hfit : line.length + 1 < configLineSize) :
    fgets configLineSize line = some (line, true, []) := by
  unfold fgets
  dsimp only
  rw [if_neg hne, List.take_of_length_le (by omega), if_neg h, List.drop_of_length_le (by omega),
    decide_eq_true (by omega)]

/-- The first bytes of a line that is too long. -/
theorem fgets_long (h : newline ∉ line) (hlong : configLineSize ≤ line.length + 1)
    (rest : List UInt8) : ∃ rest', fgets configLineSize (line ++ rest) =
      some (line.take (configLineSize - 1), false, rest') := by
  have htake : (line ++ rest).take (configLineSize - 1) = line.take (configLineSize - 1) :=
    List.take_append_of_le_length (by omega)
  have hne : line ++ rest ≠ [] := by
    refine List.append_ne_nil_of_left_ne_nil (List.ne_nil_of_length_pos ?_) rest
    unfold configLineSize at hlong
    omega
  refine ⟨(line ++ rest).drop (configLineSize - 1), ?_⟩
  unfold fgets
  dsimp only
  rw [if_neg hne, htake, if_neg fun hmem => h (List.mem_of_mem_take hmem)]
  congr 2
  rw [decide_eq_false]
  rw [List.length_append]
  omega

theorem readLine_refused (h : newline ∉ line.takeWhile (· ≠ 0)) :
    cfg.readLine line false = .error .invalidArg := by
  unfold FileConfig.readLine
  dsimp only
  rw [if_pos ⟨h, rfl⟩]

theorem readLine_complete (h : newline ∉ line) (hfit : line.length + 1 < configLineSize) :
    cfg.readLine (line ++ [newline]) false = (settingOf (line, false)).bind cfg.apply := by
  unfold settingOf
  by_cases hnul : (0 : UInt8) ∈ line
  · rw [if_pos (.inr ⟨hnul, rfl⟩)]
    refine readLine_refused fun hmem => h ?_
    rw [List.takeWhile_append, if_neg] at hmem
    · exact List.takeWhile_subset _ hmem
    · intro hlen
      have hall := (List.takeWhile_prefix fun b : UInt8 => decide (b ≠ 0)).eq_of_length hlen
      have hzero := List.takeWhile_eq_self_iff.mp hall 0 hnul
      cases hzero
  · have htext : (line ++ [newline]).takeWhile (· ≠ 0) = line ++ [newline] :=
      takeWhile_uncut (by simpa [newline] using hnul)
    have hread : ¬ (configLineSize ≤ line.length + 1 ∨ 0 ∈ line ∧ false = false) := by
      rintro (hlong | ⟨hmem, -⟩)
      · exact absurd hlong (Nat.not_le.mpr hfit)
      · exact hnul hmem
    rw [if_neg hread, takeWhile_uncut hnul]
    unfold FileConfig.readLine
    dsimp only
    rw [htext, if_neg (by simp), List.getLast?_concat, if_pos rfl, List.dropLast_concat]
    rfl

theorem readLine_last (h : newline ∉ line) (hfit : line.length + 1 < configLineSize) :
    cfg.readLine line true = (settingOf (line, true)).bind cfg.apply := by
  have hchomp : (line.takeWhile (· ≠ 0)).getLast? ≠ some newline := fun hlast =>
    h (List.takeWhile_subset _ (List.mem_of_getLast? hlast))
  have hread : ¬ (configLineSize ≤ line.length + 1 ∨ 0 ∈ line ∧ true = false) := by
    rintro (hlong | ⟨-, hend⟩)
    · exact absurd hlong (Nat.not_le.mpr hfit)
    · cases hend
  unfold settingOf FileConfig.readLine
  dsimp only
  rw [if_neg (by simp), if_neg hchomp, if_neg hread]
  rfl

theorem settingOf_long (hlong : configLineSize ≤ line.length + 1) (last : Bool) :
    (settingOf (line, last)).bind cfg.apply = .error .invalidArg := by
  unfold settingOf
  rw [if_pos (.inl hlong)]
  rfl

/-- A list without a separator, or cut at the first one. -/
theorem cut_cases (file : List UInt8) : newline ∉ file ∨
    ∃ line rest, newline ∉ line ∧ file = line ++ newline :: rest := by
  by_cases h : newline ∈ file
  · obtain ⟨line, rest, rfl, hline⟩ := List.eq_append_cons_of_mem h
    exact .inr ⟨line, rest, hline, rfl⟩
  · exact .inl h

theorem applyLines_blank : applyLines [([], true)] cfg = (.ok (), cfg) := rfl

/-- A line that is too long ends the loop. -/
theorem parseConfigLoop_long (fuel : ℕ) (cfg : FileConfig) (h : newline ∉ line)
    (hlong : configLineSize ≤ line.length + 1) (rest : List UInt8) (last : Bool)
    (ls : List (List UInt8 × Bool)) :
    parseConfigLoop (fuel + 1) (line ++ rest) cfg = applyLines ((line, last) :: ls) cfg := by
  obtain ⟨rest', hgets⟩ := fgets_long h hlong rest
  have hrefused : newline ∉ (line.take (configLineSize - 1)).takeWhile (· ≠ 0) := fun hmem =>
    h (List.mem_of_mem_take (List.takeWhile_subset _ hmem))
  unfold parseConfigLoop applyLines
  rw [hgets]
  dsimp only
  rw [readLine_refused hrefused, settingOf_long hlong]

/-- The loop reads the file line by line. -/
theorem parseConfigLoop_eq {fuel : ℕ} (hfuel : file.length ≤ fuel) :
    parseConfigLoop fuel file cfg = applyLines (configLines file) cfg := by
  induction fuel generalizing file cfg with
  | zero =>
    obtain rfl := List.eq_nil_of_length_eq_zero (Nat.le_zero.mp hfuel)
    rfl
  | succ fuel ih =>
    rcases cut_cases file with hfile | ⟨line, rest, hline, rfl⟩
    · rw [configLines_last hfile]
      by_cases hne : file = []
      · subst hne
        rfl
      by_cases hfit : file.length + 1 < configLineSize
      · unfold parseConfigLoop applyLines
        rw [fgets_last hne hfile hfit]
        dsimp only
        rw [readLine_last hfile hfit]
        split
        · rfl
        · rw [ih (Nat.zero_le _), configLines_last (List.not_mem_nil), applyLines_blank]
          rfl
      · have hlong := parseConfigLoop_long fuel cfg hfile (Nat.not_lt.mp hfit) [] true []
        rw [List.append_nil] at hlong
        exact hlong
    · rw [configLines_cons hline]
      by_cases hfit : line.length + 1 < configLineSize
      · unfold parseConfigLoop applyLines
        rw [fgets_cons hline hfit]
        dsimp only
        rw [readLine_complete hline hfit]
        have hrest : rest.length ≤ fuel := by
          rw [List.length_append, List.length_cons] at hfuel
          omega
        split
        · rfl
        · exact ih hrest
      · exact parseConfigLoop_long fuel cfg hline (Nat.not_lt.mp hfit) _ false _

/-- A configuration file is accepted where all its lines are, and otherwise the lines before the
first one that is refused stay in force. Every field has the value that the last line with its key
gives it, and the devices are those of all lines, up to the size of the table. -/
theorem ummParseConfig_exact (file : List UInt8) :
    ((ummParseConfig (some file)).1 =
      if (configLines file).all lineTaken then .ok () else .error .invalidArg) ∧
    let cfg := (ummParseConfig (some file)).2
    let read := (configLines file).takeWhile lineTaken
    (∀ field, cfg.text field =
      (read.filterMap (textOf field)).getLast?.getD (FileConfig.initial.text field)) ∧
    (∀ field, cfg.number field =
      (read.filterMap (numberOf field)).getLast?.getD (FileConfig.initial.number field)) ∧
    cfg.ssdDevices = (read.flatMap devicesOf).take maxSsdDevices := by
  have hparse : ummParseConfig (some file) = applyLines (configLines file) .initial :=
    parseConfigLoop_eq le_rfl
  have hroom : FileConfig.initial.ssdDevices.length ≤ maxSsdDevices := Nat.zero_le _
  obtain ⟨hstatus, hread⟩ := applyLines_read (configLines file) hroom
  rw [hparse]
  exact ⟨hstatus, hread.text, hread.number, hread.devices⟩

end Lines

/-- The last of two sizes counts; a comment and an unknown key do not. -/
example : (ummParseConfig (some (asciiBytes
    "memory_size: 0x10\n# memory_size: 1\nsize: 2\nmemory_size : 7"))).2.number .memorySize = 7 := by
  decide +kernel

end Umm
