import VrxServer.Base.Loops
import Mathlib.Data.Rat.Floor
import Mathlib.Algebra.Order.Field.Basic

/-! The configuration and its loader.

A parsed document is a tree of null, scalar, sequence and map nodes. What yaml-cpp makes
of a scalar's text is a parameter, `YamlLib`: the loader only relies on each conversion
giving a value or throwing. Rates and frequencies are exact rationals. -/
namespace VrxServer.Config
open Base

/-! ### Numbers -/

/-- The value with its fraction dropped, as casts and `fmod` do. -/
def trunc {K : Type} [Ring K] [LinearOrder K] [FloorRing K] (x : K) : ℤ := if 0 ≤ x then ⌊x⌋ else ⌈x⌉

/-- `static_cast<int>`, where it is defined. -/
def castInt {K : Type} [Ring K] [LinearOrder K] [FloorRing K] (x : K) : Option ℤ :=
  if -2147483648 ≤ trunc x ∧ trunc x ≤ 2147483647 then some (trunc x) else none

theorem castInt_eq_some {K : Type} [Ring K] [LinearOrder K] [FloorRing K] {x : K} {n : ℤ} :
    castInt x = some n ↔ trunc x = n ∧ -2147483648 ≤ n ∧ n ≤ 2147483647 := by
  unfold castInt
  split
  · next h =>
    rw [Option.some.injEq]
    exact ⟨fun hn => ⟨hn, hn ▸ h⟩, And.left⟩
  · next h =>
    refine iff_of_false (by simp) ?_
    intro hp
    obtain ⟨rfl, hn⟩ := hp
    exact h hn

/-- `std::fmod`: not a number for a zero divisor. -/
def fmod {K : Type} [Field K] [LinearOrder K] [FloorRing K] (x y : K) : Option K :=
  if y = 0 then none else some (x - y * trunc (x / y))

/-! ### The configuration -/

structure SdrplayConfig where
  serialNumber : Option String
  gainReductionDb : ℤ
  lnaState : ℤ
  agc : Bool
  agcSetPointDbfs : ℤ
  ppm : ℚ
  biasT : Bool
  antenna : Option ℤ
  deriving DecidableEq

/-- The configuration with nothing set. -/
def SdrplayConfig.default : SdrplayConfig where
  serialNumber := none
  gainReductionDb := 50
  lnaState := 0
  agc := false
  agcSetPointDbfs := -30
  ppm := 0
  biasT := false
  antenna := none

inductive ConnectionMode where
  | api
  | sdrConnect
  deriving DecidableEq

structure SdrConnectConfig where
  host : String
  port : UInt16
  serialNumber : Option String
  networkMode : String
  antenna : Option String
  deriving DecidableEq

def SdrConnectConfig.default : SdrConnectConfig where
  host := "127.0.0.1"
  port := 5454
  serialNumber := none
  networkMode := "Full IQ"
  antenna := none

structure VirtualReceiverConfig (K : Type) where
  name : String
  tcpPort : UInt16
  /-- 0 where the receiver has no SpyServer endpoint. -/
  spyserverPort : UInt16
  centerFrequencyHz : K
  sampleRateHz : K

structure AppConfig where
  connection : ConnectionMode
  centerFrequencyHz : ℚ
  sampleRateHz : ℚ
  sdrplay : SdrplayConfig
  sdrconnect : Option SdrConnectConfig
  virtualReceivers : List (VirtualReceiverConfig ℚ)

/-! ### Documents -/

inductive Yaml where
  | null
  | scalar (text : String)
  | seq (items : List Yaml)
  | map (entries : List (Yaml × Yaml))

/-- What the loader throws: its own `std::runtime_error`, or an exception of yaml-cpp's. -/
inductive LoadError where
  | runtime (what : String)
  | yaml
  deriving DecidableEq

/-- yaml-cpp's conversions of a scalar's text, and `std::to_string`. `nullAsString` is what
`as<std::string>` makes of a null node, which depends on the version. -/
structure YamlLib where
  toDouble : String → Option ℚ
  toInt : String → Option ℤ
  toUint16 : String → Option UInt16
  toBool : String → Option Bool
  nullAsString : Option String
  toString : ℚ → String

/-- `node[key]`: a defined node, an undefined one, or `BadSubscript` on a scalar. -/
def Yaml.get (node : Yaml) (key : String) : Except LoadError (Option Yaml) :=
  match node with
  | .map entries =>
    .ok ((entries.find? fun e => match e.1 with | .scalar text => text == key | _ => false).map Prod.snd)
  | .scalar _ => .error .yaml
  | .null | .seq _ => .ok none

/-- A conversion of a node that is read through its scalar's text. -/
def Yaml.asScalar {T : Type} (convert : String → Option T) : Yaml → Except LoadError T
  | .scalar text =>
    match convert text with
    | some v => .ok v
    | none => .error .yaml
  | _ => .error .yaml

def Yaml.asString (lib : YamlLib) : Yaml → Except LoadError String
  | .scalar text => .ok text
  | .null =>
    match lib.nullAsString with
    | some text => .ok text
    | none => .error .yaml
  | _ => .error .yaml

/-! ### The loader -/

variable (lib : YamlLib)

def requireField {T : Type} (as : Yaml → Except LoadError T) (node : Yaml) (key context : String) :
    Except LoadError T := do
  match ← node.get key with
  | none => .error (.runtime (context ++ ": missing required field \"" ++ key ++ "\""))
  | some field => as field

/-- `if (node[key]) target = node[key].as<T>()`: the default where the field is undefined. -/
def optionalField {T : Type} (as : Yaml → Except LoadError T) (node : Yaml) (key : String) (default : T) :
    Except LoadError T := do
  match ← node.get key with
  | none => .ok default
  | some field => as field

def parseSdrplayConfig (node : Yaml) : Except LoadError SdrplayConfig := do
  let cfg := SdrplayConfig.default
  let asInt := Yaml.asScalar lib.toInt
  let serialNumber ← optionalField (fun n => some <$> n.asString lib) node "serial_number" cfg.serialNumber
  let gainReductionDb ← optionalField asInt node "gain_reduction_db" cfg.gainReductionDb
  let lnaState ← optionalField asInt node "lna_state" cfg.lnaState
  let agc ← optionalField (Yaml.asScalar lib.toBool) node "agc" cfg.agc
  let agcSetPointDbfs ← optionalField asInt node "agc_set_point_dbfs" cfg.agcSetPointDbfs
  let ppm ← optionalField (Yaml.asScalar lib.toDouble) node "ppm" cfg.ppm
  let biasT ← optionalField (Yaml.asScalar lib.toBool) node "bias_t" cfg.biasT
  let antenna ← optionalField (fun n => some <$> asInt n) node "antenna" cfg.antenna
  return ⟨serialNumber, gainReductionDb, lnaState, agc, agcSetPointDbfs, ppm, biasT, antenna⟩

/-- The `sdrconnect` section, `none` where the document has none. -/
def parseSdrConnectConfig (node : Option Yaml) : Except LoadError SdrConnectConfig := do
  match node with
  | none =>
    .error (.runtime "config: missing required \"sdrconnect\" section (connection: sdrconnect)")
  | some node =>
    let cfg := SdrConnectConfig.default
    let host ← optionalField (Yaml.asString lib) node "host" cfg.host
    let port ← optionalField (Yaml.asScalar lib.toUint16) node "port" cfg.port
    let serialNumber ← optionalField (fun n => some <$> n.asString lib) node "serial_number" cfg.serialNumber
    let networkMode ← optionalField (Yaml.asString lib) node "network_mode" cfg.networkMode
    let antenna ← optionalField (fun n => some <$> n.asString lib) node "antenna" cfg.antenna
    if networkMode ≠ "Full IQ" ∧ networkMode ≠ "IQ Lite" ∧ networkMode ≠ "Compact" then
      .error (.runtime ("config: sdrconnect.network_mode must be one of \"Full IQ\", \"IQ Lite\", " ++
        "\"Compact\", got \"" ++ networkMode ++ "\""))
    else return ⟨host, port, serialNumber, networkMode, antenna⟩

def parseVirtualReceiverConfig (node : Yaml) : Except LoadError (VirtualReceiverConfig ℚ) := do
  let name ← requireField (Yaml.asString lib) node "name" "virtual_receivers[]"
  let context := "virtual_receivers[]: \"" ++ name ++ "\""
  let tcpPort ← requireField (Yaml.asScalar lib.toUint16) node "tcp_port" context
  let spyserverPort ← optionalField (Yaml.asScalar lib.toUint16) node "spyserver_port" 0
  let centerFrequencyHz ← requireField (Yaml.asScalar lib.toDouble) node "center_frequency_hz" context
  let sampleRateHz ← requireField (Yaml.asScalar lib.toDouble) node "sample_rate_hz" context
  return ⟨name, tcpPort, spyserverPort, centerFrequencyHz, sampleRateHz⟩

/-- The `connection` field. -/
def parseConnection (root : Yaml) : Except LoadError ConnectionMode := do
  match ← root.get "connection" with
  | none => .ok .api
  | some node =>
    let mode ← node.asString lib
    if mode = "api" then .ok .api
    else if mode = "sdrconnect" then .ok .sdrConnect
    else
      .error (.runtime ("config: \"connection\" must be \"api\" or \"sdrconnect\", got \"" ++ mode ++ "\""))

/-- The `sdrplay` section: required for the local backend, read if present for the other. -/
def parseSdrplaySection (root : Yaml) (connection : ConnectionMode) : Except LoadError SdrplayConfig := do
  match connection, ← root.get "sdrplay" with
  | _, some node => parseSdrplayConfig lib node
  | .api, none => .error (.runtime "config: missing required \"sdrplay\" section (connection: api)")
  | .sdrConnect, none => .ok SdrplayConfig.default

/-- The `sdrconnect` section, read for the SDRconnect backend only. -/
def parseSdrConnectSection (root : Yaml) (connection : ConnectionMode) :
    Except LoadError (Option SdrConnectConfig) := do
  match connection with
  | .api => return none
  | .sdrConnect => return some (← parseSdrConnectConfig lib (← root.get "sdrconnect"))

/-- The `virtual_receivers` list. -/
def parseVirtualReceivers (root : Yaml) : Except LoadError (List (VirtualReceiverConfig ℚ)) := do
  match ← root.get "virtual_receivers" with
  | some (.seq (entry :: entries)) => (entry :: entries).mapM (parseVirtualReceiverConfig lib)
  | _ => .error (.runtime "config: missing/empty required \"virtual_receivers\" list")

/-- The loader's rate check: it wants `fmod` to be 0, and gets no number for a zero rate. -/
def checkRate (sampleRateHz : ℚ) (vrx : VirtualReceiverConfig ℚ) : Except LoadError Unit :=
  if sampleRateHz ≤ 0 ∨ fmod sampleRateHz vrx.sampleRateHz ≠ some 0 then
    .error (.runtime ("config: VRX \"" ++ vrx.name ++ "\": wideband sample rate " ++
      lib.toString sampleRateHz ++ " is not an integer multiple of requested VRX sample rate " ++
      lib.toString vrx.sampleRateHz ++ ". See dsp/decimator.hpp."))
  else .ok ()

/-- `loadConfig`, on what `YAML::LoadFile` returned for the path: a document, or its error's text. -/
def loadConfig (path : String) (file : Except String Yaml) : Except LoadError AppConfig := do
  match file with
  | .error what => .error (.runtime ("config: failed to parse \"" ++ path ++ "\": " ++ what))
  | .ok root =>
    let centerFrequencyHz ← requireField (Yaml.asScalar lib.toDouble) root "center_frequency_hz" "config"
    let sampleRateHz ← requireField (Yaml.asScalar lib.toDouble) root "sample_rate_hz" "config"
    let connection ← parseConnection lib root
    let sdrplay ← parseSdrplaySection lib root connection
    let sdrconnect ← parseSdrConnectSection lib root connection
    let virtualReceivers ← parseVirtualReceivers lib root
    virtualReceivers.forM (checkRate lib sampleRateHz)
    return ⟨connection, centerFrequencyHz, sampleRateHz, sdrplay, sdrconnect, virtualReceivers⟩

/-! ### What acceptance says -/

theorem checkRate_ok {sampleRateHz : ℚ} {vrx : VirtualReceiverConfig ℚ} :
    checkRate lib sampleRateHz vrx = .ok () ↔
      0 < sampleRateHz ∧ fmod sampleRateHz vrx.sampleRateHz = some 0 := by
  unfold checkRate
  split
  · next hcond =>
    refine iff_of_false (fun h => nomatch h) ?_
    intro hp
    obtain ⟨hpos, hmod⟩ := hp
    exact hcond.elim (not_le.mpr hpos) (fun h => h hmod)
  · next hcond =>
    push Not at hcond
    exact iff_of_true rfl hcond

/-- **An accepted configuration has passed the rate check at every receiver**, and has receivers. -/
theorem loadConfig_ok {path : String} {file : Except String Yaml} {cfg : AppConfig}
    (h : loadConfig lib path file = .ok cfg) :
    ∀ vrx ∈ cfg.virtualReceivers,
      0 < cfg.sampleRateHz ∧ fmod cfg.sampleRateHz vrx.sampleRateHz = some 0 := by
  cases file with
  | error what => cases h
  | ok root =>
    obtain ⟨centerFrequencyHz, -, h⟩ := bind_ok h
    obtain ⟨sampleRateHz, -, h⟩ := bind_ok h
    obtain ⟨connection, -, h⟩ := bind_ok h
    obtain ⟨sdrplay, -, h⟩ := bind_ok h
    obtain ⟨sdrconnect, -, h⟩ := bind_ok h
    obtain ⟨virtualReceivers, -, h⟩ := bind_ok h
    obtain ⟨u, hcheck, h⟩ := bind_ok h
    cases h
    exact fun vrx hvrx => (checkRate_ok lib).mp (forM_ok.mp hcheck vrx hvrx)

/-- A receiver list is only read when it has receivers. -/
theorem parseVirtualReceivers_ok {root : Yaml} {vrxs : List (VirtualReceiverConfig ℚ)}
    (h : parseVirtualReceivers lib root = .ok vrxs) : vrxs ≠ [] := by
  obtain ⟨node, -, h⟩ := bind_ok h
  split at h
  · next entry entries =>
    rw [List.mapM_cons] at h
    obtain ⟨vrx, -, h⟩ := bind_ok h
    obtain ⟨rest, -, h⟩ := bind_ok h
    cases h
    exact List.cons_ne_nil vrx rest
  · cases h

/-- An accepted configuration has a receiver, so its rate has been checked. -/
theorem loadConfig_rate_pos {path : String} {file : Except String Yaml} {cfg : AppConfig}
    (h : loadConfig lib path file = .ok cfg) : 0 < cfg.sampleRateHz := by
  have hreceivers : cfg.virtualReceivers ≠ [] := by
    cases file with
    | error what => cases h
    | ok root =>
      obtain ⟨centerFrequencyHz, -, h⟩ := bind_ok h
      obtain ⟨sampleRateHz, -, h⟩ := bind_ok h
      obtain ⟨connection, -, h⟩ := bind_ok h
      obtain ⟨sdrplay, -, h⟩ := bind_ok h
      obtain ⟨sdrconnect, -, h⟩ := bind_ok h
      obtain ⟨virtualReceivers, hparse, h⟩ := bind_ok h
      obtain ⟨u, -, h⟩ := bind_ok h
      cases h
      exact parseVirtualReceivers_ok lib hparse
  obtain ⟨vrx, hvrx⟩ := List.exists_mem_of_ne_nil _ hreceivers
  exact (loadConfig_ok lib h vrx hvrx).1

end VrxServer.Config
