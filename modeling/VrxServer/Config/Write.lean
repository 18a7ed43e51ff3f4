import VrxServer.Config.Accept

/-! Writing a configuration.

A configuration is what some document loads as exactly if it is valid (`Valid`): its numbers are
ones a text can spell or the defaults, its sections go with its connection, and it passes the
loader's checks. Each of these loads from a document of its own, in which only what is not a
default is written (`loads_iff`). -/
namespace VrxServer.Config
open Base

/-! ### Texts -/

/-- A value that some text spells. -/
def Readable {T : Type} (convert : String → Option T) (x : T) : Prop := ∃ text, convert text = some x

/-- A way to spell these values. -/
structure Speller {T : Type} (convert : String → Option T) where
  text : T → String
  reads : ∀ x, Readable convert x → convert (text x) = some x

/-- A way to spell each kind of value in a document. -/
structure Spelling (lib : YamlLib) where
  double : Speller lib.toDouble
  int : Speller lib.toInt
  uint16 : Speller lib.toUint16
  bool : Speller lib.toBool

/-- Some text is as good as any. -/
theorem speller_exists {T : Type} (convert : String → Option T) : Nonempty (Speller convert) := by
  classical
  refine ⟨⟨fun x => if h : Readable convert x then h.choose else "", fun x h => ?_⟩⟩
  rw [dif_pos h]
  exact h.choose_spec

theorem spelling_exists (lib : YamlLib) : Nonempty (Spelling lib) := by
  obtain ⟨double⟩ := speller_exists lib.toDouble
  obtain ⟨int⟩ := speller_exists lib.toInt
  obtain ⟨uint16⟩ := speller_exists lib.toUint16
  obtain ⟨bool⟩ := speller_exists lib.toBool
  exact ⟨⟨double, int, uint16, bool⟩⟩

/-! ### Fields -/

/-- A field, left out where it has no value. -/
abbrev OptField := String × Option Yaml

/-- A map of these fields. -/
def record (fields : List OptField) : Yaml :=
  .map (fields.filterMap fun f => f.2.map fun value => (.scalar f.1, value))

/-- Nothing is found under a key that no field has. -/
theorem get_record_none {fields : List OptField} {key : String} (hkey : key ∉ fields.map Prod.fst) :
    (record fields).get key = .ok none := by
  refine congrArg (Except.ok ∘ Option.map Prod.snd) (List.find?_eq_none.mpr ?_)
  intro entry hentry
  obtain ⟨⟨name, value⟩, hmem, hvalue⟩ := List.mem_filterMap.mp hentry
  obtain ⟨v, -, rfl⟩ := Option.map_eq_some_iff.mp hvalue
  have hname : name ≠ key := fun heq => hkey (heq ▸ List.mem_map_of_mem hmem)
  simpa using hname

/-- What is written under a key is found there. -/
theorem get_record {fields : List OptField} (hkeys : (fields.map Prod.fst).Nodup) {key : String} {value : Option Yaml}
    (hmem : (key, value) ∈ fields) : (record fields).get key = .ok value := by
  induction fields with
  | nil => cases hmem
  | cons f fields ih =>
    rw [List.map_cons, List.nodup_cons] at hkeys
    obtain ⟨hfresh, hkeys⟩ := hkeys
    rcases List.mem_cons.mp hmem with rfl | hrest
    · cases value with
      | none => exact (get_record_none hfresh : (record fields).get key = .ok none)
      | some v =>
        show Except.ok (Option.map Prod.snd (List.find? _ ((Yaml.scalar key, v) :: _))) = _
        rw [List.find?_cons_of_pos (by simp)]
        rfl
    · have hne : f.1 ≠ key := fun heq => hfresh (heq ▸ List.mem_map_of_mem hrest)
      obtain ⟨name, other⟩ := f
      rw [← ih hkeys hrest]
      cases other with
      | none => rfl
      | some v =>
        show Except.ok (Option.map Prod.snd (List.find? _ ((Yaml.scalar name, v) :: _))) = _
        rw [List.find?_cons_of_neg (by simpa using hne)]
        rfl

/-! ### Values -/

theorem asString_scalar (lib : YamlLib) (text : String) : Yaml.asString lib (.scalar text) = .ok text := rfl

variable {T : Type} {convert : String → Option T}

def Speller.node (s : Speller convert) (x : T) : Yaml := .scalar (s.text x)

theorem Speller.asScalar (s : Speller convert) {x : T} (h : Readable convert x) :
    Yaml.asScalar convert (s.node x) = .ok x := by
  rw [Speller.node, Yaml.asScalar, s.reads x h]

/-- Nothing where it is the default. -/
def Speller.unless [DecidableEq T] (s : Speller convert) (default x : T) : Option Yaml :=
  if x = default then none else some (s.node x)

section Fields
variable {fields : List OptField} (hkeys : (fields.map Prod.fst).Nodup) {key : String}
include hkeys

theorem requireField_record {as : Yaml → Except LoadError T} {node : Yaml} {x : T} (context : String)
    (hmem : (key, some node) ∈ fields) (hread : as node = .ok x) :
    requireField as (record fields) key context = .ok x := by
  rw [requireField, get_record hkeys hmem, ok_bind]
  exact hread

theorem optionalField_unless [DecidableEq T] (s : Speller convert) {default x : T}
    (hmem : (key, s.unless default x) ∈ fields) (h : x = default ∨ Readable convert x) :
    optionalField (Yaml.asScalar convert) (record fields) key default = .ok x := by
  rw [optionalField, get_record hkeys hmem, ok_bind, Speller.unless]
  by_cases hdefault : x = default
  · rw [if_pos hdefault, hdefault]
  · rw [if_neg hdefault]
    exact s.asScalar (h.resolve_left hdefault)

theorem optionalField_some {as : Yaml → Except LoadError T} {node : Yaml} {x : T} (default : T)
    (hmem : (key, some node) ∈ fields) (hread : as node = .ok x) :
    optionalField as (record fields) key default = .ok x := by
  rw [optionalField, get_record hkeys hmem, ok_bind]
  exact hread

theorem optionalField_option {as : Yaml → Except LoadError T} {write : T → Yaml} {default x : Option T}
    (hnone : default = none) (hmem : (key, x.map write) ∈ fields) (hread : ∀ v, x = some v → as (write v) = .ok v) :
    optionalField (fun n => some <$> as n) (record fields) key default = .ok x := by
  rw [optionalField, get_record hkeys hmem, ok_bind]
  cases x with
  | none => rw [hnone]; rfl
  | some v =>
    show some <$> as (write v) = _
    rw [hread v rfl]
    rfl

end Fields

theorem asScalar_readable {node : Yaml} {x : T} (h : Yaml.asScalar convert node = .ok x) : Readable convert x := by
  unfold Yaml.asScalar at h
  split at h
  · next text =>
    split at h
    · next v hv =>
      cases h
      exact ⟨text, hv⟩
    · cases h
  · cases h

theorem requireField_ok {as : Yaml → Except LoadError T} {node : Yaml} {key context : String} {x : T}
    (h : requireField as node key context = .ok x) : ∃ n, as n = .ok x := by
  obtain ⟨field, -, h⟩ := bind_ok h
  cases field with
  | none => cases h
  | some n => exact ⟨n, h⟩

theorem optionalField_ok {as : Yaml → Except LoadError T} {node : Yaml} {key : String} {default x : T}
    (h : optionalField as node key default = .ok x) : x = default ∨ ∃ n, as n = .ok x := by
  obtain ⟨field, -, h⟩ := bind_ok h
  cases field with
  | none =>
    cases h
    exact .inl rfl
  | some n => exact .inr ⟨n, h⟩

/-! ### What can be loaded -/

/-- The default, or a value that some text spells. -/
def Settable (convert : String → Option T) (default x : T) : Prop := x = default ∨ Readable convert x

theorem optionalField_settable {node : Yaml} {key : String} {default x : T}
    (h : optionalField (Yaml.asScalar convert) node key default = .ok x) : Settable convert default x :=
  (optionalField_ok h).imp_right fun hn => hn.elim fun _ => asScalar_readable

/-- The values that the loader can find in a document. -/
structure SdrplayConfig.Valid (lib : YamlLib) (cfg : SdrplayConfig) : Prop where
  gainReductionDb : Settable lib.toInt SdrplayConfig.default.gainReductionDb cfg.gainReductionDb
  lnaState : Settable lib.toInt SdrplayConfig.default.lnaState cfg.lnaState
  agc : Settable lib.toBool SdrplayConfig.default.agc cfg.agc
  agcSetPointDbfs : Settable lib.toInt SdrplayConfig.default.agcSetPointDbfs cfg.agcSetPointDbfs
  ppm : Settable lib.toDouble SdrplayConfig.default.ppm cfg.ppm
  biasT : Settable lib.toBool SdrplayConfig.default.biasT cfg.biasT
  antenna : ∀ antenna, cfg.antenna = some antenna → Readable lib.toInt antenna

structure SdrConnectConfig.Valid (lib : YamlLib) (cfg : SdrConnectConfig) : Prop where
  port : Settable lib.toUint16 SdrConnectConfig.default.port cfg.port
  networkMode : cfg.networkMode = "Full IQ" ∨ cfg.networkMode = "IQ Lite" ∨ cfg.networkMode = "Compact"

structure VirtualReceiverConfig.Valid (lib : YamlLib) (cfg : VirtualReceiverConfig ℚ) : Prop where
  tcpPort : Readable lib.toUint16 cfg.tcpPort
  spyserverPort : Settable lib.toUint16 0 cfg.spyserverPort
  centerFrequencyHz : Readable lib.toDouble cfg.centerFrequencyHz
  sampleRateHz : Readable lib.toDouble cfg.sampleRateHz

structure AppConfig.Valid (lib : YamlLib) (cfg : AppConfig) : Prop where
  centerFrequencyHz : Readable lib.toDouble cfg.centerFrequencyHz
  sampleRateHz : Readable lib.toDouble cfg.sampleRateHz
  sdrplay : cfg.sdrplay.Valid lib
  sdrconnect : ∀ connCfg, cfg.sdrconnect = some connCfg → connCfg.Valid lib
  connection : cfg.connection = .sdrConnect ↔ cfg.sdrconnect ≠ none
  receivers : cfg.virtualReceivers ≠ []
  receiver : ∀ vrx ∈ cfg.virtualReceivers, vrx.Valid lib
  rates : ∀ vrx ∈ cfg.virtualReceivers, 0 < cfg.sampleRateHz ∧ fmod cfg.sampleRateHz vrx.sampleRateHz = some 0

/-! ### Writing it -/

section Write
variable {lib : YamlLib} (w : Spelling lib)

def sdrplayFields (cfg : SdrplayConfig) : List OptField := [
  ("serial_number", cfg.serialNumber.map .scalar),
  ("gain_reduction_db", w.int.unless SdrplayConfig.default.gainReductionDb cfg.gainReductionDb),
  ("lna_state", w.int.unless SdrplayConfig.default.lnaState cfg.lnaState),
  ("agc", w.bool.unless SdrplayConfig.default.agc cfg.agc),
  ("agc_set_point_dbfs", w.int.unless SdrplayConfig.default.agcSetPointDbfs cfg.agcSetPointDbfs),
  ("ppm", w.double.unless SdrplayConfig.default.ppm cfg.ppm),
  ("bias_t", w.bool.unless SdrplayConfig.default.biasT cfg.biasT),
  ("antenna", cfg.antenna.map w.int.node)]

def sdrConnectFields (cfg : SdrConnectConfig) : List OptField := [
  ("host", some (.scalar cfg.host)),
  ("port", w.uint16.unless SdrConnectConfig.default.port cfg.port),
  ("serial_number", cfg.serialNumber.map .scalar),
  ("network_mode", some (.scalar cfg.networkMode)),
  ("antenna", cfg.antenna.map .scalar)]

def virtualReceiverFields (cfg : VirtualReceiverConfig ℚ) : List OptField := [
  ("name", some (.scalar cfg.name)),
  ("tcp_port", some (w.uint16.node cfg.tcpPort)),
  ("spyserver_port", w.uint16.unless 0 cfg.spyserverPort),
  ("center_frequency_hz", some (w.double.node cfg.centerFrequencyHz)),
  ("sample_rate_hz", some (w.double.node cfg.sampleRateHz))]

def writeConnection : ConnectionMode → Yaml
  | .api => .scalar "api"
  | .sdrConnect => .scalar "sdrconnect"

def configFields (cfg : AppConfig) : List OptField := [
  ("center_frequency_hz", some (w.double.node cfg.centerFrequencyHz)),
  ("sample_rate_hz", some (w.double.node cfg.sampleRateHz)),
  ("connection", some (writeConnection cfg.connection)),
  ("sdrplay", some (record (sdrplayFields w cfg.sdrplay))),
  ("sdrconnect", cfg.sdrconnect.map fun connCfg => record (sdrConnectFields w connCfg)),
  ("virtual_receivers", some (.seq (cfg.virtualReceivers.map fun vrx => record (virtualReceiverFields w vrx))))]

def writeConfig (cfg : AppConfig) : Yaml := record (configFields w cfg)

/-! ### Reading what is written -/

theorem parse_sdrplayFields {cfg : SdrplayConfig} (h : cfg.Valid lib) :
    parseSdrplayConfig lib (record (sdrplayFields w cfg)) = .ok cfg := by
  have hkeys : ((sdrplayFields w cfg).map Prod.fst).Nodup := by
    show ["serial_number", "gain_reduction_db", "lna_state", "agc", "agc_set_point_dbfs", "ppm", "bias_t",
      "antenna"].Nodup
    decide
  have hserial : SdrplayConfig.default.serialNumber = none := rfl
  have hnone : SdrplayConfig.default.antenna = none := rfl
  have hantenna : ∀ antenna, cfg.antenna = some antenna → Yaml.asScalar lib.toInt (w.int.node antenna) = .ok antenna :=
    fun antenna hsome => w.int.asScalar (h.antenna antenna hsome)
  have htext : ∀ text, cfg.serialNumber = some text → Yaml.asString lib (.scalar text) = .ok text :=
    fun text _ => asString_scalar lib text
  rw [parseSdrplayConfig]
  rw [optionalField_option (x := cfg.serialNumber) hkeys hserial (by simp [sdrplayFields]) htext, ok_bind,
    optionalField_unless hkeys w.int (by simp [sdrplayFields]) h.gainReductionDb, ok_bind,
    optionalField_unless hkeys w.int (by simp [sdrplayFields]) h.lnaState, ok_bind,
    optionalField_unless hkeys w.bool (by simp [sdrplayFields]) h.agc, ok_bind,
    optionalField_unless hkeys w.int (by simp [sdrplayFields]) h.agcSetPointDbfs, ok_bind,
    optionalField_unless hkeys w.double (by simp [sdrplayFields]) h.ppm, ok_bind,
    optionalField_unless hkeys w.bool (by simp [sdrplayFields]) h.biasT, ok_bind,
    optionalField_option hkeys hnone (by simp [sdrplayFields]) hantenna, ok_bind]
  rfl

theorem parse_sdrConnectFields {cfg : SdrConnectConfig} (h : cfg.Valid lib) :
    parseSdrConnectConfig lib (some (record (sdrConnectFields w cfg))) = .ok cfg := by
  have hkeys : ((sdrConnectFields w cfg).map Prod.fst).Nodup := by
    show ["host", "port", "serial_number", "network_mode", "antenna"].Nodup
    decide
  have hserial : SdrConnectConfig.default.serialNumber = none := rfl
  have hantenna : SdrConnectConfig.default.antenna = none := rfl
  have hmode : ¬ (cfg.networkMode ≠ "Full IQ" ∧ cfg.networkMode ≠ "IQ Lite" ∧ cfg.networkMode ≠ "Compact") := by
    rintro ⟨hfull, hlite, hcompact⟩
    exact h.networkMode.elim hfull fun hmode => hmode.elim hlite hcompact
  rw [parseSdrConnectConfig]
  rw [optionalField_some hkeys _ (by simp [sdrConnectFields]) (asString_scalar lib cfg.host), ok_bind,
    optionalField_unless hkeys w.uint16 (by simp [sdrConnectFields]) h.port, ok_bind,
    optionalField_option (x := cfg.serialNumber) hkeys hserial (by simp [sdrConnectFields])
      fun text _ => asString_scalar lib text, ok_bind,
    optionalField_some hkeys _ (by simp [sdrConnectFields]) (asString_scalar lib cfg.networkMode), ok_bind,
    optionalField_option (x := cfg.antenna) hkeys hantenna (by simp [sdrConnectFields])
      fun text _ => asString_scalar lib text, ok_bind, if_neg hmode]
  rfl

theorem parse_virtualReceiverFields {cfg : VirtualReceiverConfig ℚ} (h : cfg.Valid lib) :
    parseVirtualReceiverConfig lib (record (virtualReceiverFields w cfg)) = .ok cfg := by
  have hkeys : ((virtualReceiverFields w cfg).map Prod.fst).Nodup := by
    show ["name", "tcp_port", "spyserver_port", "center_frequency_hz", "sample_rate_hz"].Nodup
    decide
  rw [parseVirtualReceiverConfig]
  rw [requireField_record hkeys _ (by simp [virtualReceiverFields]) (asString_scalar lib cfg.name), ok_bind]
  dsimp only
  rw [requireField_record hkeys _ (by simp [virtualReceiverFields]) (w.uint16.asScalar h.tcpPort), ok_bind,
    optionalField_unless hkeys w.uint16 (by simp [virtualReceiverFields]) h.spyserverPort, ok_bind,
    requireField_record hkeys _ (by simp [virtualReceiverFields]) (w.double.asScalar h.centerFrequencyHz), ok_bind,
    requireField_record hkeys _ (by simp [virtualReceiverFields]) (w.double.asScalar h.sampleRateHz), ok_bind]
  rfl

section Sections
variable {fields : List OptField} (hkeys : (fields.map Prod.fst).Nodup)
include hkeys

theorem parseConnection_record {mode : ConnectionMode} (hmem : ("connection", some (writeConnection mode)) ∈ fields) :
    parseConnection lib (record fields) = .ok mode := by
  rw [parseConnection, get_record hkeys hmem, ok_bind]
  cases mode with
  | api => rfl
  | sdrConnect => rfl

theorem parseSdrplaySection_record {cfg : SdrplayConfig} (h : cfg.Valid lib)
    (hmem : ("sdrplay", some (record (sdrplayFields w cfg))) ∈ fields) (mode : ConnectionMode) :
    parseSdrplaySection lib (record fields) mode = .ok cfg := by
  rw [parseSdrplaySection, get_record hkeys hmem, ok_bind]
  cases mode with
  | api => exact parse_sdrplayFields w h
  | sdrConnect => exact parse_sdrplayFields w h

theorem parseSdrConnectSection_record {sdrconnect : Option SdrConnectConfig} {mode : ConnectionMode}
    (h : ∀ cfg, sdrconnect = some cfg → cfg.Valid lib) (hmode : mode = .sdrConnect ↔ sdrconnect ≠ none)
    (hmem : ("sdrconnect", sdrconnect.map fun cfg => record (sdrConnectFields w cfg)) ∈ fields) :
    parseSdrConnectSection lib (record fields) mode = .ok sdrconnect := by
  cases sdrconnect with
  | none =>
    cases mode with
    | api => rfl
    | sdrConnect => exact absurd rfl (hmode.mp rfl)
  | some cfg =>
    obtain rfl : mode = .sdrConnect := hmode.mpr (Option.some_ne_none cfg)
    show ((record fields).get "sdrconnect" >>= parseSdrConnectConfig lib) >>= _ = _
    rw [get_record hkeys hmem, ok_bind]
    show parseSdrConnectConfig lib (some (record (sdrConnectFields w cfg))) >>= _ = _
    rw [parse_sdrConnectFields w (h cfg rfl)]
    rfl

theorem parseVirtualReceivers_record {vrxs : List (VirtualReceiverConfig ℚ)} (hne : vrxs ≠ [])
    (h : ∀ vrx ∈ vrxs, vrx.Valid lib)
    (hmem : ("virtual_receivers", some (.seq (vrxs.map fun vrx => record (virtualReceiverFields w vrx)))) ∈ fields) :
    parseVirtualReceivers lib (record fields) = .ok vrxs := by
  rw [parseVirtualReceivers, get_record hkeys hmem, ok_bind]
  obtain ⟨vrx, rest, rfl⟩ := List.exists_cons_of_ne_nil hne
  exact mapM_map fun v hv => parse_virtualReceiverFields w (h v hv)

end Sections

theorem load_writeConfig {cfg : AppConfig} (h : cfg.Valid lib) (path : String) :
    loadConfig lib path (.ok (writeConfig w cfg)) = .ok cfg := by
  have hkeys : ((configFields w cfg).map Prod.fst).Nodup := by
    show ["center_frequency_hz", "sample_rate_hz", "connection", "sdrplay", "sdrconnect", "virtual_receivers"].Nodup
    decide
  have hrates : cfg.virtualReceivers.forM (checkRate lib cfg.sampleRateHz) = .ok () :=
    forM_ok.mpr fun vrx hvrx => (checkRate_ok lib).mpr (h.rates vrx hvrx)
  have hconnection : parseConnection lib (record (configFields w cfg)) = .ok cfg.connection :=
    parseConnection_record hkeys (by simp [configFields])
  rw [loadConfig, writeConfig]
  rw [requireField_record hkeys _ (by simp [configFields]) (w.double.asScalar h.centerFrequencyHz), ok_bind,
    requireField_record hkeys _ (by simp [configFields]) (w.double.asScalar h.sampleRateHz), ok_bind,
    hconnection, ok_bind,
    parseSdrplaySection_record w hkeys h.sdrplay (by simp [configFields]), ok_bind,
    parseSdrConnectSection_record w hkeys h.sdrconnect h.connection (by simp [configFields]), ok_bind,
    parseVirtualReceivers_record w hkeys h.receivers h.receiver (by simp [configFields]), ok_bind, hrates, ok_bind]
  rfl

end Write

/-! ### What is loaded is valid -/

theorem parseSdrplayConfig_valid {lib : YamlLib} {node : Yaml} {cfg : SdrplayConfig}
    (h : parseSdrplayConfig lib node = .ok cfg) : cfg.Valid lib := by
  obtain ⟨serialNumber, -, h⟩ := bind_ok h
  obtain ⟨gainReductionDb, hgain, h⟩ := bind_ok h
  obtain ⟨lnaState, hlna, h⟩ := bind_ok h
  obtain ⟨agc, hagc, h⟩ := bind_ok h
  obtain ⟨agcSetPointDbfs, hsetPoint, h⟩ := bind_ok h
  obtain ⟨ppm, hppm, h⟩ := bind_ok h
  obtain ⟨biasT, hbiasT, h⟩ := bind_ok h
  obtain ⟨antenna, hantenna, h⟩ := bind_ok h
  cases h
  refine ⟨optionalField_settable hgain, optionalField_settable hlna, optionalField_settable hagc,
    optionalField_settable hsetPoint, optionalField_settable hppm, optionalField_settable hbiasT, ?_⟩
  intro value hvalue
  rcases optionalField_ok hantenna with hnone | ⟨n, hn⟩
  · obtain rfl : antenna = some value := hvalue
    cases hnone
  · obtain rfl : antenna = some value := hvalue
    cases hscalar : Yaml.asScalar lib.toInt n with
    | error e =>
      rw [hscalar] at hn
      cases hn
    | ok v =>
      rw [hscalar] at hn
      cases hn
      exact asScalar_readable hscalar

theorem parseSdrConnectConfig_valid {lib : YamlLib} {node : Option Yaml} {cfg : SdrConnectConfig}
    (h : parseSdrConnectConfig lib node = .ok cfg) : cfg.Valid lib := by
  cases node with
  | none => cases h
  | some node =>
    obtain ⟨host, -, h⟩ := bind_ok h
    obtain ⟨port, hport, h⟩ := bind_ok h
    obtain ⟨serialNumber, -, h⟩ := bind_ok h
    obtain ⟨networkMode, -, h⟩ := bind_ok h
    obtain ⟨antenna, -, h⟩ := bind_ok h
    by_cases hmode : networkMode ≠ "Full IQ" ∧ networkMode ≠ "IQ Lite" ∧ networkMode ≠ "Compact"
    · rw [if_pos hmode] at h
      cases h
    · rw [if_neg hmode] at h
      cases h
      simp only [not_and_or, not_not] at hmode
      exact ⟨optionalField_settable hport, hmode⟩

theorem parseVirtualReceiverConfig_valid {lib : YamlLib} {node : Yaml} {cfg : VirtualReceiverConfig ℚ}
    (h : parseVirtualReceiverConfig lib node = .ok cfg) : cfg.Valid lib := by
  obtain ⟨name, -, h⟩ := bind_ok h
  obtain ⟨tcpPort, htcp, h⟩ := bind_ok h
  obtain ⟨spyserverPort, hspy, h⟩ := bind_ok h
  obtain ⟨centerFrequencyHz, hcenter, h⟩ := bind_ok h
  obtain ⟨sampleRateHz, hrate, h⟩ := bind_ok h
  cases h
  obtain ⟨tcpNode, htcp⟩ := requireField_ok htcp
  obtain ⟨centerNode, hcenter⟩ := requireField_ok hcenter
  obtain ⟨rateNode, hrate⟩ := requireField_ok hrate
  exact ⟨asScalar_readable htcp, optionalField_settable hspy, asScalar_readable hcenter, asScalar_readable hrate⟩

theorem sdrConnectSection_valid {lib : YamlLib} {root : Yaml} {mode : ConnectionMode} {sdrconnect : Option SdrConnectConfig}
    (h : parseSdrConnectSection lib root mode = .ok sdrconnect) :
    (∀ cfg, sdrconnect = some cfg → cfg.Valid lib) ∧ (mode = .sdrConnect ↔ sdrconnect ≠ none) := by
  cases mode with
  | api =>
    cases h
    exact ⟨nofun, iff_of_false nofun fun hne => hne rfl⟩
  | sdrConnect =>
    obtain ⟨node, -, h⟩ := bind_ok h
    obtain ⟨cfg, hparsed, h⟩ := bind_ok h
    cases h
    refine ⟨?_, iff_of_true rfl (Option.some_ne_none cfg)⟩
    intro parsed hsome
    obtain rfl := Option.some.inj hsome
    exact parseSdrConnectConfig_valid hparsed

theorem loadConfig_valid {lib : YamlLib} {path : String} {file : Except String Yaml} {cfg : AppConfig}
    (h : loadConfig lib path file = .ok cfg) : cfg.Valid lib := by
  have hrates := loadConfig_ok lib h
  cases file with
  | error what => cases h
  | ok root =>
    obtain ⟨centerFrequencyHz, hcenter, h⟩ := bind_ok h
    obtain ⟨sampleRateHz, hrate, h⟩ := bind_ok h
    obtain ⟨connection, -, h⟩ := bind_ok h
    obtain ⟨sdrplay, hsdrplay, h⟩ := bind_ok h
    obtain ⟨sdrconnect, hsdrconnect, h⟩ := bind_ok h
    obtain ⟨virtualReceivers, hreceivers, h⟩ := bind_ok h
    obtain ⟨u, -, h⟩ := bind_ok h
    cases h
    obtain ⟨centerNode, hcenter⟩ := requireField_ok hcenter
    obtain ⟨rateNode, hrate⟩ := requireField_ok hrate
    refine ⟨asScalar_readable hcenter, asScalar_readable hrate, ?_, ?_, ?_, parseVirtualReceivers_ok lib hreceivers, ?_,
      hrates⟩
    · obtain ⟨found, -, hsdrplay⟩ := bind_ok hsdrplay
      cases found with
      | some node => exact parseSdrplayConfig_valid (by cases connection <;> exact hsdrplay)
      | none =>
        cases connection with
        | api => cases hsdrplay
        | sdrConnect =>
          cases hsdrplay
          exact ⟨.inl rfl, .inl rfl, .inl rfl, .inl rfl, .inl rfl, .inl rfl, nofun⟩
    · exact (sdrConnectSection_valid hsdrconnect).1
    · exact (sdrConnectSection_valid hsdrconnect).2
    · obtain ⟨found, -, hreceivers⟩ := bind_ok hreceivers
      split at hreceivers
      · intro vrx hvrx
        obtain ⟨n, hn⟩ := mapM_ok hreceivers vrx hvrx
        exact parseVirtualReceiverConfig_valid hn
      · cases hreceivers

/-- **A configuration is valid exactly if something loads as it**, and then it is written so that it
loads again, whatever way there is to spell its values. -/
theorem loads_iff (lib : YamlLib) (w : Spelling lib) (cfg : AppConfig) :
    ((∃ path file, loadConfig lib path file = .ok cfg) ↔ cfg.Valid lib) ∧
      ∀ path file, loadConfig lib path file = .ok cfg → ∀ path', loadConfig lib path' (.ok (writeConfig w cfg)) = .ok cfg := by
  refine ⟨⟨?_, fun h => ⟨"", _, load_writeConfig w h ""⟩⟩, ?_⟩
  · rintro ⟨path, file, h⟩
    exact loadConfig_valid h
  · intro path file h path'
    exact load_writeConfig w (loadConfig_valid h) path'

/-- The texts of the sample documents. -/
def sampleSpelling : Spelling sampleLib where
  double := {
    text x := if x = 100000000 then "100000000" else if x = 90000000 then "90000000"
      else if x = 2000000 then "2000000" else "250000"
    reads := by
      rintro x ⟨text, h⟩
      simp only [sampleLib] at h ⊢
      split at h <;> cases h <;> rfl }
  int := ⟨fun _ => "", fun _ ⟨_, h⟩ => nomatch h⟩
  uint16 := {
    text _ := "1234"
    reads := by
      rintro x ⟨text, h⟩
      simp only [sampleLib] at h ⊢
      split at h <;> cases h
      rfl }
  bool := ⟨fun _ => "", fun _ ⟨_, h⟩ => nomatch h⟩

/-- The sample document as it is written back. -/
theorem loads_iff_sample : (sampleConfig 100000000).Valid sampleLib ∧
    loadConfig sampleLib "copy.yaml" (.ok (.map [
      (.scalar "center_frequency_hz", .scalar "100000000"),
      (.scalar "sample_rate_hz", .scalar "2000000"),
      (.scalar "connection", .scalar "api"),
      (.scalar "sdrplay", .map []),
      (.scalar "virtual_receivers", .seq [.map [
        (.scalar "name", .scalar "vrx"),
        (.scalar "tcp_port", .scalar "1234"),
        (.scalar "center_frequency_hz", .scalar "100000000"),
        (.scalar "sample_rate_hz", .scalar "250000")]])])) = .ok (sampleConfig 100000000) := by
  obtain ⟨hvalid, hwritten⟩ := loads_iff sampleLib sampleSpelling (sampleConfig 100000000)
  exact ⟨hvalid.mp ⟨_, _, loadConfig_sample_inside⟩, hwritten _ _ loadConfig_sample_inside "copy.yaml"⟩

end VrxServer.Config
