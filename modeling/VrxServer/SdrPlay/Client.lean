import VrxServer.Base.Ends
import VrxServer.Config.Load
import Mathlib.Algebra.Order.Floor.Semifield
import Mathlib.Tactic.Linarith
import Mathlib.Tactic.Positivity
/-! The local backend: a session with the vendor's device API.

The vendor library is not part of the repository. What its calls return is a parameter,
`Vendor`, and every call made is logged, so that what a session has acquired and not given
back is a function of the log. A method is an `Api` computation: it changes the client and
the log, and it can stop in the middle, by an exception or for good. -/
namespace VrxServer.SdrPlay
open Base Config

/-! ### What the vendor's header declares -/

/-- `sdrplay_api_DeviceT`, in the fields the client touches. -/
structure Device where
  serNo : String
  hwVer : UInt8
  rspDuoMode : ℤ
  tuner : ℤ
  /-- The handle, `none` where it is null. -/
  dev : Option ℕ
  deriving DecidableEq

/-- `sdrplay_api_DevParamsT`. -/
structure DevParams where
  ppm : ℚ
  fsHz : ℚ
  rspDxBiasTEnable : ℤ
  rspDxAntennaSel : ℤ
  deriving DecidableEq

/-- `sdrplay_api_RxChannelParamsT`. -/
structure RxChannelParams where
  bwType : ℤ
  ifType : ℤ
  loMode : ℤ
  rfHz : ℚ
  gRdB : ℤ
  lnaState : ℤ
  minGr : ℤ
  dcEnable : ℤ
  iqEnable : ℤ
  decimationEnable : ℤ
  decimationFactor : ℤ
  wideBandSignal : ℤ
  agcEnable : ℤ
  setPointDbfs : ℤ
  rsp1aBiasTEnable : ℤ
  rsp2BiasTEnable : ℤ
  rsp2AntennaSel : ℤ
  rspDuoBiasTEnable : ℤ
  deriving DecidableEq

/-- `sdrplay_api_DeviceParamsT`: the block the driver hands out. -/
structure DeviceParams where
  devParams : DevParams
  rxChannelA : RxChannelParams
  deriving DecidableEq

/-- What the vendor's calls do in one `connect` or `close`. -/
structure Vendor where
  apiOpen : ℤ
  lockDeviceApi : ℤ
  getDevices : ℤ × List Device
  /-- The call may write the device it is given. -/
  selectDevice : Device → ℤ × Device
  unlockDeviceApi : ℤ
  /-- The block, `none` where the pointer is left null. -/
  getDeviceParams : ℤ × Option DeviceParams
  init : ℤ
  uninit : ℤ
  releaseDevice : ℤ
  getErrorString : ℤ → String
  /-- The conversions to the header's field types. -/
  castLnaState : ℤ → ℤ
  castDecimationFactor : ℤ → ℤ
  castAntennaSel : ℤ → ℤ

/-- A call that was made, and what it returned. -/
inductive Call where
  | apiOpen (err : ℤ)
  | lockDeviceApi (err : ℤ)
  | getDevices (err : ℤ)
  | selectDevice (err : ℤ)
  | unlockDeviceApi (err : ℤ)
  | getDeviceParams (err : ℤ)
  | init (err : ℤ)
  | uninit (err : ℤ)
  | releaseDevice (err : ℤ)
  | apiClose
  deriving DecidableEq

/-! ### The client -/

structure Client where
  cfg : SdrplayConfig
  centerFrequencyHz : ℚ
  sampleRateHz : ℚ
  opened : Bool
  deviceSelected : Bool
  initialized : Bool
  device : Device
  deviceParams : Option DeviceParams
  deriving DecidableEq

def Client.construct (cfg : SdrplayConfig) (centerFrequencyHz sampleRateHz : ℚ) : Client where
  cfg := cfg
  centerFrequencyHz := centerFrequencyHz
  sampleRateHz := sampleRateHz
  opened := false
  deviceSelected := false
  initialized := false
  device := ⟨"", 0, 0, 0, none⟩
  deviceParams := none

/-- A client, and the calls this process has made. -/
structure Session where
  client : Client
  calls : List Call
  deriving DecidableEq

/-- Why a method does not return. -/
inductive Stop where
  | threw (what : String)
  /-- A loop without end. -/
  | hung
  /-- A null pointer followed. -/
  | crashed
  deriving DecidableEq

abbrev Api (T : Type) := EStateM Stop Session T

namespace Api

def log (call : Call) : Api Unit := modify fun s => {s with calls := s.calls ++ [call]}

def update (f : Client → Client) : Api Unit := modify fun s => {s with client := f s.client}

/-- `catch (...)`: only an exception is caught, and what was done before it stays done. -/
def catchThrow (body : Api Unit) (handler : String → Api Unit) : Api Unit := fun s =>
  match body s with
  | .error (.threw what) t => handler what t
  | r => r

section
variable {s : Session} {Q : Unit → Session → Prop} {X : Stop → Session → Prop}

@[simp] theorem ends_log {call : Call} :
    Ends (log call) s Q X ↔ Q () {s with calls := s.calls ++ [call]} := Iff.rfl

@[simp] theorem ends_update {f : Client → Client} :
    Ends (update f) s Q X ↔ Q () {s with client := f s.client} := Iff.rfl

/-- The handler starts where the body threw. -/
theorem ends_catchThrow {body : Api Unit} {handler : String → Api Unit} {Y : Stop → Session → Prop}
    (hbody : Ends body s Q Y) (hthrew : ∀ what t, Y (.threw what) t → Ends (handler what) t Q X)
    (hhung : ∀ t, Y .hung t → X .hung t) (hcrashed : ∀ t, Y .crashed t → X .crashed t) :
    Ends (catchThrow body handler) s Q X := by
  unfold Ends at hbody ⊢
  unfold catchThrow
  cases hs : body s with
  | ok a t => rw [hs] at hbody; exact hbody
  | error e t =>
    rw [hs] at hbody
    cases e with
    | threw what => exact hthrew what t hbody
    | hung => exact hhung t hbody
    | crashed => exact hcrashed t hbody

end

end Api

variable (V : Vendor)

def checkOrThrow (err : ℤ) (what : String) : Api Unit :=
  if err ≠ 0 then
    throw (.threw ("sdrplay_api_" ++ what ++ " failed: " ++ V.getErrorString err ++ " (" ++ toString err ++ ")"))
  else pure ()

@[simp] theorem ends_checkOrThrow {err : ℤ} {what : String} {s : Session} {Q : Unit → Session → Prop}
    {X : Stop → Session → Prop} :
    Ends (checkOrThrow V err what) s Q X ↔
      (err = 0 → Q () s) ∧ (err ≠ 0 → X (.threw ("sdrplay_api_" ++ what ++ " failed: " ++
        V.getErrorString err ++ " (" ++ toString err ++ ")")) s) := by
  simp only [checkOrThrow, ends_ite, ends_throw, ends_pure, not_not, ne_eq]
  exact and_comm

/-! ### The parameter block -/

def bwTypeForSampleRate (sr : ℚ) : ℤ :=
  if sr < 300000 then 200
  else if sr < 600000 then 300
  else if sr < 1536000 then 600
  else if sr < 5000000 then 5000
  else if sr < 6000000 then 6000
  else if sr < 7000000 then 7000
  else if sr < 8000000 then 8000
  else 8000

structure DecimationResult where
  adcSampleRateHz : ℚ
  decimationFactor : ℤ
  deriving DecidableEq

/-- The doubling loop from an ADC rate above zero. -/
def decimationLoop (adcSampleRateHz : ℚ) (decimationFactor : ℤ) (h : 0 < adcSampleRateHz) : DecimationResult :=
  if hlt : adcSampleRateHz < 2000000 then
    decimationLoop (adcSampleRateHz * 2) (decimationFactor * 2) (by positivity)
  else ⟨adcSampleRateHz, decimationFactor⟩
termination_by ⌊2000000 / adcSampleRateHz⌋₊
decreasing_by
  have hge : (1 : ℚ) ≤ 2000000 / adcSampleRateHz := (one_le_div₀ h).mpr hlt.le
  have hhalf : 2000000 / (adcSampleRateHz * 2) = 2000000 / adcSampleRateHz / 2 := (div_div _ _ _).symm
  rw [hhalf, Nat.floor_div_ofNat]
  exact Nat.div_lt_self (Nat.floor_pos.mpr hge) (by omega)

/-- `none` where the loop has no end: no doubling of a rate that is not positive reaches the floor. -/
def decimationForSampleRate (sr : ℚ) : Option DecimationResult :=
  if h : 0 < sr then some (decimationLoop sr 1 h) else none

/-- `applyBiasTField`, for a device of this model. -/
def applyBiasTField (hwVer : UInt8) (rx : RxChannelParams) : RxChannelParams :=
  match hwVer with
  | 255 | 6 => {rx with rsp1aBiasTEnable := 1}
  | 2 => {rx with rsp2BiasTEnable := 1}
  | 3 => {rx with rspDuoBiasTEnable := 1}
  | _ => rx

def applyAntennaField (hwVer : UInt8) (antenna : ℤ) (p : DeviceParams) : DeviceParams :=
  match hwVer with
  | 2 => {p with rxChannelA := {p.rxChannelA with rsp2AntennaSel := V.castAntennaSel antenna}}
  | 4 | 7 => {p with devParams := {p.devParams with rspDxAntennaSel := V.castAntennaSel antenna}}
  | _ => p

/-- What `configureInitialParams` writes into the block, the decimation decided. -/
def initialParams (c : Client) (dec : DecimationResult) (p : DeviceParams) : DeviceParams :=
  let devParams := {p.devParams with
    ppm := c.cfg.ppm
    fsHz := dec.adcSampleRateHz}
  let rx := {p.rxChannelA with
    bwType := bwTypeForSampleRate c.sampleRateHz
    ifType := 0
    loMode := 1
    rfHz := c.centerFrequencyHz
    gRdB := c.cfg.gainReductionDb
    lnaState := V.castLnaState c.cfg.lnaState
    minGr := 20
    dcEnable := 1
    iqEnable := 1
    decimationEnable := if dec.decimationFactor > 1 then 1 else 0
    decimationFactor := V.castDecimationFactor dec.decimationFactor
    wideBandSignal := 1
    agcEnable := if c.cfg.agc then 4 else 0
    setPointDbfs := c.cfg.agcSetPointDbfs}
  let rx := if c.cfg.biasT then applyBiasTField c.device.hwVer rx else rx
  match c.cfg.antenna with
  | some antenna => applyAntennaField V c.device.hwVer antenna ⟨devParams, rx⟩
  | none => ⟨devParams, rx⟩

def configureInitialParams : Api Unit := do
  let c := (← get).client
  match decimationForSampleRate c.sampleRateHz with
  | none => throw .hung
  | some dec =>
    match c.deviceParams with
    | none => throw .crashed
    | some p => Api.update fun c => {c with deviceParams := some (initialParams V c dec p)}

/-! ### Connecting and closing -/

/-- The device to use: the first, or the first with the configured serial number. -/
def selectedDevice (serialNumber : Option String) (devices : List Device) : Option Device :=
  match serialNumber with
  | none => devices.head?
  | some serial => devices.find? fun d => d.serNo == serial

/-- The enumeration and its errors. -/
def pickDevice (serialNumber : Option String) (devices : List Device) : Except String Device :=
  if devices = [] then .error "no RSP devices found"
  else
    match selectedDevice serialNumber devices with
    | some device => .ok device
    | none =>
      .error ("RSP with serial \"" ++ serialNumber.getD "" ++ "\" not found. Available: " ++
        ", ".intercalate (devices.map Device.serNo))

/-- An RSPduo is forced into single-tuner mode. -/
def singleTuner (device : Device) : Device :=
  if device.hwVer = 3 then {device with rspDuoMode := 1, tuner := 1} else device

/-- `connect` from the lock to the selected device. -/
def acquireDevice : Api Unit := do
  Api.log (.lockDeviceApi V.lockDeviceApi)
  checkOrThrow V V.lockDeviceApi "LockDeviceApi"
  Api.log (.getDevices V.getDevices.1)
  checkOrThrow V V.getDevices.1 "GetDevices"
  match pickDevice (← get).client.cfg.serialNumber V.getDevices.2 with
  | .error what => throw (.threw what)
  | .ok device =>
    let (err, device) := V.selectDevice (singleTuner device)
    Api.update fun c => {c with device := device}
    Api.log (.selectDevice err)
    checkOrThrow V err "SelectDevice"
    Api.update fun c => {c with deviceSelected := true}

/-- `connect` from the unlock to the running stream. -/
def startStream : Api Unit := do
  Api.log (.unlockDeviceApi V.unlockDeviceApi)
  checkOrThrow V V.unlockDeviceApi "UnlockDeviceApi"
  Api.log (.getDeviceParams V.getDeviceParams.1)
  checkOrThrow V V.getDeviceParams.1 "GetDeviceParams"
  Api.update fun c => {c with deviceParams := V.getDeviceParams.2}
  configureInitialParams V
  Api.log (.init V.init)
  checkOrThrow V V.init "Init"
  Api.update fun c => {c with initialized := true}

/-- `close` while the session is open. -/
def closeOpened : Api Unit := do
  let c := (← get).client
  if c.initialized ∧ c.device.dev ≠ none then
    Api.log (.uninit V.uninit)
    Api.update fun c => {c with initialized := false}
  if c.deviceSelected then
    Api.log (.releaseDevice V.releaseDevice)
    Api.update fun c => {c with deviceSelected := false}
  Api.log .apiClose
  Api.update fun c => {c with opened := false, deviceParams := none}

def close : Api Unit := do
  if (← get).client.opened then closeOpened V

/-- The error path of `connect`. -/
def cleanup (what : String) : Api Unit := do
  close V
  throw (.threw what)

/-- A failure after the session is open closes it again and is thrown on. -/
def connect : Api Unit := do
  Api.log (.apiOpen V.apiOpen)
  checkOrThrow V V.apiOpen "Open"
  Api.update fun c => {c with opened := true}
  Api.catchThrow (do acquireDevice V; startStream V) (cleanup V)

end VrxServer.SdrPlay
