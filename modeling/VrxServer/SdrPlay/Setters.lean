import VrxServer.SdrPlay.Client

/-! The setters a running client is tuned with.

A setter writes its field through `deviceParams_` and then has the driver told which field
it was. The telling is guarded (`update` does nothing without a device), the writing is
not: what a setter does to the block (`Setter.writes`), it does through a pointer that has
to be there (`Setter.run_block`, `Setter.run_null`). -/
namespace VrxServer.SdrPlay
open Base Config

/-- `sdrplay_api_Update`, as it was called, and what it returned. -/
structure UpdateCall where
  dev : Option ℕ
  tuner : ℤ
  reasonForUpdate : UInt32
  reasonForUpdateExt1 : UInt32
  err : ℤ
  deriving DecidableEq

/-- A session, and the updates asked for in it. -/
structure Live where
  session : Session
  updates : List UpdateCall
  deriving DecidableEq

abbrev LiveApi (T : Type) := EStateM Stop Live T

namespace Live

def withParams (s : Live) (p : DeviceParams) : Live :=
  {s with session := {s.session with client := {s.session.client with deviceParams := some p}}}

theorem withParams_self {s : Live} {p : DeviceParams} (hp : s.session.client.deviceParams = some p) :
    s.withParams p = s := by
  rw [withParams, ← hp]

end Live

/-! ### The setters -/

/-- Following `deviceParams_`. -/
def getParams : LiveApi DeviceParams := do
  match (← get).session.client.deviceParams with
  | some p => return p
  | none => throw .crashed

def putParams (p : DeviceParams) : LiveApi Unit := modify fun s => s.withParams p

section
variable (V : Vendor) (err : ℤ)

/-- `update`, where the driver answers `err`. An error is only reported. -/
def update (reasonForUpdate reasonForUpdateExt1 : UInt32) : LiveApi Unit := do
  let c := (← get).session.client
  if c.deviceSelected then
    modify fun s =>
      {s with updates := s.updates ++ [⟨c.device.dev, c.device.tuner, reasonForUpdate, reasonForUpdateExt1, err⟩]}

def retune (centerFrequencyHz : ℚ) : LiveApi Unit := do
  let p ← getParams
  putParams {p with rxChannelA := {p.rxChannelA with rfHz := centerFrequencyHz}}
  update err 0x00020000 0

def setGainReduction (gRdB : ℤ) : LiveApi Unit := do
  let p ← getParams
  putParams {p with rxChannelA := {p.rxChannelA with gRdB := gRdB}}
  update err 0x00008000 0

def setLnaState (lnaState : ℤ) : LiveApi Unit := do
  let p ← getParams
  putParams {p with rxChannelA := {p.rxChannelA with lnaState := V.castLnaState lnaState}}
  update err 0x00008000 0

def setAgc (enabled : Bool) (setPointDbfs : Option ℤ) : LiveApi Unit := do
  let p ← getParams
  let p := {p with rxChannelA := {p.rxChannelA with agcEnable := if enabled then 4 else 0}}
  putParams p
  if let some setPoint := setPointDbfs then
    putParams {p with rxChannelA := {p.rxChannelA with setPointDbfs := setPoint}}
  update err 0x01000000 0

def setBiasTee (enabled : Bool) : LiveApi Unit := do
  let hwVer := (← get).session.client.device.hwVer
  let value : ℤ := if enabled then 1 else 0
  if hwVer = 4 ∨ hwVer = 7 then
    let p ← getParams
    putParams {p with devParams := {p.devParams with rspDxBiasTEnable := value}}
    update err 0 0x00000002
  else
    -- the channel is looked up before the model is, also for a model without a bias tee
    let p ← getParams
    match hwVer with
    | 255 | 6 =>
      putParams {p with rxChannelA := {p.rxChannelA with rsp1aBiasTEnable := value}}
      update err 0x00000010 0
    | 2 =>
      putParams {p with rxChannelA := {p.rxChannelA with rsp2BiasTEnable := value}}
      update err 0x00000080 0
    | 3 =>
      putParams {p with rxChannelA := {p.rxChannelA with rspDuoBiasTEnable := value}}
      update err 0x08000000 0
    | _ => pure ()

end

/-- A setter and what it is called with. -/
inductive Setter where
  | retune (centerFrequencyHz : ℚ)
  | setGainReduction (gRdB : ℤ)
  | setLnaState (lnaState : ℤ)
  | setAgc (enabled : Bool) (setPointDbfs : Option ℤ)
  | setBiasTee (enabled : Bool)
  deriving DecidableEq

namespace Setter
variable (V : Vendor) (err : ℤ)

def run : Setter → LiveApi Unit
  | .retune centerFrequencyHz => SdrPlay.retune err centerFrequencyHz
  | .setGainReduction gRdB => SdrPlay.setGainReduction err gRdB
  | .setLnaState lnaState => SdrPlay.setLnaState V err lnaState
  | .setAgc enabled setPointDbfs => SdrPlay.setAgc err enabled setPointDbfs
  | .setBiasTee enabled => SdrPlay.setBiasTee err enabled

/-! ### What a setter does -/

/-- The block with the bias tee of this model set. -/
def biasTeeWritten (hwVer : UInt8) (value : ℤ) (p : DeviceParams) : DeviceParams :=
  match hwVer with
  | 255 | 6 => {p with rxChannelA := {p.rxChannelA with rsp1aBiasTEnable := value}}
  | 2 => {p with rxChannelA := {p.rxChannelA with rsp2BiasTEnable := value}}
  | 3 => {p with rxChannelA := {p.rxChannelA with rspDuoBiasTEnable := value}}
  | 4 | 7 => {p with devParams := {p.devParams with rspDxBiasTEnable := value}}
  | _ => p

/-- The block a setter leaves. -/
def writes (hwVer : UInt8) : Setter → DeviceParams → DeviceParams
  | .retune centerFrequencyHz, p => {p with rxChannelA := {p.rxChannelA with rfHz := centerFrequencyHz}}
  | .setGainReduction gRdB, p => {p with rxChannelA := {p.rxChannelA with gRdB := gRdB}}
  | .setLnaState lnaState, p => {p with rxChannelA := {p.rxChannelA with lnaState := V.castLnaState lnaState}}
  | .setAgc enabled setPointDbfs, p => {p with rxChannelA := {p.rxChannelA with
      agcEnable := if enabled then 4 else 0
      setPointDbfs := setPointDbfs.getD p.rxChannelA.setPointDbfs}}
  | .setBiasTee enabled, p => biasTeeWritten hwVer (if enabled then 1 else 0) p

/-- The block is the one written, and the driver was told of it at most once: not without a device. -/
def Wrote (s : Live) (q : DeviceParams) (t : Live) : Prop :=
  ∃ made, (s.session.client.deviceSelected = false → made = []) ∧
    t = {s.withParams q with updates := s.updates ++ made}

section
variable {err} {s : Live} {X : Stop → Live → Prop}

theorem ends_getParams {Q : DeviceParams → Live → Prop} {p : DeviceParams}
    (hp : s.session.client.deviceParams = some p) : Ends getParams s Q X ↔ Q p s := by
  rw [getParams, ends_bind, ends_get, hp]
  rfl

/-- An update adds at most its own call, and none without a device. -/
theorem ends_update {Q : Unit → Live → Prop} {reason ext1 : UInt32}
    (hQ : ∀ made, (s.session.client.deviceSelected = false → made = []) → Q () {s with updates := s.updates ++ made}) :
    Ends (update err reason ext1) s Q X := by
  rw [update, ends_bind, ends_get, ends_ite]
  refine ⟨fun hselected => hQ [_] fun h => ?_, fun _ => ?_⟩
  · rw [hselected] at h
    cases h
  · have hnone := hQ [] fun _ => rfl
    rwa [List.append_nil] at hnone

/-- The last write of a setter, and what the driver is told. -/
theorem ends_tell (q : DeviceParams) (reason ext1 : UInt32) :
    Ends (do putParams q; update err reason ext1) s (fun _ => Wrote s q) X := by
  rw [ends_bind]
  show Ends (update err reason ext1) (s.withParams q) (fun _ => Wrote s q) X
  apply ends_update
  intro made hmade
  exact ⟨made, hmade, rfl⟩

end

/-- A model without a bias tee has none written. -/
theorem biasTeeWritten_none {hwVer : UInt8} (value : ℤ) (p : DeviceParams) (hdx : ¬ (hwVer = 4 ∨ hwVer = 7))
    (h255 : hwVer ≠ 255) (h6 : hwVer ≠ 6) (h2 : hwVer ≠ 2) (h3 : hwVer ≠ 3) : biasTeeWritten hwVer value p = p := by
  unfold biasTeeWritten
  split <;> simp_all

/-- **With a block to write to, a setter writes its fields and returns.** -/
theorem run_block (setter : Setter) {s : Live} {p : DeviceParams} (hp : s.session.client.deviceParams = some p) :
    Ends (setter.run V err) s (fun _ => Wrote s (setter.writes V s.session.client.device.hwVer p))
      (fun _ _ => False) := by
  cases setter with
  | retune centerFrequencyHz =>
    rw [run, SdrPlay.retune, ends_bind, ends_getParams hp]
    exact ends_tell _ _ _
  | setGainReduction gRdB =>
    rw [run, SdrPlay.setGainReduction, ends_bind, ends_getParams hp]
    exact ends_tell _ _ _
  | setLnaState lnaState =>
    rw [run, SdrPlay.setLnaState, ends_bind, ends_getParams hp]
    exact ends_tell _ _ _
  | setAgc enabled setPointDbfs =>
    rw [run, SdrPlay.setAgc, ends_bind, ends_getParams hp]
    cases setPointDbfs with
    | none => exact ends_tell _ _ _
    | some setPoint =>
      -- the second write is on top of the first
      rw [ends_bind]
      exact ends_tell _ _ _
  | setBiasTee enabled =>
    rw [run, SdrPlay.setBiasTee, ends_bind, ends_get, ends_ite]
    constructor
    · intro hdx
      rw [ends_bind, ends_getParams hp]
      rcases hdx with h | h
      · rw [writes, h]
        exact ends_tell _ _ _
      · rw [writes, h]
        exact ends_tell _ _ _
    · intro hother
      rw [ends_bind, ends_getParams hp, writes]
      dsimp only
      split
      · next h => rw [h]; exact ends_tell _ _ _
      · next h => rw [h]; exact ends_tell _ _ _
      · next h => rw [h]; exact ends_tell _ _ _
      · next h => rw [h]; exact ends_tell _ _ _
      · next h255 h6 h2 h3 =>
        rw [biasTeeWritten_none _ p hother h255 h6 h2 h3]
        exact ⟨[], fun _ => rfl, by rw [Live.withParams_self hp, List.append_nil]⟩

/-- **Without one it crashes**, and has done nothing. -/
theorem run_null (setter : Setter) {s : Live} (hp : s.session.client.deviceParams = none) :
    setter.run V err s = .error .crashed s := by
  have hcrash : ∀ {T : Type} (f : DeviceParams → LiveApi T), (getParams >>= f) s = .error .crashed s := by
    intro T f
    show EStateM.bind getParams f s = _
    rw [EStateM.bind, getParams, get_bind, hp]
    rfl
  cases setter with
  | retune centerFrequencyHz => exact hcrash _
  | setGainReduction gRdB => exact hcrash _
  | setLnaState lnaState => exact hcrash _
  | setAgc enabled setPointDbfs => exact hcrash _
  | setBiasTee enabled =>
    rw [run, SdrPlay.setBiasTee, get_bind]
    dsimp only
    split
    · exact hcrash _
    · exact hcrash _

end Setter

end VrxServer.SdrPlay
