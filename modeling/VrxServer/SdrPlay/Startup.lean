import VrxServer.SdrPlay.Bandwidth
import VrxServer.SdrPlay.Setters

/-! The configuration, written before the stream starts and asked for again after.

`configureInitialParams` and the setters are two ways to the same block. Setting what is
configured once more changes nothing, in any order, but for the bias tee of an RSPdx:
`setBiasTee` writes it, and the startup path leaves it as the driver had it
(`startup_agrees_iff`). -/
namespace VrxServer.SdrPlay
open Base Config

/-- The setters that ask for what the client is configured with. -/
def configSetters (c : Client) : List Setter :=
  [.retune c.centerFrequencyHz, .setGainReduction c.cfg.gainReductionDb, .setLnaState c.cfg.lnaState,
    .setAgc c.cfg.agc (some c.cfg.agcSetPointDbfs)] ++ if c.cfg.biasT then [.setBiasTee true] else []

variable (V : Vendor)

/-- Setters one after another, each with what the driver answers its update. -/
def runSetters (calls : List (Setter × ℤ)) : LiveApi Unit := calls.forM fun call => call.1.run V call.2

theorem runSetters_cons (call : Setter × ℤ) (calls : List (Setter × ℤ)) :
    runSetters V (call :: calls) = (do call.1.run V call.2; runSetters V calls) := rfl

/-- The bias tee is asked for where it is configured. -/
theorem setBiasTee_mem_configSetters (c : Client) : .setBiasTee true ∈ configSetters c ↔ c.cfg.biasT = true := by
  cases hbias : c.cfg.biasT <;> simp [configSetters, hbias]

/-! ### What the startup writes -/

/-- The channel has what the client is configured with, the bias tee aside. -/
structure Configured (c : Client) (rx : RxChannelParams) : Prop where
  rfHz : rx.rfHz = c.centerFrequencyHz
  gRdB : rx.gRdB = c.cfg.gainReductionDb
  lnaState : rx.lnaState = V.castLnaState c.cfg.lnaState
  agcEnable : rx.agcEnable = if c.cfg.agc then 4 else 0
  setPointDbfs : rx.setPointDbfs = c.cfg.agcSetPointDbfs

/-- The bias tee of this model is on, if it has one. -/
def BiasTeeOn (hwVer : UInt8) (p : DeviceParams) : Prop :=
  match hwVer with
  | 255 | 6 => p.rxChannelA.rsp1aBiasTEnable = 1
  | 2 => p.rxChannelA.rsp2BiasTEnable = 1
  | 3 => p.rxChannelA.rspDuoBiasTEnable = 1
  | 4 | 7 => p.devParams.rspDxBiasTEnable = 1
  | _ => True

theorem configured_applyBiasTField {c : Client} {rx : RxChannelParams} (hwVer : UInt8) (h : Configured V c rx) :
    Configured V c (applyBiasTField hwVer rx) := by
  unfold applyBiasTField
  split <;> exact ⟨h.rfHz, h.gRdB, h.lnaState, h.agcEnable, h.setPointDbfs⟩

theorem configured_applyAntennaField {c : Client} {p : DeviceParams} (hwVer : UInt8) (antenna : ℤ)
    (h : Configured V c p.rxChannelA) : Configured V c (applyAntennaField V hwVer antenna p).rxChannelA := by
  unfold applyAntennaField
  split <;> exact ⟨h.rfHz, h.gRdB, h.lnaState, h.agcEnable, h.setPointDbfs⟩

theorem configured_initialParams (c : Client) (dec : DecimationResult) (p : DeviceParams) :
    Configured V c (initialParams V c dec p).rxChannelA := by
  have hbias : ∀ rx, Configured V c rx →
      Configured V c (if c.cfg.biasT then applyBiasTField c.device.hwVer rx else rx) := by
    intro rx hrx
    split
    · exact configured_applyBiasTField V c.device.hwVer hrx
    · exact hrx
  unfold initialParams
  cases c.cfg.antenna with
  | none => exact hbias _ ⟨rfl, rfl, rfl, rfl, rfl⟩
  | some antenna => exact configured_applyAntennaField V _ antenna (hbias _ ⟨rfl, rfl, rfl, rfl, rfl⟩)

/-- The antenna is no bias tee. -/
theorem biasTeeOn_applyAntennaField (hwVer : UInt8) (antenna : ℤ) (p : DeviceParams) :
    BiasTeeOn hwVer (applyAntennaField V hwVer antenna p) ↔ BiasTeeOn hwVer p := by
  unfold applyAntennaField BiasTeeOn
  split <;> exact Iff.rfl

/-- The startup turns a configured bias tee on, except where it is the device's and not the channel's. -/
theorem biasTeeOn_initialParams {c : Client} (dec : DecimationResult) (p : DeviceParams) (hbias : c.cfg.biasT = true) :
    BiasTeeOn c.device.hwVer (initialParams V c dec p) ↔
      ¬ ((c.device.hwVer = 4 ∨ c.device.hwVer = 7) ∧ p.devParams.rspDxBiasTEnable ≠ 1) := by
  have hfield : ∀ (d : DevParams) rx, d.rspDxBiasTEnable = p.devParams.rspDxBiasTEnable →
      (BiasTeeOn c.device.hwVer ⟨d, if c.cfg.biasT then applyBiasTField c.device.hwVer rx else rx⟩ ↔
        ¬ ((c.device.hwVer = 4 ∨ c.device.hwVer = 7) ∧ p.devParams.rspDxBiasTEnable ≠ 1)) := by
    intro d rx hd
    rw [if_pos hbias]
    unfold BiasTeeOn applyBiasTField
    split <;> simp_all
  unfold initialParams
  cases c.cfg.antenna with
  | none => exact hfield _ _ rfl
  | some antenna => exact (biasTeeOn_applyAntennaField V _ antenna _).trans (hfield _ _ rfl)

/-! ### What the setters add -/

/-- Setting the bias tee changes the block exactly where it is off. -/
theorem biasTeeWritten_eq_iff (hwVer : UInt8) (p : DeviceParams) :
    Setter.biasTeeWritten hwVer 1 p = p ↔ BiasTeeOn hwVer p := by
  obtain ⟨d, rx⟩ := p
  cases d
  cases rx
  unfold Setter.biasTeeWritten BiasTeeOn
  split <;> simp [eq_comm]

theorem biasTeeWritten_twice (hwVer : UInt8) (value : ℤ) (p : DeviceParams) :
    Setter.biasTeeWritten hwVer value (Setter.biasTeeWritten hwVer value p) = Setter.biasTeeWritten hwVer value p := by
  unfold Setter.biasTeeWritten
  split <;> simp_all

theorem configured_biasTeeWritten {c : Client} {p : DeviceParams} (hwVer : UInt8) (value : ℤ)
    (h : Configured V c p.rxChannelA) : Configured V c (Setter.biasTeeWritten hwVer value p).rxChannelA := by
  unfold Setter.biasTeeWritten
  split <;> exact ⟨h.rfHz, h.gRdB, h.lnaState, h.agcEnable, h.setPointDbfs⟩

/-- Of a configured block the setters change the bias tee only. -/
theorem writes_configured {c : Client} {p : DeviceParams} (hwVer : UInt8) (h : Configured V c p.rxChannelA)
    {setter : Setter} (hsetter : setter ∈ configSetters c) :
    setter.writes V hwVer p = if setter = .setBiasTee true then Setter.biasTeeWritten hwVer 1 p else p := by
  simp only [configSetters, List.mem_append, List.mem_cons, List.not_mem_nil, or_false] at hsetter
  rcases hsetter with (rfl | rfl | rfl | rfl) | hbias
  · rw [if_neg (by simp), Setter.writes, ← h.rfHz]
  · rw [if_neg (by simp), Setter.writes, ← h.gRdB]
  · rw [if_neg (by simp), Setter.writes, ← h.lnaState]
  · rw [if_neg (by simp), Setter.writes, ← h.agcEnable, ← h.setPointDbfs]
    rfl
  · have hset : setter = .setBiasTee true := by
      split at hbias
      · exact List.mem_singleton.mp hbias
      · cases hbias
    rw [if_pos hset, hset]
    rfl

/-- Setters that ask for what is configured leave the block as it is, or with the bias tee set
if that was among them; the order is no matter. -/
theorem runSetters_configured {c : Client} (hwVer : UInt8) (calls : List (Setter × ℤ)) (s : Live) (p : DeviceParams)
    (hcalls : ∀ call ∈ calls, call.1 ∈ configSetters c) (hwas : s.session.client.device.hwVer = hwVer)
    (hp : s.session.client.deviceParams = some p) (h : Configured V c p.rxChannelA) :
    Ends (runSetters V calls) s
      (fun _ t => t.session.client.deviceParams =
        some (if .setBiasTee true ∈ calls.map Prod.fst then Setter.biasTeeWritten hwVer 1 p else p))
      (fun _ _ => False) := by
  induction calls generalizing s p with
  | nil => exact hp
  | cons call calls ih =>
    rw [runSetters_cons, ends_bind]
    refine (Setter.run_block V call.2 call.1 hp).mono ?_ fun _ _ ht => ht
    intro _ t ht
    obtain ⟨made, -, rfl⟩ := ht
    obtain ⟨q, hq⟩ : ∃ q, q = if call.1 = .setBiasTee true then Setter.biasTeeWritten hwVer 1 p else p := ⟨_, rfl⟩
    have hconfigured : Configured V c q.rxChannelA := by
      rw [hq]
      split
      · exact configured_biasTeeWritten V hwVer 1 h
      · exact h
    rw [hwas, writes_configured V hwVer h (hcalls call (List.mem_cons_self ..)), ← hq]
    refine (ih {s.withParams q with updates := s.updates ++ made} q
      (fun next hnext => hcalls next (List.mem_cons_of_mem _ hnext)) hwas rfl hconfigured).mono ?_ fun _ _ ht => ht
    intro _ t ht
    rw [ht, hq, List.map_cons]
    by_cases hfirst : call.1 = .setBiasTee true
    · rw [if_pos hfirst, biasTeeWritten_twice, ite_self, if_pos (List.mem_cons.mpr (.inl hfirst.symm))]
    · simp only [if_neg hfirst, List.mem_cons, Ne.symm hfirst, false_or]

/-! ### Both paths -/

/-- The session the startup leaves, once the decimation is decided. -/
def started (s : Session) (dec : DecimationResult) (p : DeviceParams) : Session :=
  {s with client := {s.client with deviceParams := some (initialParams V s.client dec p)}}

/-- After the startup the configuration's setters return, in any order, with the bias tee set
if it is configured. -/
theorem runSetters_started (s : Session) (dec : DecimationResult) (p : DeviceParams) (updates : List UpdateCall)
    (calls : List (Setter × ℤ)) (hcalls : (calls.map Prod.fst).Perm (configSetters s.client)) :
    ∃ u, runSetters V calls ⟨started V s dec p, updates⟩ = .ok () u ∧
      u.session.client.deviceParams = some (if s.client.cfg.biasT then
        Setter.biasTeeWritten s.client.device.hwVer 1 (initialParams V s.client dec p)
        else initialParams V s.client dec p) := by
  have hends := runSetters_configured V s.client.device.hwVer calls ⟨started V s dec p, updates⟩ _
    (fun call hcall => hcalls.subset (List.mem_map_of_mem hcall)) rfl rfl (configured_initialParams V s.client dec p)
  cases hrun : runSetters V calls ⟨started V s dec p, updates⟩ with
  | error e u => exact (hends.of_error hrun).elim
  | ok _ u =>
    refine ⟨u, rfl, ?_⟩
    rw [hends.of_ok hrun]
    simp only [hcalls.mem_iff.trans (setBiasTee_mem_configSetters s.client)]

/-- **The setters leave the startup's block as it is exactly unless the bias tee is configured
on an RSPdx that has it off.** -/
theorem startup_agrees_iff (s t : Session) (p : DeviceParams) (hp : s.client.deviceParams = some p)
    (hstartup : configureInitialParams V s = .ok () t) (updates : List UpdateCall) (calls : List (Setter × ℤ))
    (hcalls : (calls.map Prod.fst).Perm (configSetters s.client)) :
    ∃ u, runSetters V calls ⟨t, updates⟩ = .ok () u ∧
      (u.session.client.deviceParams = t.client.deviceParams ↔
        ¬ (s.client.cfg.biasT = true ∧ (s.client.device.hwVer = 4 ∨ s.client.device.hwVer = 7) ∧
          p.devParams.rspDxBiasTEnable ≠ 1)) := by
  obtain ⟨dec, rfl⟩ : ∃ dec, t = started V s dec p := by
    cases hdec : decimationForSampleRate s.client.sampleRateHz with
    | none =>
      rw [configureInitialParams, get_bind, hdec] at hstartup
      cases hstartup
    | some dec =>
      rw [configureInitialParams_ok hp hdec] at hstartup
      cases hstartup
      exact ⟨dec, rfl⟩
  obtain ⟨u, hrun, hu⟩ := runSetters_started V s dec p updates calls hcalls
  refine ⟨u, hrun, ?_⟩
  rw [hu, started, Option.some_inj]
  cases hbias : s.client.cfg.biasT with
  | false => simp
  | true =>
    rw [if_pos rfl, biasTeeWritten_eq_iff, biasTeeOn_initialParams V dec p hbias]
    simp

/-- An RSPdx that is to have its bias tee on, just selected. -/
def dxSession : Session :=
  ⟨{Client.construct {SdrplayConfig.default with biasT := true} 100000000 2000000 with
    device := ⟨"1812002F80", 4, 0, 0, some 1⟩
    deviceParams := some blankParams}, []⟩

def dxCalls : List (Setter × ℤ) := (configSetters dxSession.client).map fun setter => (setter, 0)

theorem dxCalls_perm : (dxCalls.map Prod.fst).Perm (configSetters dxSession.client) := by
  rw [dxCalls, List.map_map]
  exact .of_eq (List.map_id _)

theorem dxSession_started : configureInitialParams (sampleVendor []) dxSession =
    .ok () (started (sampleVendor []) dxSession ⟨2000000, 1⟩ blankParams) :=
  configureInitialParams_ok rfl decimationForSampleRate_floor

/-- Its bias tee is off until it is set. -/
theorem startup_agrees_dx : ∃ u, runSetters (sampleVendor []) dxCalls
      ⟨started (sampleVendor []) dxSession ⟨2000000, 1⟩ blankParams, []⟩ = .ok () u ∧
    (u.session.client.deviceParams = (started (sampleVendor []) dxSession ⟨2000000, 1⟩ blankParams).client.deviceParams ↔
      ¬ (dxSession.client.cfg.biasT = true ∧ (dxSession.client.device.hwVer = 4 ∨ dxSession.client.device.hwVer = 7) ∧
        blankParams.devParams.rspDxBiasTEnable ≠ 1)) :=
  startup_agrees_iff (sampleVendor []) dxSession _ blankParams rfl dxSession_started [] dxCalls dxCalls_perm

/-- What it was configured with was not all written. -/
theorem startup_leaves_bias_off : ¬ ∀ (V : Vendor) (s t : Session) (p : DeviceParams), s.client.deviceParams = some p →
    configureInitialParams V s = .ok () t → ∀ updates calls, (calls.map Prod.fst).Perm (configSetters s.client) →
      ∀ u, runSetters V calls ⟨t, updates⟩ = .ok () u → u.session.client.deviceParams = t.client.deviceParams := by
  intro hall
  obtain ⟨u, hrun, hu⟩ := runSetters_started (sampleVendor []) dxSession ⟨2000000, 1⟩ blankParams [] dxCalls dxCalls_perm
  have hsame := hall (sampleVendor []) dxSession _ blankParams rfl dxSession_started [] dxCalls dxCalls_perm u hrun
  rw [hu, started, Option.some_inj, if_pos (show dxSession.client.cfg.biasT = true from rfl)] at hsame
  have hon := (biasTeeWritten_eq_iff _ _).mp hsame
  rw [biasTeeOn_initialParams (c := dxSession.client) (sampleVendor []) ⟨2000000, 1⟩ blankParams rfl] at hon
  exact hon ⟨.inl rfl, by decide⟩

end VrxServer.SdrPlay
