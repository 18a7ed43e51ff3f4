import VrxServer.Config.Accept
import VrxServer.SdrPlay.Lock

/-! The analog bandwidth and the ADC rate the device is programmed to.

The two come from the same output rate by two functions: a ladder of bandwidths, and a
loop that doubles the rate until the ADC can run at it. A bandwidth above the ADC rate
lets through what folds back into the capture. From 1.536 MHz on the ladder gives the
bandwidth of the next rung up, and below its last rung that is more than the ADC rate
(`bandwidth_fits_iff`). -/
namespace VrxServer.SdrPlay
open Base Config

/-! ### The doubling loop -/

/-- **The loop doubles until the ADC rate is 2 MHz, and not once more.** -/
theorem decimationLoop_spec (adcSampleRateHz : ℚ) (decimationFactor : ℤ) (h : 0 < adcSampleRateHz) :
    ∃ n, decimationLoop adcSampleRateHz decimationFactor h =
        ⟨adcSampleRateHz * 2 ^ n, decimationFactor * 2 ^ n⟩ ∧
      2000000 ≤ adcSampleRateHz * 2 ^ n ∧ ∀ m < n, adcSampleRateHz * 2 ^ m < 2000000 := by
  induction adcSampleRateHz, decimationFactor, h using decimationLoop.induct with
  | case1 adc factor h hlt ih =>
    obtain ⟨n, hloop, hge, hbelow⟩ := ih
    refine ⟨n + 1, ?_, ?_, ?_⟩
    · rw [decimationLoop, dif_pos hlt, hloop, pow_succ', pow_succ', mul_assoc, mul_assoc]
    · rwa [pow_succ', ← mul_assoc]
    · intro m hm
      cases m with
      | zero => rwa [pow_zero, mul_one]
      | succ m =>
        rw [pow_succ', ← mul_assoc]
        exact hbelow m (by omega)
  | case2 adc factor h hlt =>
    refine ⟨0, ?_, ?_, fun m hm => absurd hm (Nat.not_lt_zero m)⟩
    · rw [decimationLoop, dif_neg hlt, pow_zero, pow_zero, mul_one, mul_one]
    · rw [pow_zero, mul_one]
      exact not_lt.mp hlt

/-- The ADC runs at the output rate where it can, else below twice its floor. -/
theorem decimationForSampleRate_adc {sr : ℚ} {dec : DecimationResult} (h : decimationForSampleRate sr = some dec) :
    2000000 ≤ dec.adcSampleRateHz ∧ (2000000 ≤ sr → dec.adcSampleRateHz = sr) ∧
      (sr < 2000000 → dec.adcSampleRateHz < 4000000) := by
  unfold decimationForSampleRate at h
  split at h
  · next hpos =>
    obtain rfl := Option.some.inj h
    obtain ⟨n, hloop, hge, hbelow⟩ := decimationLoop_spec sr 1 hpos
    rw [hloop]
    refine ⟨hge, fun hfast => ?_, fun hslow => ?_⟩
    · cases n with
      | zero => rw [pow_zero, mul_one]
      | succ n =>
        have hfirst := hbelow 0 (Nat.succ_pos n)
        rw [pow_zero, mul_one] at hfirst
        exact absurd hfirst (not_lt.mpr hfast)
    · cases n with
      | zero =>
        rw [pow_zero, mul_one]
        exact hslow.trans (by norm_num)
      | succ n =>
        have hlast := hbelow n (Nat.lt_succ_self n)
        show sr * 2 ^ (n + 1) < 4000000
        rw [pow_succ]
        linarith
  · cases h

/-- At its floor the ADC runs at the output rate. -/
theorem decimationForSampleRate_floor : decimationForSampleRate 2000000 = some ⟨2000000, 1⟩ := by
  rw [decimationForSampleRate, dif_pos (by norm_num), decimationLoop, dif_neg (by norm_num)]

/-! ### The ladder -/

theorem ladder_fits_iff {sr : ℚ} {dec : DecimationResult} (h : decimationForSampleRate sr = some dec) :
    (bwTypeForSampleRate sr : ℚ) * 1000 ≤ dec.adcSampleRateHz ↔ sr < 1536000 ∨ 8000000 ≤ sr := by
  obtain ⟨hfloor, hfast, hslow⟩ := decimationForSampleRate_adc h
  rcases lt_or_ge sr 1536000 with hlow | hmiddle
  · have hbw : (bwTypeForSampleRate sr : ℚ) ≤ 600 := by
      unfold bwTypeForSampleRate
      split_ifs <;> norm_num
    exact iff_of_true (by linarith) (.inl hlow)
  · rcases lt_or_ge sr 8000000 with hhigh | htop
    · refine iff_of_false ?_ (by simp [hmiddle, hhigh])
      rw [not_le]
      rcases lt_or_ge sr 2000000 with hslow' | hfast'
      · have hbw : bwTypeForSampleRate sr = 5000 := by
          unfold bwTypeForSampleRate
          split_ifs <;> first | rfl | (exfalso; linarith)
        have hadc := hslow hslow'
        rw [hbw]
        push_cast
        linarith
      · rw [hfast hfast']
        unfold bwTypeForSampleRate
        split_ifs <;> norm_num <;> linarith
    · have hbw : bwTypeForSampleRate sr = 8000 := by
        unfold bwTypeForSampleRate
        split_ifs <;> first | rfl | (exfalso; linarith)
      rw [hbw, hfast (by linarith)]
      exact iff_of_true (by push_cast; linarith) (.inr htop)

/-! ### The block the device is given -/

/-- What passes the analog filter is sampled without folding back. -/
def BandwidthFits (p : DeviceParams) : Prop := (p.rxChannelA.bwType : ℚ) * 1000 ≤ p.devParams.fsHz

/-- Neither the bias tee nor the antenna touches bandwidth or rate. -/
theorem initialParams_fields (V : Vendor) (c : Client) (dec : DecimationResult) (p : DeviceParams) :
    (initialParams V c dec p).rxChannelA.bwType = bwTypeForSampleRate c.sampleRateHz ∧
      (initialParams V c dec p).devParams.fsHz = dec.adcSampleRateHz := by
  have hbias : ∀ rx, (applyBiasTField c.device.hwVer rx).bwType = rx.bwType := by
    intro rx
    unfold applyBiasTField
    split <;> rfl
  have hantenna : ∀ antenna q, (applyAntennaField V c.device.hwVer antenna q).rxChannelA.bwType = q.rxChannelA.bwType ∧
      (applyAntennaField V c.device.hwVer antenna q).devParams.fsHz = q.devParams.fsHz := by
    intro antenna q
    unfold applyAntennaField
    split <;> exact ⟨rfl, rfl⟩
  unfold initialParams
  cases c.cfg.antenna with
  | none =>
    refine ⟨?_, rfl⟩
    dsimp only
    split
    · rw [hbias]
    · rfl
  | some antenna =>
    dsimp only
    rw [(hantenna antenna _).1, (hantenna antenna _).2]
    refine ⟨?_, rfl⟩
    dsimp only
    split
    · rw [hbias]
    · rfl

theorem configureInitialParams_ok {V : Vendor} {s : Session} {p : DeviceParams} {dec : DecimationResult}
    (hp : s.client.deviceParams = some p) (hdec : decimationForSampleRate s.client.sampleRateHz = some dec) :
    configureInitialParams V s =
      .ok () {s with client := {s.client with deviceParams := some (initialParams V s.client dec p)}} := by
  rw [configureInitialParams, get_bind, hdec]
  dsimp only
  rw [hp]
  rfl

/-- **The bandwidth programmed fits the ADC rate programmed with it exactly below 1.536 MHz
and from 8 MHz on.** -/
theorem bandwidth_fits_iff (V : Vendor) (s : Session) (p : DeviceParams) (hp : s.client.deviceParams = some p)
    (hrate : 0 < s.client.sampleRateHz) :
    ∃ q, configureInitialParams V s = .ok () {s with client := {s.client with deviceParams := some q}} ∧
      (BandwidthFits q ↔ s.client.sampleRateHz < 1536000 ∨ 8000000 ≤ s.client.sampleRateHz) := by
  obtain ⟨dec, hdec⟩ : ∃ dec, decimationForSampleRate s.client.sampleRateHz = some dec := by
    rw [decimationForSampleRate, dif_pos hrate]
    exact ⟨_, rfl⟩
  obtain ⟨hbw, hadc⟩ := initialParams_fields V s.client dec p
  refine ⟨initialParams V s.client dec p, configureInitialParams_ok hp hdec, ?_⟩
  rw [BandwidthFits, hbw, hadc]
  exact ladder_fits_iff hdec

/-- The client `main` builds from a configuration, connected to a device that has handed
out its parameters. -/
def selectedSession (cfg : AppConfig) (p : DeviceParams) : Session :=
  ⟨{Client.construct cfg.sdrplay cfg.centerFrequencyHz cfg.sampleRateHz with deviceParams := some p}, []⟩

def blankParams : DeviceParams := ⟨⟨0, 0, 0, 0⟩, ⟨0, 0, 0, 0, 0, 0, 0, 0, 0, 0, 0, 0, 0, 0, 0, 0, 0, 0⟩⟩

/-- Half a megahertz, within 300 kHz. -/
theorem bandwidth_fits_slow : ∃ q, configureInitialParams (sampleVendor [])
      (selectedSession {sampleConfig 100000000 with sampleRateHz := 500000} blankParams) =
        .ok () {selectedSession {sampleConfig 100000000 with sampleRateHz := 500000} blankParams with
          client := {(selectedSession {sampleConfig 100000000 with sampleRateHz := 500000} blankParams).client with
            deviceParams := some q}} ∧
    BandwidthFits q := by
  obtain ⟨q, hq, hiff⟩ := bandwidth_fits_iff (sampleVendor [])
    (selectedSession {sampleConfig 100000000 with sampleRateHz := 500000} blankParams) blankParams rfl
    (by norm_num [selectedSession, Client.construct])
  exact ⟨q, hq, hiff.mpr (.inl (by norm_num [selectedSession, Client.construct]))⟩

/-- An accepted configuration of 2 MHz is given a bandwidth of 5 MHz. -/
theorem bandwidth_folds : ¬ ∀ (lib : YamlLib) (path : String) (file : Except String Yaml) (cfg : AppConfig) (V : Vendor)
    (p : DeviceParams) (t : Session), loadConfig lib path file = .ok cfg →
      configureInitialParams V (selectedSession cfg p) = .ok () t →
        ∀ q, t.client.deviceParams = some q → BandwidthFits q := by
  intro hall
  have hblock := configureInitialParams_ok (V := sampleVendor [])
    (s := selectedSession (sampleConfig 100000000) blankParams) rfl decimationForSampleRate_floor
  have hfits := hall sampleLib _ _ _ (sampleVendor []) blankParams _ loadConfig_sample_inside hblock _ rfl
  obtain ⟨hbw, hadc⟩ := initialParams_fields (sampleVendor [])
    (selectedSession (sampleConfig 100000000) blankParams).client ⟨2000000, 1⟩ blankParams
  rw [BandwidthFits, hbw, hadc] at hfits
  have hrate := (ladder_fits_iff decimationForSampleRate_floor).mp hfits
  norm_num at hrate

end VrxServer.SdrPlay
