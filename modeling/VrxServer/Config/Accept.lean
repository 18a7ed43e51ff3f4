import VrxServer.Dsp.VirtualReceiver
import Mathlib.Tactic.Linarith
import Mathlib.Tactic.FieldSimp
/-! What an accepted configuration promises the receivers built from it.

`main` loads the configuration inside a `try` block and builds the receivers outside of
any, so an entry the loader lets through and the constructor refuses ends the process.
The loader looks at the rates' remainder only: a negative rate leaves none, the centre is
never compared to the span, and nothing bounds the quotient that becomes an `int`. -/
namespace VrxServer.Config
open Base Dsp

/-- What `main` relies on for one receiver of a configuration. -/
structure Constructible (T : Trig ℚ) (cfg : AppConfig) (vrx : VirtualReceiverConfig ℚ) : Prop where
  /-- The constructor returns, at the rate asked for. -/
  constructed : ∃ v, VirtualReceiver.construct T vrx cfg.centerFrequencyHz cfg.sampleRateHz = .ok v ∧
    v.getSampleRateHz = vrx.sampleRateHz
  /-- The decimation factor is a positive `int`. -/
  ratio : ∃ n : ℤ, cfg.sampleRateHz / vrx.sampleRateHz = n ∧ 1 ≤ n ∧ n ≤ 2147483647
  inSpan : cfg.centerFrequencyHz - cfg.sampleRateHz / 2 ≤ vrx.centerFrequencyHz ∧
    vrx.centerFrequencyHz ≤ cfg.centerFrequencyHz + cfg.sampleRateHz / 2

/-- What the loader leaves unchecked of it. -/
structure Fitting (cfg : AppConfig) (vrx : VirtualReceiverConfig ℚ) : Prop where
  positive : 0 < vrx.sampleRateHz
  bounded : cfg.sampleRateHz ≤ 2147483647 * vrx.sampleRateHz
  inSpan : |vrx.centerFrequencyHz - cfg.centerFrequencyHz| ≤ cfg.sampleRateHz / 2

/-! ### The rates -/

/-- A zero remainder makes the quotient its own truncation. -/
theorem fmod_zero {x y : ℚ} (h : fmod x y = some 0) : y ≠ 0 ∧ x / y = trunc (x / y) := by
  unfold fmod at h
  split at h
  · cases h
  · next hy =>
    refine ⟨hy, ?_⟩
    have hsub : x - y * trunc (x / y) = 0 := Option.some.inj h
    rw [div_eq_iff hy, mul_comm]
    exact sub_eq_zero.mp hsub

/-- An integer quotient of a positive rate is positive exactly when the divisor is, and
then it is at most what the divisor makes it. -/
theorem ratio_iff {x y : ℚ} (hx : 0 < x) {n : ℤ} (hn : x / y = n) :
    1 ≤ n ∧ n ≤ 2147483647 ↔ 0 < y ∧ x ≤ 2147483647 * y := by
  have hpos : 1 ≤ n ↔ 0 < y := by
    rw [← div_pos_iff_of_pos_left hx, hn, Int.cast_pos]
    omega
  rw [hpos]
  refine and_congr_right fun hy => ?_
  rw [← div_le_iff₀ hy, hn]
  exact_mod_cast Iff.rfl

/-- The rate a receiver reports is the one it was asked for. -/
theorem getSampleRateHz_eq {T : Trig ℚ} {vrx : VirtualReceiverConfig ℚ} {center rate : ℚ} (hrate : 0 < rate)
    {v : VirtualReceiver ℚ} (h : VirtualReceiver.construct T vrx center rate = .ok v) :
    v.getSampleRateHz = vrx.sampleRateHz := by
  obtain ⟨hcast, -, hmod, -, -, hwide, -⟩ := VirtualReceiver.construct_ok T h
  obtain ⟨hne, htrunc⟩ := fmod_zero hmod
  rw [(castInt_eq_some.mp hcast).1] at htrunc
  rw [VirtualReceiver.getSampleRateHz, hwide, ← htrunc]
  have := hrate.ne'
  field_simp

/-! ### Acceptance -/

/-- One entry that has passed the loader's check. -/
theorem constructible_iff (T : Trig ℚ) {cfg : AppConfig} {vrx : VirtualReceiverConfig ℚ}
    (hrate : 0 < cfg.sampleRateHz) (hmod : fmod cfg.sampleRateHz vrx.sampleRateHz = some 0) :
    Constructible T cfg vrx ↔ Fitting cfg vrx := by
  obtain ⟨-, htrunc⟩ := fmod_zero hmod
  have hratio := ratio_iff hrate htrunc
  have hspan : cfg.centerFrequencyHz - cfg.sampleRateHz / 2 ≤ vrx.centerFrequencyHz ∧
      vrx.centerFrequencyHz ≤ cfg.centerFrequencyHz + cfg.sampleRateHz / 2 ↔
        |vrx.centerFrequencyHz - cfg.centerFrequencyHz| ≤ cfg.sampleRateHz / 2 := by
    rw [abs_le]
    constructor <;> rintro ⟨h₁, h₂⟩ <;> constructor <;> linarith
  constructor
  · intro h
    obtain ⟨n, hn, h1, hmax⟩ := h.ratio
    obtain ⟨hpos, hbound⟩ := (ratio_iff hrate hn).mp ⟨h1, hmax⟩
    exact ⟨hpos, hbound, hspan.mp h.inSpan⟩
  · intro h
    obtain ⟨h1, hmax⟩ := hratio.mpr ⟨h.positive, h.bounded⟩
    have hcast : castInt (cfg.sampleRateHz / vrx.sampleRateHz) =
        some (trunc (cfg.sampleRateHz / vrx.sampleRateHz)) :=
      castInt_eq_some.mpr ⟨rfl, by omega, hmax⟩
    obtain ⟨v, hv⟩ := (VirtualReceiver.construct_ok_iff T vrx cfg.centerFrequencyHz cfg.sampleRateHz).mpr
      ⟨⟨_, hcast, h1⟩, hmod, hspan.mpr h.inSpan⟩
    exact ⟨⟨v, hv, getSampleRateHz_eq hrate hv⟩, ⟨_, htrunc, h1, hmax⟩, hspan.mpr h.inSpan⟩

/-- **The receivers of an accepted configuration can all be built exactly when all its
entries have a positive rate, a quotient an `int` holds and a centre in the span.** -/
theorem loadConfig_constructible_iff (lib : YamlLib) (T : Trig ℚ) (path : String) (file : Except String Yaml)
    (cfg : AppConfig) (h : loadConfig lib path file = .ok cfg) :
    (∀ vrx ∈ cfg.virtualReceivers, Constructible T cfg vrx) ↔
      ∀ vrx ∈ cfg.virtualReceivers, Fitting cfg vrx := by
  refine forall₂_congr fun vrx hvrx => ?_
  obtain ⟨hrate, hmod⟩ := loadConfig_ok lib h vrx hvrx
  exact constructible_iff T hrate hmod

/-! ### Two documents -/

/-- yaml-cpp on the scalars of the documents below. -/
def sampleLib : YamlLib where
  toDouble
    | "100000000" => some 100000000
    | "90000000" => some 90000000
    | "2000000" => some 2000000
    | "250000" => some 250000
    | _ => none
  toInt _ := none
  toUint16
    | "1234" => some 1234
    | _ => none
  toBool _ := none
  nullAsString := none
  toString _ := ""

/-- A document with one receiver, centred where it says. -/
def sampleDocument (vrxCenter : String) : Yaml :=
  .map [
    (.scalar "center_frequency_hz", .scalar "100000000"),
    (.scalar "sample_rate_hz", .scalar "2000000"),
    (.scalar "sdrplay", .null),
    (.scalar "virtual_receivers", .seq [.map [
      (.scalar "name", .scalar "vrx"),
      (.scalar "tcp_port", .scalar "1234"),
      (.scalar "center_frequency_hz", .scalar vrxCenter),
      (.scalar "sample_rate_hz", .scalar "250000")]])]

def sampleConfig (vrxCenter : ℚ) : AppConfig where
  connection := .api
  centerFrequencyHz := 100000000
  sampleRateHz := 2000000
  sdrplay := SdrplayConfig.default
  sdrconnect := none
  virtualReceivers := [⟨"vrx", 1234, 0, vrxCenter, 250000⟩]

theorem sampleConfig_checked (center : ℚ) :
    (sampleConfig center).virtualReceivers.forM (checkRate sampleLib 2000000) = .ok () := by
  have hmod : fmod (2000000 : ℚ) 250000 = some 0 := by decide +kernel
  refine forM_ok.mpr fun vrx hvrx => (checkRate_ok sampleLib).mpr ⟨by norm_num, ?_⟩
  obtain rfl := List.mem_singleton.mp hvrx
  exact hmod

theorem loadConfig_sample_inside :
    loadConfig sampleLib "config.yaml" (.ok (sampleDocument "100000000")) = .ok (sampleConfig 100000000) := by
  show ((sampleConfig 100000000).virtualReceivers.forM (checkRate sampleLib 2000000) >>= fun _ =>
    .ok (sampleConfig 100000000)) = _
  rw [sampleConfig_checked]
  rfl

theorem loadConfig_sample_outside :
    loadConfig sampleLib "config.yaml" (.ok (sampleDocument "90000000")) = .ok (sampleConfig 90000000) := by
  show ((sampleConfig 90000000).virtualReceivers.forM (checkRate sampleLib 2000000) >>= fun _ =>
    .ok (sampleConfig 90000000)) = _
  rw [sampleConfig_checked]
  rfl

/-- A receiver centred 10 MHz from a 2 MHz capture is accepted, and cannot be built. -/
theorem loadConfig_outside_span : ¬ ∀ (lib : YamlLib) (T : Trig ℚ) (path : String) (file : Except String Yaml)
    (cfg : AppConfig), loadConfig lib path file = .ok cfg →
      ∀ vrx ∈ cfg.virtualReceivers, Constructible T cfg vrx := by
  intro h
  have hvrx := (h sampleLib Trig.coarse _ _ _ loadConfig_sample_outside _ (List.mem_singleton_self _)).inSpan.1
  norm_num [sampleConfig] at hvrx

/-- The condition met: a receiver at the capture's centre. -/
theorem loadConfig_inside_span :
    Constructible Trig.coarse (sampleConfig 100000000) ⟨"vrx", 1234, 0, 100000000, 250000⟩ := by
  refine (loadConfig_constructible_iff sampleLib Trig.coarse _ _ _ loadConfig_sample_inside).mpr ?_ _
    (List.mem_singleton_self _)
  intro vrx hvrx
  obtain rfl := List.mem_singleton.mp hvrx
  refine ⟨?_, ?_, ?_⟩ <;> norm_num [sampleConfig]

end VrxServer.Config
