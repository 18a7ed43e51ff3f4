import VrxServer.Dsp.Tuning
import VrxServer.SpyServer.Server

/-! The tuning range a client is told.

A SpyServer client learns the span of the capture from two casts to `uint32_t`, and
`retune` checks against the span itself. The two agree where the casts are defined and the
lower end loses nothing by its truncation (`range_agrees_iff`): a lower end with a fraction
is advertised as the whole hertz below it, which is refused. -/
namespace VrxServer.SpyServer
open Base Config Dsp VirtualReceiver

section Casts
variable {K : Type} [Field K] [LinearOrder K] [IsStrictOrderedRing K] [FloorRing K]

/-- `static_cast<uint32_t>` has a value: the number without its fraction is one. -/
def CastDefined (x : K) : Prop := 0 ≤ trunc x ∧ trunc x < 4294967296

theorem trunc_nonneg {x : K} : 0 ≤ trunc x ↔ -1 < x := by
  unfold trunc
  split
  · next h => exact iff_of_true (Int.floor_nonneg.mpr h) (lt_of_lt_of_le (by norm_num) h)
  · next h => rw [Int.le_ceil_iff, Int.cast_zero, zero_sub]

theorem trunc_lt {x : K} : trunc x < 4294967296 ↔ x < 4294967296 := by
  unfold trunc
  split
  · next h => rw [Int.floor_lt, Int.cast_ofNat]
  · next h =>
    rw [not_le] at h
    have hceil : ⌈x⌉ ≤ 0 := Int.ceil_le.mpr (by rw [Int.cast_zero]; exact h.le)
    exact iff_of_true (lt_of_le_of_lt hceil (by norm_num)) (h.trans (by norm_num))

theorem castDefined_iff {x : K} : CastDefined x ↔ -1 < x ∧ x < 4294967296 := and_congr trunc_nonneg trunc_lt

/-- Down to -1 the cast gives 0. -/
theorem trunc_eq_zero {x : K} (hlow : -1 < x) (hhigh : x ≤ 0) : trunc x = 0 := by
  refine le_antisymm ?_ (trunc_nonneg.mpr hlow)
  unfold trunc
  split
  · exact Int.floor_nonpos hhigh
  · exact Int.ceil_le.mpr (by rwa [Int.cast_zero])

omit [IsStrictOrderedRing K] in
theorem trunc_of_nonneg {x : K} (h : 0 ≤ x) : trunc x = ⌊x⌋ := if_pos h

omit [IsStrictOrderedRing K] in
theorem Platform.toNat_toUint32 (P : Platform K) {x : K} (h : CastDefined x) :
    ((P.toUint32 x).toNat : ℤ) = trunc x := by
  obtain ⟨hlow, hhigh⟩ := h
  rw [toUint32, if_pos ⟨hlow, hhigh⟩, UInt32.toNat_ofNat']
  omega

omit [IsStrictOrderedRing K] in
/-- What the truncated ends admit, in the values a client can ask for. -/
theorem Platform.le_toUint32 (P : Platform K) {x : K} (h : CastDefined x) (value : UInt32) :
    value ≤ P.toUint32 x ↔ (value.toNat : ℤ) ≤ trunc x := by
  rw [UInt32.le_iff_toNat_le, ← P.toNat_toUint32 h, Int.ofNat_le]

omit [IsStrictOrderedRing K] in
theorem Platform.toUint32_le (P : Platform K) {x : K} (h : CastDefined x) (value : UInt32) :
    P.toUint32 x ≤ value ↔ trunc x ≤ (value.toNat : ℤ) := by
  rw [UInt32.le_iff_toNat_le, ← P.toNat_toUint32 h, Int.ofNat_le]

end Casts

/-! ### The range told and the range kept -/

section Range
variable {K : Type} [Field K] [LinearOrder K]

/-- A client's `SetSetting` of the frequency is a retune to it. -/
theorem handleSetSetting_iqFrequency (value : UInt32) (rest : List UInt8) :
    handleSetSetting (u32Bytes SettingType.iqFrequency ++ (u32Bytes value ++ rest)) = [.retune value] := by
  have hvalue : readU32 (u32Bytes SettingType.iqFrequency ++ (u32Bytes value ++ rest)) 4 = some value :=
    (readU32_skip (u32Bytes SettingType.iqFrequency) _ 0).trans (readU32_u32Bytes value rest)
  rw [handleSetSetting, readU32_u32Bytes, hvalue]
  rfl

/-- The retune to `value` is not refused. -/
def Accepts (T : Trig K) (vrx : VirtualReceiver K) (value : UInt32) : Prop :=
  ∃ vrx', vrx.retune T (value.toNat : K) = .ok vrx'

theorem accepts_iff (T : Trig K) (vrx : VirtualReceiver K) (value : UInt32) :
    Accepts T vrx value ↔ loLo vrx ≤ value.toNat ∧ (value.toNat : K) ≤ loHi vrx := by
  rw [Accepts, VirtualReceiver.retune, loLo, loHi, ← assertWithinSpan_ok]
  cases assertWithinSpan vrx.widebandCenterHz vrx.widebandSampleRateHz (value.toNat : K) with
  | error e =>
    refine iff_of_false ?_ (by simp)
    intro hp
    obtain ⟨_, h⟩ := hp
    cases h
  | ok _ => exact iff_of_true ⟨_, rfl⟩ rfl

variable [FloorRing K]

/-- What `handleHello` tells a client about the receiver's range is what `retune` accepts. -/
structure RangeAgrees (P : Platform K) (vrx : VirtualReceiver K) : Prop where
  lo_defined : CastDefined (loLo vrx)
  hi_defined : CastDefined (loHi vrx)
  deviceInfo : ∀ value, Accepts P.trig vrx value ↔
    (helloDeviceInfo P vrx).minimumFrequency ≤ value ∧ value ≤ (helloDeviceInfo P vrx).maximumFrequency
  clientSync : ∀ value, Accepts P.trig vrx value ↔
    (helloClientSync P vrx).minimumIqCenterFrequency ≤ value ∧
      value ≤ (helloClientSync P vrx).maximumIqCenterFrequency

variable [IsStrictOrderedRing K]

/-- Over a span that is not empty, what the two ends lose by their truncation is nothing a
client can ask for. -/
theorem rangeAgrees_iff_span (P : Platform K) (vrx : VirtualReceiver K) (h : loLo vrx < loHi vrx) :
    RangeAgrees P vrx ↔ -1 < loLo vrx ∧ 0 ≤ loHi vrx ∧ loHi vrx < 4294967296 ∧
      (loLo vrx ≤ 0 ∨ (⌊loLo vrx⌋ : K) = loLo vrx) := by
  constructor
  · intro hp
    obtain ⟨hlo, hhi, hagree, -⟩ := hp
    have hlo' := castDefined_iff.mp hlo
    have hhi' := castDefined_iff.mp hhi
    have hagree' : ∀ value : UInt32, (loLo vrx ≤ value.toNat ∧ (value.toNat : K) ≤ loHi vrx) ↔
        trunc (loLo vrx) ≤ value.toNat ∧ (value.toNat : ℤ) ≤ trunc (loHi vrx) := by
      intro value
      rw [← P.toUint32_le hlo, ← P.le_toUint32 hhi, ← accepts_iff P.trig]
      exact hagree value
    refine ⟨hlo'.1, ?_, hhi'.2, ?_⟩
    · -- Were the span below 0, a client would be told 0 for both ends.
      by_contra hneg
      rw [not_le] at hneg
      have hzero := hagree' 0
      rw [trunc_eq_zero hlo'.1 (h.trans hneg).le, trunc_eq_zero hhi'.1 hneg.le] at hzero
      have := (hzero.mpr ⟨le_refl _, le_refl _⟩).2
      exact absurd (this.trans_lt hneg) (by simp)
    · rcases le_or_gt (loLo vrx) 0 with hle | hpos
      · exact .inl hle
      · -- The whole hertz below the lower end is told.
        have hvalue := P.toNat_toUint32 hlo
        have htold : trunc (loLo vrx) ≤ trunc (loHi vrx) := by
          rw [trunc_of_nonneg hpos.le, trunc_of_nonneg (hpos.trans h).le]
          exact Int.floor_mono h.le
        have haccepted := ((hagree' (P.toUint32 (loLo vrx))).mpr ⟨hvalue.ge, hvalue.trans_le htold⟩).1
        rw [← Int.cast_natCast, hvalue, trunc_of_nonneg hpos.le] at haccepted
        exact .inr (le_antisymm (Int.floor_le _) haccepted)
  · intro hp
    obtain ⟨hlow, hhi₀, hhigh, hwhole⟩ := hp
    have hlo : CastDefined (loLo vrx) := castDefined_iff.mpr ⟨hlow, h.trans hhigh⟩
    have hhi : CastDefined (loHi vrx) := castDefined_iff.mpr ⟨by linarith, hhigh⟩
    have hagree : ∀ value : UInt32, Accepts P.trig vrx value ↔
        P.toUint32 (loLo vrx) ≤ value ∧ value ≤ P.toUint32 (loHi vrx) := by
      intro value
      rw [accepts_iff, P.toUint32_le hlo, P.le_toUint32 hhi]
      refine and_congr ?_ ?_
      · rcases le_or_gt (loLo vrx) 0 with hle | hpos
        · rw [trunc_eq_zero hlow hle]
          exact iff_of_true (hle.trans (Nat.cast_nonneg _)) (Int.natCast_nonneg _)
        · have hfloor := hwhole.resolve_left (not_le.mpr hpos)
          rw [trunc_of_nonneg hpos.le]
          conv_lhs => rw [← hfloor, ← Int.cast_natCast]
          exact Int.cast_le
      · rw [trunc_of_nonneg hhi₀, Int.le_floor, Int.cast_natCast]
    exact ⟨hlo, hhi, hagree, hagree⟩

/-- **After any run the range told is the range kept exactly when the span's ends are where
the casts are defined and the lower one, if above 0, is a whole number.** -/
theorem range_agrees_iff (P : Platform K) (cfg : VirtualReceiverConfig K) (center rate : K) (vrx₀ : VirtualReceiver K)
    (h : construct P.trig cfg center rate = .ok vrx₀) (hrate : 0 < rate) (events : List (VrxEvent K)) :
    ∃ vrx, (receiver P.trig).run vrx₀ events = some vrx ∧
      (RangeAgrees P vrx ↔ -1 < center - rate / 2 ∧ 0 ≤ center + rate / 2 ∧ center + rate / 2 < 4294967296 ∧
        (center - rate / 2 ≤ 0 ∨ (⌊center - rate / 2⌋ : K) = center - rate / 2)) := by
  obtain ⟨vrx, hrun, hvrx⟩ := (construct_located h).run events
  refine ⟨vrx, hrun, ?_⟩
  have hlo : loLo vrx = center - rate / 2 := by rw [loLo, hvrx.center_eq, hvrx.rate_eq]
  have hhi : loHi vrx = center + rate / 2 := by rw [loHi, hvrx.center_eq, hvrx.rate_eq]
  rw [rangeAgrees_iff_span P vrx (by rw [hlo, hhi]; linarith), hlo, hhi]

end Range

/-! ### Even and odd rates -/

/-- As wide as the capture, at its centre. -/
def wholeConfig (rate : ℚ) : VirtualReceiverConfig ℚ := ⟨"vrx", 1234, 5555, 100000000, rate⟩

theorem construct_whole {rate : ℚ} (hrate : 0 < rate) :
    ∃ vrx, construct Platform.sample.trig (wholeConfig rate) 100000000 rate = .ok vrx := by
  have hratio : rate / rate = 1 := div_self hrate.ne'
  have htrunc : trunc (1 : ℚ) = 1 := by norm_num [trunc]
  refine (construct_ok_iff Platform.sample.trig (wholeConfig rate) 100000000 rate).mpr ⟨⟨1, ?_, by decide⟩, ?_, ?_, ?_⟩
  · rw [wholeConfig, hratio]
    exact castInt_eq_some.mpr ⟨htrunc, by decide, by decide⟩
  · rw [wholeConfig, fmod, if_neg hrate.ne', hratio, htrunc]
    simp
  · show 100000000 - rate / 2 ≤ 100000000
    linarith
  · show 100000000 ≤ 100000000 + rate / 2
    linarith

/-- Three megahertz, after a retune to the lower edge. -/
theorem range_agrees_even : ∃ vrx₀ vrx, construct Platform.sample.trig (wholeConfig 3000000) 100000000 3000000 = .ok vrx₀ ∧
    (receiver Platform.sample.trig).run vrx₀ [.retune 98500000] = some vrx ∧ RangeAgrees Platform.sample vrx := by
  have hrate : (0 : ℚ) < 3000000 := by norm_num
  obtain ⟨vrx₀, h⟩ := construct_whole hrate
  obtain ⟨vrx, hrun, hiff⟩ :=
    range_agrees_iff Platform.sample (wholeConfig 3000000) 100000000 3000000 vrx₀ h hrate [.retune 98500000]
  refine ⟨vrx₀, vrx, h, hrun, hiff.mpr ⟨by norm_num, by norm_num, by norm_num, .inr ?_⟩⟩
  norm_num

/-- One hertz more: 98499999 is told to clients, and refused. -/
theorem range_disagrees_odd : ¬ ∀ (cfg : VirtualReceiverConfig ℚ) (center rate : ℚ) (vrx : VirtualReceiver ℚ),
    construct Platform.sample.trig cfg center rate = .ok vrx → 0 < rate → RangeAgrees Platform.sample vrx := by
  intro hall
  have hrate : (0 : ℚ) < 3000001 := by norm_num
  obtain ⟨vrx, h⟩ := construct_whole hrate
  have hagrees := hall _ _ _ vrx h hrate
  obtain ⟨-, -, -, -, hcenter, hwide, -⟩ := construct_ok _ h
  have hlo : loLo vrx = 98499999.5 := by
    rw [loLo, hcenter, hwide]
    norm_num
  have hhi : loHi vrx = 101500000.5 := by
    rw [loHi, hcenter, hwide]
    norm_num
  have hvalue : (98499999 : UInt32).toNat = 98499999 := rfl
  have htold := (hagrees.deviceInfo 98499999).mpr ⟨?_, ?_⟩
  · have haccepted := ((accepts_iff _ vrx _).mp htold).1
    rw [hlo, hvalue] at haccepted
    norm_num at haccepted
  · refine (Platform.sample.toUint32_le hagrees.lo_defined _).mpr ?_
    rw [hlo, hvalue]
    norm_num [trunc]
  · refine (Platform.sample.le_toUint32 hagrees.hi_defined _).mpr ?_
    rw [hhi, hvalue]
    norm_num [trunc]

end VrxServer.SpyServer
