import VrxServer.SdrPlay.Lifecycle
import VrxServer.SdrPlay.Setters

/-! Setters on a client without a device.

`update` returns at once when no device is selected, so that a setter without a device
would do nothing. But the pointer the setter has written through by then is only there
while a device is selected (`Resting`): before a connect, after a failed one and after a
close every setter crashes (`unselected_crashes`), and none gets as far as the guard. -/
namespace VrxServer.SdrPlay
open Base Config

/-- Between two calls a client has a block to write to exactly while it has a device, and a
device only in an open session. -/
structure Resting (c : Client) : Prop where
  params : c.deviceParams.isSome = c.deviceSelected
  opened : c.deviceSelected = true → c.opened = true

theorem Resting.deviceParams_none {c : Client} (h : Resting c) (hunselected : c.deviceSelected = false) :
    c.deviceParams = none := by
  rw [← Option.isNone_iff_eq_none, ← Option.not_isSome, h.params, hunselected]
  rfl

section
variable (V : Vendor) {s : Session}

/-! ### What connect and close leave behind -/

theorem acquireDevice_selects (hopened : s.client.opened = true) :
    Ends (acquireDevice V) s (fun _ t => t.client.opened = true ∧ t.client.deviceSelected = true)
      (fun _ t => t.client.opened = true) := by
  simp only [acquireDevice, ends_bind, Api.ends_log, ends_checkOrThrow, ends_get]
  refine ⟨fun _ => ⟨fun _ => ?_, fun _ => hopened⟩, fun _ => hopened⟩
  cases pickDevice s.client.cfg.serialNumber V.getDevices.2 with
  | error what => exact hopened
  | ok device =>
    simp only [ends_bind, Api.ends_update, Api.ends_log, ends_checkOrThrow]
    exact ⟨fun _ => ⟨hopened, trivial⟩, fun _ => hopened⟩

/-- Filling in the block needs one, and leaves one. -/
theorem configureInitialParams_block :
    Ends (configureInitialParams V) s
      (fun _ t => t.client.deviceParams.isSome = true ∧ t.client.opened = s.client.opened ∧
        t.client.deviceSelected = s.client.deviceSelected)
      (fun _ t => t.client.opened = s.client.opened) := by
  simp only [configureInitialParams, ends_bind, ends_get]
  cases decimationForSampleRate s.client.sampleRateHz with
  | none => exact rfl
  | some dec =>
    cases s.client.deviceParams with
    | none => exact rfl
    | some p => exact ⟨rfl, rfl, rfl⟩

theorem startStream_rests (hopened : s.client.opened = true) (hselected : s.client.deviceSelected = true) :
    Ends (startStream V) s (fun _ t => Resting t.client) (fun _ t => t.client.opened = true) := by
  simp only [startStream, ends_bind, Api.ends_log, Api.ends_update, ends_checkOrThrow]
  refine ⟨fun _ => ⟨fun _ => ?_, fun _ => hopened⟩, fun _ => hopened⟩
  refine (configureInitialParams_block V).mono ?_ fun _ t ht => ht.trans hopened
  intro _ t ht
  obtain ⟨hblock, ht, hkept⟩ := ht
  have hopen : t.client.opened = true := ht.trans hopened
  exact ⟨fun _ => ⟨hblock.trans (hkept.trans hselected).symm, fun _ => hopen⟩, fun _ => hopen⟩

/-- A close of an open session leaves no device and no block. -/
theorem close_rests_opened (hopened : s.client.opened = true) :
    Ends (close V) s (fun _ t => Resting t.client) (fun _ _ => False) := by
  simp only [close, closeOpened, ends_bind, ends_get, ends_ite, hopened, forall_const, not_true_eq_false,
    IsEmpty.forall_iff, and_true, Api.ends_log, Api.ends_update, ends_pure]
  have hrests : ∀ c : Client, c.deviceSelected = false →
      Resting {c with opened := false, deviceParams := none} := fun c hc => ⟨hc.symm, fun h => by rw [hc] at h; cases h⟩
  refine ⟨fun _ => ⟨fun _ => ?_, fun h => ?_⟩, fun _ => ⟨fun _ => ?_, fun h => ?_⟩⟩
  · exact hrests {s.client with initialized := false, deviceSelected := false} rfl
  · exact hrests {s.client with initialized := false} (by simpa using h)
  · exact hrests {s.client with deviceSelected := false} rfl
  · exact hrests s.client (by simpa using h)

theorem close_rests (h : Resting s.client) :
    Ends (close V) s (fun _ t => Resting t.client) (fun _ _ => False) := by
  cases hopened : s.client.opened with
  | true => exact close_rests_opened V hopened
  | false =>
    rw [Ends, close_closed V hopened]
    exact h

/-- A connect leaves the client resting, also one that throws. -/
theorem connect_rests (h : Resting s.client) :
    Ends (connect V) s (fun _ t => Resting t.client) (fun e t => ∀ what, e = .threw what → Resting t.client) := by
  simp only [connect, ends_bind, Api.ends_log, Api.ends_update, ends_checkOrThrow]
  refine ⟨fun _ => ?_, fun _ _ _ => h⟩
  refine Api.ends_catchThrow (Y := fun _ t => t.client.opened = true) ?_ ?_ (fun _ _ _ he => by cases he)
    (fun _ _ _ he => by cases he)
  · rw [ends_bind]
    refine (acquireDevice_selects V rfl).mono ?_ fun _ _ ht => ht
    intro _ t ht
    obtain ⟨hopened, hselected⟩ := ht
    exact startStream_rests V hopened hselected
  · intro what t hopened
    simp only [cleanup, ends_bind, ends_throw]
    exact (close_rests_opened V hopened).mono (fun _ _ ht _ _ => ht) fun _ _ ht => ht.elim

end

/-! ### Calls in any order -/

/-- A call of the client, and what the vendor's calls do in it. -/
inductive LiveCall where
  | connect (V : Vendor)
  | close (V : Vendor)
  | set (V : Vendor) (setter : Setter) (err : ℤ)

/-- A method of the session, the updates aside. -/
def onSession (x : Api Unit) : LiveApi Unit := fun s =>
  match x s.session with
  | .ok a t => .ok a {s with session := t}
  | .error e t => .error e {s with session := t}

def LiveCall.run : LiveCall → LiveApi Unit
  | .connect V => onSession (SdrPlay.connect V)
  | .close V => onSession (SdrPlay.close V)
  | .set V setter err => setter.run V err

/-- A client in use; `lost` from the call on that did not come back. -/
structure InUse where
  live : Live
  lost : Bool

namespace InUse

def construct (cfg : SdrplayConfig) (centerFrequencyHz sampleRateHz : ℚ) : InUse :=
  ⟨⟨⟨Client.construct cfg centerFrequencyHz sampleRateHz, []⟩, []⟩, false⟩

def after : EStateM.Result Stop Live Unit → InUse
  | .ok _ t => ⟨t, false⟩
  | .error (.threw _) t => ⟨t, false⟩
  | .error .hung t => ⟨t, true⟩
  | .error .crashed t => ⟨t, true⟩

def step (s : InUse) (call : LiveCall) : Option InUse :=
  if s.lost then none else some (after (call.run s.live))

def machine : Machine InUse LiveCall := ⟨step⟩

def Rests (s : InUse) : Prop := s.lost = false → Resting s.live.session.client

theorem rests_after {x : LiveApi Unit} {s : Live}
    (h : Ends x s (fun _ t => Resting t.session.client) (fun e t => ∀ what, e = .threw what → Resting t.session.client)) :
    Rests (after (x s)) := by
  cases hx : x s with
  | ok _ t => exact fun _ => h.of_ok hx
  | error e t =>
    have hthrew := h.of_error hx
    cases e with
    | threw what => exact fun _ => hthrew what rfl
    | hung => exact fun hlost => by cases hlost
    | crashed => exact fun hlost => by cases hlost

theorem ends_onSession {x : Api Unit} {s : Live} {Q : Client → Prop} {X : Stop → Client → Prop}
    (h : Ends x s.session (fun _ t => Q t.client) (fun e t => X e t.client)) :
    Ends (onSession x) s (fun _ t => Q t.session.client) (fun e t => X e t.session.client) := by
  unfold Ends at h ⊢
  unfold onSession
  cases hx : x s.session with
  | ok _ t => rw [hx] at h; exact h
  | error e t => rw [hx] at h; exact h

theorem rests_step (s : InUse) (call : LiveCall) (t : InUse) (h : s.Rests) (hstep : machine.step s call = some t) :
    t.Rests := by
  simp only [machine, step] at hstep
  split at hstep
  · cases hstep
  · next hlost =>
    obtain rfl := Option.some.inj hstep
    have hs : Resting s.live.session.client := h (by simpa using hlost)
    refine rests_after ?_
    cases call with
    | connect V =>
      exact ends_onSession (X := fun e c => ∀ what, e = .threw what → Resting c) (connect_rests V hs)
    | close V =>
      exact ends_onSession (X := fun e c => ∀ what, e = .threw what → Resting c)
        ((close_rests V hs).mono (fun _ _ ht => ht) fun _ _ ht => ht.elim)
    | set V setter err =>
      cases hp : s.live.session.client.deviceParams with
      | none =>
        show Ends (setter.run V err) s.live _ _
        rw [Ends, Setter.run_null V err setter hp]
        exact fun _ he => by cases he
      | some p =>
        refine (Setter.run_block V err setter hp).mono ?_ fun _ _ ht => ht.elim
        intro _ t ht
        obtain ⟨made, -, rfl⟩ := ht
        have hselected : s.live.session.client.deviceSelected = true := by
          rw [← hs.params, hp]
          rfl
        exact ⟨hselected.symm, hs.opened⟩

/-- The setter returns, and nothing has happened: no update, no write. -/
def Harmless (s : InUse) (V : Vendor) (setter : Setter) (err : ℤ) : Prop :=
  setter.run V err s.live = .ok () s.live

/-- **Without a device every setter crashes**, whatever was called before: the block it
writes to is not there either. -/
theorem unselected_crashes (cfg : SdrplayConfig) (centerFrequencyHz sampleRateHz : ℚ) (calls : List LiveCall)
    (s : InUse) (hrun : machine.run (construct cfg centerFrequencyHz sampleRateHz) calls = some s)
    (hlost : s.lost = false) (hunselected : s.live.session.client.deviceSelected = false)
    (V : Vendor) (setter : Setter) (err : ℤ) :
    s.live.session.client.deviceParams = none ∧ setter.run V err s.live = .error .crashed s.live ∧
      ¬ s.Harmless V setter err := by
  have hrests : s.Rests := machine.invariant rests_step hrun fun _ => ⟨rfl, fun h => by cases h⟩
  have hnull := (hrests hlost).deviceParams_none hunselected
  have hcrash := Setter.run_null V err setter hnull
  refine ⟨hnull, hcrash, ?_⟩
  rw [Harmless, hcrash]
  exact fun h => nomatch h

/-- A session with the sample device, from beginning to end. -/
def sampleSessionCalls : List LiveCall :=
  [.connect {sampleVendor [⟨"1812002F80", 4, 0, 0, none⟩] with init := 0}, .close (sampleVendor [])]

/-- After it is closed. -/
theorem unselected_crashes_closed : ∃ s, machine.run (construct SdrplayConfig.default 100000000 2000000)
      sampleSessionCalls = some s ∧ s.lost = false ∧
    s.live.session.client.deviceSelected = false ∧
    s.live.session.client.deviceParams = none ∧
      (Setter.retune 101000000).run (sampleVendor []) 0 s.live = .error .crashed s.live ∧
      ¬ s.Harmless (sampleVendor []) (.retune 101000000) 0 :=
  ⟨_, rfl, rfl, rfl, unselected_crashes SdrplayConfig.default 100000000 2000000 sampleSessionCalls _ rfl rfl rfl
    (sampleVendor []) (.retune 101000000) 0⟩

/-- A retune before the first connect. -/
theorem retune_before_connect : ¬ ∀ (cfg : SdrplayConfig) (centerFrequencyHz sampleRateHz : ℚ) (calls : List LiveCall)
    (s : InUse), machine.run (construct cfg centerFrequencyHz sampleRateHz) calls = some s → s.lost = false →
      s.live.session.client.deviceSelected = false → ∀ V setter err, s.Harmless V setter err := by
  intro hall
  have hok := hall SdrplayConfig.default 100000000 2000000 [] _ rfl rfl rfl (sampleVendor []) (.retune 101000000) 0
  rw [Harmless, Setter.run_null _ _ _ rfl] at hok
  cases hok

end InUse

end VrxServer.SdrPlay
