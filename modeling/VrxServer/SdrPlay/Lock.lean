import VrxServer.SdrPlay.Client

/-! The device-API lock over a failed connect.

`connect` takes the cross-process lock to enumerate and select a device and gives it back
right after. Its error path only closes the session: whatever fails while the lock is
held leaves it held (`connect_releases_iff`), and whatever fails before or after does not. -/
namespace VrxServer.SdrPlay
open Base Config

/-! ### What the log says is held -/

/-- A successful lock takes it; an unlock gives it back, whatever it returns. -/
def Call.locks (held : Bool) : Call → Bool
  | .lockDeviceApi err => held || err == 0
  | .unlockDeviceApi _ => false
  | _ => held

def Call.opens (isOpen : Bool) : Call → Bool
  | .apiOpen err => isOpen || err == 0
  | .apiClose => false
  | _ => isOpen

/-- This process holds the device-API lock. -/
def Session.lockHeld (s : Session) : Bool := s.calls.foldl Call.locks false

/-- This process has the API session open. -/
def Session.sessionOpen (s : Session) : Bool := s.calls.foldl Call.opens false

@[simp] theorem lockHeld_log (c : Client) (calls : List Call) (call : Call) :
    Session.lockHeld ⟨c, calls ++ [call]⟩ = call.locks (Session.lockHeld ⟨c, calls⟩) := by
  simp [Session.lockHeld]

@[simp] theorem sessionOpen_log (c : Client) (calls : List Call) (call : Call) :
    Session.sessionOpen ⟨c, calls ++ [call]⟩ = call.opens (Session.sessionOpen ⟨c, calls⟩) := by
  simp [Session.sessionOpen]

/-- The client has no part in what is held. -/
@[simp] theorem lockHeld_client (s : Session) (c : Client) : Session.lockHeld ⟨c, s.calls⟩ = s.lockHeld := rfl

theorem lockHeld_congr {s t : Session} (h : t.calls = s.calls) : t.lockHeld = s.lockHeld := by
  rw [Session.lockHeld, h, Session.lockHeld]

variable (V : Vendor)

/-! ### What each part of a connect does to the lock -/

/-- The enumeration and the selection both succeed. -/
def Selects (serialNumber : Option String) : Prop :=
  V.getDevices.1 = 0 ∧ ∃ device, pickDevice serialNumber V.getDevices.2 = .ok device ∧
    (V.selectDevice (singleTuner device)).1 = 0

/-- The device is acquired, or the first failure decides: the lock is held unless it was
the lock itself that failed. -/
theorem acquireDevice_ends (s : Session) (hfree : s.lockHeld = false) :
    Ends (acquireDevice V) s
      (fun _ t => V.lockDeviceApi = 0 ∧ Selects V s.client.cfg.serialNumber ∧ t.client.opened = s.client.opened)
      (fun e t => (∃ what, e = .threw what) ∧ ¬ (V.lockDeviceApi = 0 ∧ Selects V s.client.cfg.serialNumber) ∧
        t.lockHeld = (V.lockDeviceApi == 0) ∧ t.client.opened = s.client.opened) := by
  simp only [acquireDevice, ends_bind, Api.ends_log, ends_checkOrThrow, ends_get, lockHeld_log, lockHeld_client,
    Call.locks, hfree, Bool.false_or, and_true]
  refine ⟨fun hlock => ⟨fun hdevices => ?_, fun hdevices => ?_⟩, fun hlock => ?_⟩
  · cases hpick : pickDevice s.client.cfg.serialNumber V.getDevices.2 with
    | error what =>
      simp only [ends_throw, lockHeld_log, Call.locks, hfree, Bool.false_or, and_true]
      refine ⟨⟨_, rfl⟩, ?_⟩
      intro hp
      obtain ⟨-, -, device, hdevice, -⟩ := hp
      rw [hpick] at hdevice
      cases hdevice
    | ok device =>
      simp only [ends_bind, Api.ends_update, Api.ends_log, ends_checkOrThrow, lockHeld_log, lockHeld_client,
        Call.locks, hfree, Bool.false_or, and_true]
      refine ⟨fun hselect => ⟨hlock, hdevices, device, hpick, hselect⟩, fun hselect => ⟨⟨_, rfl⟩, ?_⟩⟩
      intro hp
      obtain ⟨-, -, device', hdevice, hselect'⟩ := hp
      obtain rfl := Except.ok.inj (hpick.symm.trans hdevice)
      exact hselect hselect'
  · exact ⟨⟨_, rfl⟩, fun h => hdevices h.2.1⟩
  · exact ⟨⟨_, rfl⟩, fun h => hlock h.1⟩

/-- Writing the parameter block makes no call. -/
theorem configureInitialParams_ends (s : Session) :
    Ends (configureInitialParams V) s (fun _ t => t.calls = s.calls ∧ t.client.opened = s.client.opened)
      (fun _ t => t.calls = s.calls ∧ t.client.opened = s.client.opened) := by
  simp only [configureInitialParams, ends_bind, ends_get]
  cases decimationForSampleRate s.client.sampleRateHz with
  | none => exact ⟨rfl, rfl⟩
  | some dec =>
    cases s.client.deviceParams with
    | none => exact ⟨rfl, rfl⟩
    | some p => exact ⟨rfl, rfl⟩

/-- The unlock comes first: from there on the lock is not held, however it goes on. -/
theorem startStream_ends (s : Session) :
    Ends (startStream V) s (fun _ _ => True)
      (fun _ t => t.lockHeld = false ∧ t.client.opened = s.client.opened) := by
  simp only [startStream, ends_bind, Api.ends_log, Api.ends_update, ends_checkOrThrow, lockHeld_log, Call.locks,
    and_true, implies_true, true_and]
  refine fun _ _ => (configureInitialParams_ends V _).mono ?_ ?_
  · intro _ t hp _
    obtain ⟨hcalls, hopened⟩ := hp
    exact ⟨(lockHeld_congr hcalls).trans (by simp only [lockHeld_log, Call.locks]), hopened⟩
  · intro _ t hp
    obtain ⟨hcalls, hopened⟩ := hp
    exact ⟨(lockHeld_congr hcalls).trans (by simp only [lockHeld_log, Call.locks]), hopened⟩

/-- Closing an open session closes it, and lets the lock be as it is. -/
theorem close_ends (s : Session) (hopened : s.client.opened = true) :
    Ends (close V) s (fun _ t => t.lockHeld = s.lockHeld ∧ t.sessionOpen = false) (fun _ _ => False) := by
  simp only [close, closeOpened, ends_bind, ends_get, ends_ite, hopened, forall_const, not_true_eq_false,
    IsEmpty.forall_iff, and_true, Api.ends_log, Api.ends_update, ends_pure, lockHeld_log, lockHeld_client,
    sessionOpen_log, Call.locks, Call.opens, implies_true]

/-- The error path closes the session and lets the lock be. -/
theorem cleanup_ends (what : String) (s : Session) (hopened : s.client.opened = true) :
    Ends (cleanup V what) s (fun _ _ => False)
      (fun e t => e = .threw what ∧ t.lockHeld = s.lockHeld ∧ t.sessionOpen = false) := by
  simp only [cleanup, ends_bind, ends_throw, true_and]
  exact (close_ends V s hopened).mono (fun _ _ h => h) (fun _ _ h => h.elim)

/-- The inputs a connect leaves the lock held on. -/
def Leaks (serialNumber : Option String) : Prop :=
  V.apiOpen = 0 ∧ V.lockDeviceApi = 0 ∧ ¬ Selects V serialNumber

/-- How a connect ends: with the session closed and the lock as the inputs say if it
throws, and with an exception on all the inputs that leave the lock held. -/
theorem connect_ends (s : Session) (hfree : s.lockHeld = false) (hsession : s.sessionOpen = false) :
    Ends (connect V) s (fun _ _ => ¬ Leaks V s.client.cfg.serialNumber) fun e t =>
      (Leaks V s.client.cfg.serialNumber → ∃ what, e = .threw what) ∧
        ∀ what, e = .threw what →
          t.sessionOpen = false ∧ (t.lockHeld = true ↔ Leaks V s.client.cfg.serialNumber) := by
  simp only [connect, ends_bind, Api.ends_log, Api.ends_update, ends_checkOrThrow]
  refine ⟨fun hopen => ?_, fun hopen => ⟨fun _ => ⟨_, rfl⟩, fun _ _ => ?_⟩⟩
  · refine Api.ends_catchThrow (Y := fun e t => t.client.opened = true ∧
      (t.lockHeld = true ↔ Leaks V s.client.cfg.serialNumber) ∧
      (Leaks V s.client.cfg.serialNumber → ∃ what, e = .threw what)) ?_ ?_ ?_ ?_
    · rw [ends_bind]
      refine (acquireDevice_ends V _ (by simp [Call.locks, hfree])).mono ?_ ?_
      · intro _ t hp
        obtain ⟨-, hselects, ht⟩ := hp
        have hkeeps : ¬ Leaks V s.client.cfg.serialNumber := fun h => h.2.2 hselects
        refine (startStream_ends V t).mono (fun _ _ _ => hkeeps) ?_
        intro _ u hp
        obtain ⟨hu, hopened⟩ := hp
        exact ⟨hopened.trans ht, iff_of_false (by simp [hu]) hkeeps, fun h => absurd h hkeeps⟩
      · intro _ t hp
        obtain ⟨hthrew, hfails, hheld, ht⟩ := hp
        refine ⟨ht, ?_, fun _ => hthrew⟩
        rw [hheld, beq_iff_eq]
        exact ⟨fun hlock => ⟨hopen, hlock, fun h => hfails ⟨hlock, h⟩⟩, fun h => h.2.1⟩
    · intro what t hp
      obtain ⟨hopened, hheld, -⟩ := hp
      refine (cleanup_ends V what t hopened).mono (fun _ _ h => h.elim) ?_
      intro _ u hp
      obtain ⟨hthrew, hlock, hclosed⟩ := hp
      exact ⟨fun _ => ⟨what, hthrew⟩, fun _ _ => ⟨hclosed, hlock ▸ hheld⟩⟩
    · intro t hp
      obtain ⟨-, -, hthrew⟩ := hp
      exact ⟨hthrew, fun _ h => by cases h⟩
    · intro t hp
      obtain ⟨-, -, hthrew⟩ := hp
      exact ⟨hthrew, fun _ h => by cases h⟩
  · refine ⟨?_, iff_of_false ?_ fun h => hopen h.1⟩
    · simp [Call.opens, hsession, hopen]
    · simp [Call.locks, hfree]

/-! ### The lock after a failure -/

/-- A connect that throws has given back the lock and closed the session. -/
def Releases (s : Session) : Prop :=
  ∀ what t, connect V s = .error (.threw what) t → t.lockHeld = false ∧ t.sessionOpen = false

/-- **A failed connect releases what it acquired exactly when the session does not open,
the lock is refused, or a device is enumerated, found and selected.** -/
theorem connect_releases_iff (s : Session) (hfree : s.lockHeld = false) (hsession : s.sessionOpen = false) :
    Releases V s ↔ V.apiOpen ≠ 0 ∨ V.lockDeviceApi ≠ 0 ∨ Selects V s.client.cfg.serialNumber := by
  have hends := connect_ends V s hfree hsession
  have hleaks : Leaks V s.client.cfg.serialNumber ↔
      ¬ (V.apiOpen ≠ 0 ∨ V.lockDeviceApi ≠ 0 ∨ Selects V s.client.cfg.serialNumber) := by
    simp only [Leaks, not_or, not_not, ne_eq]
  constructor
  · intro h
    by_contra hcond
    have hleak := hleaks.mpr hcond
    cases hrun : connect V s with
    | ok _ t => exact hends.of_ok hrun hleak
    | error e t =>
      obtain ⟨hthrew, hstate⟩ := hends.of_error hrun
      obtain ⟨what, rfl⟩ := hthrew hleak
      have hheld := (hstate what rfl).2.mpr hleak
      rw [(h what t hrun).1] at hheld
      cases hheld
  · intro hcond what t hrun
    obtain ⟨-, hstate⟩ := hends.of_error hrun
    obtain ⟨hclosed, hheld⟩ := hstate what rfl
    refine ⟨?_, hclosed⟩
    rw [← Bool.not_eq_true, hheld, hleaks]
    exact not_not.mpr hcond

/-- A vendor library with these devices attached, whose stream does not start. -/
def sampleVendor (devices : List Device) : Vendor where
  apiOpen := 0
  lockDeviceApi := 0
  getDevices := (0, devices)
  selectDevice device := (0, {device with dev := some 1})
  unlockDeviceApi := 0
  getDeviceParams := (0, some ⟨⟨0, 0, 0, 0⟩, ⟨0, 0, 0, 0, 0, 0, 0, 0, 0, 0, 0, 0, 0, 0, 0, 0, 0, 0⟩⟩)
  init := 1
  uninit := 0
  releaseDevice := 0
  getErrorString _ := "sdrplay_api_Fail"
  castLnaState n := n % 256
  castDecimationFactor n := n % 256
  castAntennaSel n := n

def sampleSession : Session := ⟨Client.construct SdrplayConfig.default 100000000 2000000, []⟩

/-- With no device attached, a fresh client's connect throws and the lock stays held. -/
theorem connect_no_device : ¬ ∀ (V : Vendor) (s : Session), s.lockHeld = false → s.sessionOpen = false →
    Releases V s := by
  intro h
  have hheld := (h (sampleVendor []) sampleSession rfl rfl _ _ rfl).1
  exact absurd hheld (by decide)

/-- The condition met: a device is selected, and only then does the connect fail. -/
theorem connect_init_fails : Releases (sampleVendor [⟨"1812002F80", 4, 0, 0, none⟩]) sampleSession :=
  (connect_releases_iff _ _ rfl rfl).mpr (.inr (.inr ⟨rfl, _, rfl, rfl⟩))

end VrxServer.SdrPlay
