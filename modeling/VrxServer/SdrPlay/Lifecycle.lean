import VrxServer.Base.Nesting
import VrxServer.SdrPlay.Lock

/-! The life of a client: connects, closes and a destruction, in any order.

A session is three things acquired one inside the other: the API session, the device and
the stream. Each method takes the client from one number of them to another (`Holds`),
whichever of its calls fails, and every call it makes on the way keeps to the nesting; so
the log of a whole life is balanced (`lifecycle_balanced`). -/
namespace VrxServer.SdrPlay
open Base Config Nesting

inductive Resource where
  | session
  | device
  | stream
  deriving DecidableEq

/-- The stream is Init's, on the device of SelectDevice, in the session of Open. -/
def Resource.order : List Resource := [.stream, .device, .session]

def Call.mark : Call → Mark Resource
  | .apiOpen err => .acquire .session (err == 0)
  | .selectDevice err => .acquire .device (err == 0)
  | .init err => .acquire .stream (err == 0)
  | .uninit _ => .release .stream
  | .releaseDevice _ => .release .device
  | .apiClose => .release .session
  | .lockDeviceApi _ | .getDevices _ | .unlockDeviceApi _ | .getDeviceParams _ => .other

/-- What this process holds, going by the calls made; `none` where one broke the nesting. -/
def Session.holding (s : Session) : Option (Holding Resource) :=
  (machine Resource.order).run Holding.nothing (s.calls.map Call.mark)

theorem nodup_order : Resource.order.Nodup := by decide

/-- The client and the log agree that this is held. -/
structure Holds (held : List Resource) (s : Session) : Prop where
  holding : s.holding = some ⟨held, false⟩
  opened : s.client.opened = decide (.session ∈ held)
  deviceSelected : s.client.deviceSelected = decide (.device ∈ held)
  initialized : s.client.initialized = decide (.stream ∈ held)
  dev : .device ∈ held → s.client.device.dev ≠ none

namespace Holds

theorem suffix {held : List Resource} {s : Session} (h : Holds held s) : held <:+ Resource.order := by
  have hin : InOrder Resource.order (⟨held, false⟩ : Holding Resource) :=
    (machine Resource.order).invariant inOrder_step h.holding List.nil_suffix
  exact hin

/-- What can be held: nothing, or up to the session, the device or the stream. -/
theorem cases {held : List Resource} {s : Session} (h : Holds held s) :
    held = [] ∨ held = [.session] ∨ held = [.device, .session] ∨ held = Resource.order := by
  have hsuffix := h.suffix
  simp only [Resource.order, List.suffix_cons_iff, List.suffix_nil] at hsuffix
  tauto

/-- A change of the client that keeps the flags. -/
theorem client {held : List Resource} {s : Session} (h : Holds held s) {c : Client}
    (hopened : c.opened = decide (.session ∈ held)) (hselected : c.deviceSelected = decide (.device ∈ held))
    (hinitialized : c.initialized = decide (.stream ∈ held)) (hdev : .device ∈ held → c.device.dev ≠ none) :
    Holds held {s with client := c} := ⟨h.holding, hopened, hselected, hinitialized, hdev⟩

/-- Calls the nesting allows, and the flags that go with them. -/
theorem calls {held held' : List Resource} {s : Session} (h : Holds held s) {c : Client} {made : List Call}
    (hmade : (machine Resource.order).run ⟨held, false⟩ (made.map Call.mark) = some ⟨held', false⟩)
    (hopened : c.opened = decide (.session ∈ held')) (hselected : c.deviceSelected = decide (.device ∈ held'))
    (hinitialized : c.initialized = decide (.stream ∈ held')) (hdev : .device ∈ held' → c.device.dev ≠ none) :
    Holds held' ⟨c, s.calls ++ made⟩ where
  holding := by
    have hholding : (machine Resource.order).run Holding.nothing (s.calls.map Call.mark) = some ⟨held, false⟩ := h.holding
    rw [Session.holding, List.map_append, Machine.run_append, hholding]
    exact hmade
  opened := hopened
  deviceSelected := hselected
  initialized := hinitialized
  dev := hdev

/-- A call that acquires nothing and gives nothing back. -/
theorem log {held : List Resource} {s : Session} (h : Holds held s) (call : Call)
    (hcall : next Resource.order ⟨held, false⟩ call.mark = some ⟨held, false⟩) :
    Holds held {s with calls := s.calls ++ [call]} :=
  h.calls (Option.bind_eq_some_iff.mpr ⟨_, hcall, rfl⟩) h.opened h.deviceSelected h.initialized h.dev

end Holds

variable (V : Vendor)

/-- A device that is selected has a handle. -/
def Vendor.HandsOver : Prop :=
  ∀ device, (V.selectDevice device).1 = 0 → (V.selectDevice device).2.dev ≠ none

/-! ### What each method does to what is held -/

theorem acquireDevice_holds (hV : V.HandsOver) {s : Session} (h : Holds [.session] s) :
    Ends (acquireDevice V) s (fun _ t => Holds [.device, .session] t) (fun _ t => Holds [.session] t) := by
  simp only [acquireDevice, ends_bind, Api.ends_log, ends_checkOrThrow, ends_get]
  have hlock := h.log (.lockDeviceApi V.lockDeviceApi) rfl
  have hdevices := hlock.log (.getDevices V.getDevices.1) rfl
  refine ⟨fun _ => ⟨fun _ => ?_, fun _ => hdevices⟩, fun _ => hlock⟩
  cases pickDevice s.client.cfg.serialNumber V.getDevices.2 with
  | error what => exact hdevices
  | ok device =>
    simp only [ends_bind, Api.ends_update, Api.ends_log, ends_checkOrThrow]
    refine ⟨fun hselect => ?_, fun hselect => ?_⟩
    · refine hdevices.calls ?_ hdevices.opened rfl hdevices.initialized fun _ => hV _ hselect
      rw [hselect]
      rfl
    · have hfound := hdevices.client (c := {s.client with device := (V.selectDevice (singleTuner device)).2})
        hdevices.opened hdevices.deviceSelected hdevices.initialized (by simp)
      refine hfound.log _ ?_
      simp only [Call.mark, beq_eq_false_iff_ne.mpr hselect]
      rfl

/-- Writing the parameter block changes nothing that is held. -/
theorem configureInitialParams_holds {held : List Resource} {s : Session} (h : Holds held s) :
    Ends (configureInitialParams V) s (fun _ t => Holds held t) (fun _ t => Holds held t) := by
  simp only [configureInitialParams, ends_bind, ends_get]
  cases decimationForSampleRate s.client.sampleRateHz with
  | none => exact h
  | some dec =>
    cases s.client.deviceParams with
    | none => exact h
    | some p => exact h.client h.opened h.deviceSelected h.initialized h.dev

theorem startStream_holds {s : Session} (h : Holds [.device, .session] s) :
    Ends (startStream V) s (fun _ t => Holds Resource.order t) (fun _ t => Holds [.device, .session] t) := by
  simp only [startStream, ends_bind, Api.ends_log, Api.ends_update, ends_checkOrThrow]
  have hunlock := h.log (.unlockDeviceApi V.unlockDeviceApi) rfl
  have hparams := hunlock.log (.getDeviceParams V.getDeviceParams.1) rfl
  refine ⟨fun _ => ⟨fun _ => ?_, fun _ => hparams⟩, fun _ => hunlock⟩
  have hblock := hparams.client (c := {s.client with deviceParams := V.getDeviceParams.2}) hparams.opened
    hparams.deviceSelected hparams.initialized hparams.dev
  refine (configureInitialParams_holds V hblock).mono ?_ fun _ _ ht => ht
  intro _ t ht
  refine ⟨fun hinit => ?_, fun hinit => ?_⟩
  · refine ht.calls ?_ ht.opened ht.deviceSelected rfl fun _ => ht.dev (by decide)
    rw [hinit]
    rfl
  · refine ht.log _ ?_
    simp only [Call.mark, beq_eq_false_iff_ne.mpr hinit]
    rfl

/-- A close of a client with nothing open does nothing. -/
theorem close_closed {s : Session} (hopened : s.client.opened = false) : close V s = .ok () s := by
  show (if s.client.opened = true then closeOpened V else pure ()) s = _
  rw [if_neg (by simp [hopened])]
  rfl

/-- A close leaves nothing held, whatever was. -/
theorem close_holds {held : List Resource} {s : Session} (h : Holds held s) :
    Ends (close V) s (fun _ t => Holds [] t) (fun _ _ => False) := by
  simp only [close, closeOpened, ends_bind, ends_get, ends_ite, Api.ends_log, Api.ends_update, ends_pure]
  rcases h.cases with rfl | rfl | rfl | rfl
  · have hopened : s.client.opened = false := h.opened
    simp only [hopened, Bool.false_eq_true, IsEmpty.forall_iff, not_false_eq_true, forall_const, true_and]
    exact h
  · have hopened : s.client.opened = true := h.opened
    have hselected : s.client.deviceSelected = false := h.deviceSelected
    have hinitialized : s.client.initialized = false := h.initialized
    simp only [hopened, hselected, hinitialized, Bool.false_eq_true, false_and, IsEmpty.forall_iff, forall_const,
      not_false_eq_true, not_true_eq_false, true_and, and_true]
    exact h.calls rfl rfl rfl rfl (by simp)
  · have hopened : s.client.opened = true := h.opened
    have hselected : s.client.deviceSelected = true := h.deviceSelected
    have hinitialized : s.client.initialized = false := h.initialized
    simp only [hopened, hselected, hinitialized, Bool.false_eq_true, false_and, IsEmpty.forall_iff, forall_const,
      not_false_eq_true, not_true_eq_false, true_and, and_true, List.append_assoc]
    exact h.calls rfl rfl rfl rfl (by simp)
  · have hopened : s.client.opened = true := h.opened
    have hselected : s.client.deviceSelected = true := h.deviceSelected
    have hinitialized : s.client.initialized = true := h.initialized
    have hdev : s.client.device.dev ≠ none := h.dev (by decide)
    simp only [hopened, hselected, hinitialized, hdev, and_self, IsEmpty.forall_iff, forall_const,
      not_false_eq_true, not_true_eq_false, and_true, List.append_assoc, ne_eq]
    exact h.calls rfl rfl rfl rfl (by simp)

theorem cleanup_holds (what : String) {held : List Resource} {s : Session} (h : Holds held s) :
    Ends (cleanup V what) s (fun _ _ => False) (fun _ t => Holds [] t) := by
  simp only [cleanup, ends_bind, ends_throw]
  exact (close_holds V h).mono (fun _ _ ht => ht) (fun _ _ ht => ht.elim)

/-- A connect ends with all of it held or, if it throws, nothing; only one that never
comes back stays on the way. -/
theorem connect_holds (hV : V.HandsOver) {s : Session} (h : Holds [] s) :
    Ends (connect V) s (fun _ t => Holds Resource.order t)
      (fun e t => ∃ held, Holds held t ∧ ∀ what, e = .threw what → held = []) := by
  simp only [connect, ends_bind, Api.ends_log, Api.ends_update, ends_checkOrThrow]
  refine ⟨fun hopen => ?_, fun hopen => ?_⟩
  · have hopened : Holds [.session] ⟨{s.client with opened := true}, s.calls ++ [.apiOpen V.apiOpen]⟩ := by
      refine h.calls ?_ rfl h.deviceSelected h.initialized (by simp)
      rw [hopen]
      rfl
    refine Api.ends_catchThrow (Y := fun _ t => ∃ held, Holds held t) ?_ ?_ ?_ ?_
    · rw [ends_bind]
      refine (acquireDevice_holds V hV hopened).mono ?_ fun _ t ht => ⟨_, ht⟩
      intro _ t ht
      exact (startStream_holds V ht).mono (fun _ _ hu => hu) fun _ _ hu => ⟨_, hu⟩
    · intro what t hp
      obtain ⟨held, ht⟩ := hp
      exact (cleanup_holds V what ht).mono (fun _ _ hu => hu.elim) fun _ _ hu => ⟨[], hu, fun _ _ => rfl⟩
    · intro t hp
      obtain ⟨held, ht⟩ := hp
      exact ⟨held, ht, fun _ he => by cases he⟩
    · intro t hp
      obtain ⟨held, ht⟩ := hp
      exact ⟨held, ht, fun _ he => by cases he⟩
  · refine ⟨[], h.log _ ?_, fun _ _ => rfl⟩
    simp only [Call.mark, beq_eq_false_iff_ne.mpr hopen]
    rfl

/-- The destructor: a close whose exceptions are swallowed. -/
def destruct : Api Unit := Api.catchThrow (close V) fun _ => pure ()

theorem destruct_holds {held : List Resource} {s : Session} (h : Holds held s) :
    Ends (destruct V) s (fun _ t => Holds [] t) (fun _ _ => False) :=
  Api.ends_catchThrow (close_holds V h) (fun _ _ ht => ht.elim) (fun _ ht => ht) (fun _ ht => ht)

/-! ### The stream -/

/-- A call may start the stream or end it. -/
def Call.streams (streaming : Bool) : Call → Bool
  | .init err => streaming || err == 0
  | .uninit err => streaming && err != 0
  | _ => streaming

/-- The driver calls back: an Init has succeeded, and no Uninit since. -/
def Session.streams (s : Session) : Bool := s.calls.foldl Call.streams false

def Call.uninitFails : Call → Bool
  | .uninit err => err != 0
  | _ => false

def Session.uninitFailed (s : Session) : Bool := s.calls.any Call.uninitFails

/-- Up to Init nothing streams. -/
theorem acquireDevice_streams {s : Session} (h : s.streams = false) :
    Ends (acquireDevice V) s (fun _ t => t.streams = false) (fun _ t => t.streams = false) := by
  rw [Session.streams] at h
  simp only [acquireDevice, ends_bind, Api.ends_log, ends_checkOrThrow, ends_get]
  cases pickDevice s.client.cfg.serialNumber V.getDevices.2 with
  | error what => simp [Session.streams, Call.streams, h, ends_throw]
  | ok device => simp [Session.streams, Call.streams, h, ends_bind, Api.ends_update]

theorem configureInitialParams_calls (s : Session) :
    Ends (configureInitialParams V) s (fun _ t => t.calls = s.calls) (fun _ t => t.calls = s.calls) := by
  simp only [configureInitialParams, ends_bind, ends_get]
  cases decimationForSampleRate s.client.sampleRateHz with
  | none => rfl
  | some dec =>
    cases s.client.deviceParams with
    | none => rfl
    | some p => rfl

theorem startStream_streams {s : Session} (h : s.streams = false) :
    Ends (startStream V) s (fun _ _ => True) (fun _ t => t.streams = false) := by
  rw [Session.streams] at h
  simp only [startStream, ends_bind, Api.ends_log, Api.ends_update, ends_checkOrThrow]
  refine ⟨fun _ => ⟨fun _ => ?_, fun _ => by simp [Session.streams, Call.streams, h]⟩,
    fun _ => by simp [Session.streams, Call.streams, h]⟩
  refine (configureInitialParams_calls V _).mono ?_ ?_
  · intro _ t ht
    refine ⟨fun _ => trivial, fun hinit => ?_⟩
    simp [Session.streams, ht, Call.streams, h, hinit]
  · intro _ t ht
    simp [Session.streams, ht, Call.streams, h]

/-- A close ends what streams, unless its Uninit fails. -/
theorem close_streams {held : List Resource} {s : Session} (h : Holds held s)
    (hs : s.streams = true → .stream ∈ held ∨ s.uninitFailed = true) :
    Ends (close V) s (fun _ t => t.streams = true → t.uninitFailed = true) (fun _ _ => True) := by
  by_cases hstream : .stream ∈ held
  · have hinitialized : s.client.initialized = true := h.initialized.trans (decide_eq_true hstream)
    have hall : held = Resource.order := by
      rcases h.cases with rfl | rfl | rfl | rfl
      · simp at hstream
      · simp at hstream
      · simp at hstream
      · rfl
    subst hall
    have hopened : s.client.opened = true := h.opened
    have hselected : s.client.deviceSelected = true := h.deviceSelected
    have hdev : s.client.device.dev ≠ none := h.dev (by decide)
    simp [close, closeOpened, ends_bind, ends_get, ends_ite, ends_pure, Session.streams, Session.uninitFailed,
      Call.streams, Call.uninitFails, hopened, hselected, hinitialized, hdev]
    tauto
  · have hinitialized : s.client.initialized = false := h.initialized.trans (decide_eq_false hstream)
    have hs' := fun hstreams => (hs hstreams).resolve_left hstream
    rw [Session.streams, Session.uninitFailed, List.any_eq_true] at hs'
    simp [close, closeOpened, ends_bind, ends_get, ends_ite, ends_pure, Session.streams, Session.uninitFailed,
      Call.streams, hinitialized]
    exact ⟨fun _ => ⟨fun _ hon => .inl (.inl (hs' hon)), fun _ hon => .inl (hs' hon)⟩, fun _ => hs'⟩

/-- Where nothing streams, a close starts nothing. -/
theorem close_quiet {s : Session} (h : s.streams = false) :
    Ends (close V) s (fun _ t => t.streams = false) (fun _ t => t.streams = false) := by
  rw [Session.streams] at h
  simp [close, closeOpened, ends_bind, ends_get, ends_ite, ends_pure, Session.streams, Call.streams, h]

/-- A connect that throws leaves nothing streaming. -/
theorem connect_streams {s : Session} (h : s.streams = false) :
    Ends (connect V) s (fun _ _ => True) (fun e t => ∀ what, e = .threw what → t.streams = false) := by
  simp only [connect, ends_bind, Api.ends_log, Api.ends_update, ends_checkOrThrow]
  have hopened : ∀ c, (Session.mk c (s.calls ++ [.apiOpen V.apiOpen])).streams = false := by
    intro c
    rw [Session.streams, List.foldl_append]
    exact h
  refine ⟨fun _ => ?_, fun _ _ _ => hopened _⟩
  refine Api.ends_catchThrow (Y := fun _ t => t.streams = false) ?_ ?_ (fun _ _ _ he => by cases he)
    fun _ _ _ he => by cases he
  · rw [ends_bind]
    refine (acquireDevice_streams V (hopened _)).mono ?_ fun _ _ ht => ht
    exact fun _ _ ht => startStream_streams V ht
  · intro what t ht
    simp only [cleanup, ends_bind, ends_throw]
    exact (close_quiet V ht).mono (fun _ _ hu _ _ => hu) fun _ _ hu _ _ => hu

/-! ### A whole life -/

inductive Phase where
  | live
  | destroyed
  /-- A method has not come back: it hangs, or it took the process with it. -/
  | lost
  deriving DecidableEq

/-- A client from its construction on. -/
structure Life where
  session : Session
  phase : Phase

/-- A method that is called, and what the vendor's calls do in it. -/
inductive LifeOp where
  | connect (V : Vendor)
  | close (V : Vendor)
  | destroy (V : Vendor)

def LifeOp.vendor : LifeOp → Vendor
  | .connect V | .close V | .destroy V => V

namespace Life

def construct (cfg : SdrplayConfig) (centerFrequencyHz sampleRateHz : ℚ) : Life :=
  ⟨⟨Client.construct cfg centerFrequencyHz sampleRateHz, []⟩, .live⟩

/-- After a method that leaves the client in this phase, if it comes back. -/
def after (phase : Phase) : EStateM.Result Stop Session Unit → Life
  | .ok _ t => ⟨t, phase⟩
  | .error (.threw _) t => ⟨t, phase⟩
  | .error .hung t => ⟨t, .lost⟩
  | .error .crashed t => ⟨t, .lost⟩

/-- `connect` is only called while no session is open. -/
def step (s : Life) : LifeOp → Option Life
  | .connect V =>
    if s.phase = .live ∧ s.session.client.opened = false then some (after .live (connect V s.session)) else none
  | .close V => if s.phase = .live then some (after .live (close V s.session)) else none
  | .destroy V => if s.phase = .live then some (after .destroyed (destruct V s.session)) else none

def machine : Machine Life LifeOp := ⟨step⟩

/-- Something is held, and nothing after destruction. -/
def Sound (s : Life) : Prop := ∃ held, Holds held s.session ∧ (s.phase = .destroyed → held = [])

theorem sound_after {x : Api Unit} {s : Session} {held : List Resource} {phase : Phase}
    (h : Ends x s (fun _ t => Holds held t) (fun e t => ∃ held', Holds held' t ∧ ∀ what, e = .threw what → held' = []))
    (hphase : phase = .destroyed → held = []) : Sound (after phase (x s)) := by
  cases hx : x s with
  | ok _ t => exact ⟨held, h.of_ok hx, hphase⟩
  | error e t =>
    obtain ⟨held', ht, hthrew⟩ := h.of_error hx
    cases e with
    | threw what => exact ⟨held', ht, fun _ => hthrew what rfl⟩
    | hung => exact ⟨held', ht, fun hp => by cases hp⟩
    | crashed => exact ⟨held', ht, fun hp => by cases hp⟩

theorem sound_step (s : Life) (op : LifeOp) (t : Life) (h : s.Sound) (hV : op.vendor.HandsOver)
    (hstep : machine.step s op = some t) : t.Sound := by
  obtain ⟨held, hs, -⟩ := h
  cases op with
  | connect V =>
    simp only [machine, step] at hstep
    split at hstep
    · next hcond =>
      obtain rfl := Option.some.inj hstep
      have hheld : held = [] := by
        have hopened := hs.opened
        rw [hcond.2] at hopened
        rcases hs.cases with rfl | rfl | rfl | rfl
        · rfl
        · cases hopened
        · cases hopened
        · cases hopened
      subst hheld
      exact sound_after (connect_holds V hV hs) fun hp => by cases hp
    · cases hstep
  | close V =>
    simp only [machine, step] at hstep
    split at hstep
    · obtain rfl := Option.some.inj hstep
      exact sound_after ((close_holds V hs).mono (fun _ _ ht => ht) fun _ _ ht => ht.elim) fun _ => rfl
    · cases hstep
  | destroy V =>
    simp only [machine, step] at hstep
    split at hstep
    · obtain rfl := Option.some.inj hstep
      exact sound_after ((destruct_holds V hs).mono (fun _ _ ht => ht) fun _ _ ht => ht.elim) fun _ => rfl
    · cases hstep

theorem sound_run {cfg : SdrplayConfig} {centerFrequencyHz sampleRateHz : ℚ} {ops : List LifeOp} {s : Life}
    (hops : ∀ op ∈ ops, op.vendor.HandsOver)
    (hrun : machine.run (construct cfg centerFrequencyHz sampleRateHz) ops = some s) : s.Sound := by
  have hallowed : machine.Allowed (fun _ op => op.vendor.HandsOver) (construct cfg centerFrequencyHz sampleRateHz) ops :=
    fun _ op _ _ hdone _ _ => hops op (hdone.subset (by simp))
  have hconstruct : (construct cfg centerFrequencyHz sampleRateHz).Sound :=
    ⟨[], ⟨rfl, rfl, rfl, rfl, fun h => by simp at h⟩, fun _ => rfl⟩
  exact Machine.always_of_allowed sound_step hconstruct hallowed ops s (List.prefix_refl _) hrun

/-- The session lifecycle is balanced. -/
structure Balanced (s : Life) : Prop where
  /-- One flag is only set with the one below it. -/
  nested : (s.session.client.initialized = true → s.session.client.deviceSelected = true) ∧
    (s.session.client.deviceSelected = true → s.session.client.opened = true)
  /-- Between an acquisition and the next Open or the destruction it is given back, once; and
  all that is given back there is given back in order. -/
  matched : ∀ a call b r, s.session.calls = a ++ call :: b → call.mark = .acquire r true →
    (s.phase = .destroyed ∨ ∃ c ∈ b, (Call.mark c).asksFor .session = true) →
      (givenBack .session (b.map Call.mark)).count r = 1 ∧ givenBack .session (b.map Call.mark) <:+ Resource.order
  /-- Nothing is given back that is not outstanding. -/
  released : ∀ a call b r, s.session.calls = a ++ call :: b → call.mark = .release r →
    outstanding r (a.map Call.mark) = true
  /-- A close with nothing open makes no call and changes nothing. -/
  silent : s.session.client.opened = false → ∀ V, close V s.session = .ok () s.session

/-- **Every life of a client is balanced**, whatever the vendor's calls return. -/
theorem lifecycle_balanced (cfg : SdrplayConfig) (centerFrequencyHz sampleRateHz : ℚ) (ops : List LifeOp) (s : Life)
    (hops : ∀ op ∈ ops, op.vendor.HandsOver)
    (hrun : machine.run (construct cfg centerFrequencyHz sampleRateHz) ops = some s) : s.Balanced := by
  obtain ⟨held, hs, hdestroyed⟩ := sound_run hops hrun
  have hlog : (Nesting.machine Resource.order).run Holding.nothing (s.session.calls.map Call.mark) =
      some ⟨held, false⟩ := hs.holding
  refine ⟨?_, ?_, ?_, ?_⟩
  · rw [hs.opened, hs.deviceSelected, hs.initialized]
    rcases hs.cases with rfl | rfl | rfl | rfl <;> decide
  · intro a call b r hcalls hcall hends
    rw [hcalls, List.map_append, List.map_cons, hcall] at hlog
    refine given_back nodup_order rfl hlog (hends.imp hdestroyed ?_)
    intro hp
    obtain ⟨c, hc, hasks⟩ := hp
    exact ⟨c.mark, List.mem_map_of_mem hc, hasks⟩
  · intro a call b r hcalls hcall
    rw [hcalls, List.map_append, List.map_cons, hcall] at hlog
    exact outstanding_of_release nodup_order hlog
  · exact fun hopened V => close_closed V hopened

/-- The sample device, its stream starting the first time it is connected and not the second. -/
def sampleOps : List LifeOp :=
  let devices : List Device := [⟨"1812002F80", 4, 0, 0, none⟩]
  [.connect {sampleVendor devices with init := 0}, .close (sampleVendor devices), .connect (sampleVendor devices),
    .destroy (sampleVendor devices)]

theorem sampleOps_handsOver : ∀ op ∈ sampleOps, op.vendor.HandsOver := by
  have hdev : ∀ device : Device, ({device with dev := some 1} : Device).dev ≠ none := fun _ h => by cases h
  intro op hop
  simp only [sampleOps, List.mem_cons, List.not_mem_nil, or_false] at hop
  rcases hop with rfl | rfl | rfl | rfl <;> exact fun device _ => hdev device

/-- A life with two connects is balanced, and over. -/
theorem lifecycle_balanced_twice : ∃ s, machine.run (construct SdrplayConfig.default 100000000 2000000) sampleOps =
    some s ∧ s.session.calls.length = 19 ∧ s.phase = .destroyed ∧ s.Balanced :=
  ⟨_, rfl, rfl, rfl, lifecycle_balanced SdrplayConfig.default 100000000 2000000 sampleOps _ sampleOps_handsOver rfl⟩

end Life

end VrxServer.SdrPlay
