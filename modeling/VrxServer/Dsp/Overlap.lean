import VrxServer.Base.Trace
import VrxServer.Dsp.Requests

/-! Retunes that do not overlap are retunes in one step.

The statements of `retune` and the loads of `mixInPlace` are steps of their own, as in
`RetuneRace.step`, with the whole of `processWidebandChunk` behind the loads. Where no retune
begins to write before another is done, nor between a chunk's two loads, and no chunk begins to
load while a retune writes, the receiver has been through whole chunks and whole retunes: each
chunk as of its loads, and each retune as of its last store (`separate_atomic`). What is proved
about `VirtualReceiver.receiver` is about these runs, then. A retune may run beside the rest of
a chunk: it touches nothing the chunk still reads. -/
namespace VrxServer.Dsp
open Base Config

namespace VirtualReceiver

section
variable {K : Type}

def withRotation (v : VirtualReceiver K) (re im : K) : VirtualReceiver K :=
  {v with nco := {v.nco with rotationRe := re, rotationIm := im}}

/-- This receiver, tuned as the other one is. -/
def withTuning (v w : VirtualReceiver K) : VirtualReceiver K :=
  {v with
    centerFrequencyHz := w.centerFrequencyHz
    nco := {v.nco with rotationRe := w.nco.rotationRe, rotationIm := w.nco.rotationIm}}

/-- What a retune goes by is the same in both. -/
structure SameCapture (v w : VirtualReceiver K) : Prop where
  center : v.widebandCenterHz = w.widebandCenterHz
  rate : v.widebandSampleRateHz = w.widebandSampleRateHz
  ncoRate : v.nco.sampleRateHz = w.nco.sampleRateHz

theorem SameCapture.refl (v : VirtualReceiver K) : v.SameCapture v := ⟨rfl, rfl, rfl⟩

theorem SameCapture.trans {u v w : VirtualReceiver K} (h : u.SameCapture v) (h' : v.SameCapture w) : u.SameCapture w :=
  ⟨h.center.trans h'.center, h.rate.trans h'.rate, h.ncoRate.trans h'.ncoRate⟩

theorem SameCapture.symm {v w : VirtualReceiver K} (h : v.SameCapture w) : w.SameCapture v :=
  ⟨h.center.symm, h.rate.symm, h.ncoRate.symm⟩

end

variable {K : Type} [Field K] [LinearOrder K] [FloorRing K] (T : Trig K)

/-- `processWidebandChunk` behind the loads. It writes the phase and the decimator. -/
def chunkLoaded (v : VirtualReceiver K) (re im : K) (widebandIq : List (K × K)) :
    Option (Option (List UInt8) × VirtualReceiver K) := do
  let (outBuf, w) ← (v.withRotation re im).processWidebandChunk T widebandIq
  some (outBuf, w.withTuning v)

/-- The chunk an event processes, with what comes of it. -/
def processed (v : VirtualReceiver K) : VrxEvent K → List (List (K × K) × Option (List UInt8))
  | .chunk widebandIq => (v.processWidebandChunk T widebandIq).toList.map fun r => (widebandIq, r.1)
  | .retune _ => []

variable {T} {u v w : VirtualReceiver K}

/-- A chunk can always be processed. -/
theorem chunkLoaded_some (v : VirtualReceiver K) (re im : K) (iq : List (K × K)) :
    ∃ r, v.chunkLoaded T re im iq = some r := by
  obtain ⟨H, hH, -⟩ := exists_history (v.withRotation re im)
  obtain ⟨d, hw, -⟩ := handle_chunk T (v.withRotation re im) H iq hH
  obtain ⟨r, hr, -⟩ := Option.map_eq_some_iff.mp hw
  exact ⟨_, Option.bind_eq_some_iff.mpr ⟨r, hr, rfl⟩⟩

/-- A chunk goes by the rotation alone. -/
theorem process_center (v : VirtualReceiver K) (c : K) (iq : List (K × K)) :
    ({v with centerFrequencyHz := c} : VirtualReceiver K).processWidebandChunk T iq =
      (v.processWidebandChunk T iq).map fun r => (r.1, {r.2 with centerFrequencyHz := c}) := by
  simp only [processWidebandChunk]
  cases Decimator.process (Arith.exact K) v.decimator (interleave (v.nco.mixInPlace T iq).1) with
  | none => rfl
  | some r =>
    simp only [Option.bind_eq_bind, Option.bind_some]
    split <;> rfl

/-- A chunk leaves the tuning and what a retune goes by. -/
theorem process_same {iq : List (K × K)} {outBuf : Option (List UInt8)}
    (h : v.processWidebandChunk T iq = some (outBuf, w)) : w.withTuning v = w ∧ w.SameCapture v := by
  obtain ⟨⟨out, decimator⟩, -, hrest⟩ := Option.bind_eq_some_iff.mp h
  simp only at hrest
  split at hrest
  · obtain ⟨-, rfl⟩ := Prod.mk.inj (Option.some.inj hrest)
    exact ⟨rfl, rfl, rfl, rfl⟩
  · obtain ⟨-, rfl⟩ := Prod.mk.inj (Option.some.inj hrest)
    exact ⟨rfl, rfl, rfl, rfl⟩

/-- With nothing between them the loads and the rest are `processWidebandChunk`. -/
theorem chunkLoaded_eq (v : VirtualReceiver K) (iq : List (K × K)) :
    v.chunkLoaded T v.nco.rotationRe v.nco.rotationIm iq = v.processWidebandChunk T iq := by
  show (v.processWidebandChunk T iq).bind _ = _
  cases h : v.processWidebandChunk T iq with
  | none => rfl
  | some r =>
    obtain ⟨outBuf, w⟩ := r
    show some (outBuf, w.withTuning v) = _
    rw [(process_same h).1]

/-- A retune leaves what the next one goes by, and does to the tuning the same whatever else the
receiver has in it. -/
theorem handle_retune_tuning (hu : u.SameCapture v) {f : K} (h : handle T v (.retune f) = some w) :
    u.SameCapture w ∧ handle T (u.withTuning v) (.retune f) = some (u.withTuning w) := by
  have hspan : assertWithinSpan (u.withTuning v).widebandCenterHz (u.withTuning v).widebandSampleRateHz f =
      assertWithinSpan v.widebandCenterHz v.widebandSampleRateHz f := by
    show assertWithinSpan u.widebandCenterHz u.widebandSampleRateHz f = _
    rw [hu.center, hu.rate]
  rw [handle, retune_eq] at h
  rw [handle, retune_eq, hspan]
  cases hcheck : assertWithinSpan v.widebandCenterHz v.widebandSampleRateHz f with
  | error e =>
    rw [hcheck] at h
    obtain rfl := Option.some.inj h
    exact ⟨hu, rfl⟩
  | ok =>
    rw [hcheck] at h
    obtain rfl := Option.some.inj h
    refine ⟨⟨hu.center, hu.rate, hu.ncoRate⟩, ?_⟩
    simp only [Except.map, withTuning, setCenter, setRe, setIm, phaseOf, hu.center, hu.ncoRate]

theorem run_retunes_tuning (hu : u.SameCapture v) {fs : List K} (h : (receiver T).run v (fs.map .retune) = some w) :
    (receiver T).run (u.withTuning v) (fs.map .retune) = some (u.withTuning w) := by
  induction fs generalizing v with
  | nil =>
    obtain rfl := Option.some.inj h
    rfl
  | cons f fs ih =>
    obtain ⟨x, hx, hw⟩ := Option.bind_eq_some_iff.mp h
    obtain ⟨hsame, hstep⟩ := handle_retune_tuning hu hx
    rw [List.map_cons, Machine.run_cons]
    exact Option.bind_eq_some_iff.mpr ⟨_, hstep, ih hsame hw⟩

/-- Retunes are to the tuning, and process nothing. -/
theorem run_retunes {fs : List K} (h : (receiver T).run v (fs.map .retune) = some w) : v.withTuning w = w := by
  have htuning := run_retunes_tuning (SameCapture.refl v) h
  exact Option.some.inj (htuning.symm.trans h)

theorem trace_retunes (v : VirtualReceiver K) (fs : List K) :
    (receiver T).trace (processed T) v (fs.map .retune) = [] := by
  induction fs generalizing v with
  | nil => rfl
  | cons f fs ih =>
    rw [List.map_cons, Machine.trace_cons (handle_retune v f), ih]
    rfl

/-- **A chunk and the retunes behind it change places**, if the chunk keeps the rotation it had. -/
theorem run_chunk_retunes {iq : List (K × K)} {outBuf : Option (List UInt8)} {fs : List K}
    (hfs : (receiver T).run v (fs.map .retune) = some u) (h : v.processWidebandChunk T iq = some (outBuf, w)) :
    (receiver T).run v (.chunk iq :: fs.map .retune) = some (w.withTuning u) := by
  obtain ⟨htuning, hsame⟩ := process_same h
  have hchunk : (receiver T).step v (.chunk iq) = some w := by
    show handle T v (.chunk iq) = some w
    rw [handle, h]
    rfl
  have hretunes := run_retunes_tuning hsame hfs
  rw [htuning] at hretunes
  rw [Machine.run_cons, hchunk]
  exact hretunes

end VirtualReceiver

namespace RetunePc
variable {K : Type} [Field K] (T : Trig K)

/-- Between the first store and the last. -/
def writing : RetunePc K → Bool
  | .wroteCenter _ | .wroteRe _ => true
  | .idle | .checked _ => false

def asked : RetunePc K → Option K
  | .idle => none
  | .checked f | .wroteCenter f | .wroteRe f => some f

/-- What has been stored so far. -/
def stores (v : VirtualReceiver K) : RetunePc K → VirtualReceiver K
  | .idle | .checked _ => v
  | .wroteCenter f => v.setCenter f
  | .wroteRe f => (v.setCenter f).setRe T f

variable {T}

theorem stores_of_not_writing {pc : RetunePc K} (h : pc.writing = false) (v : VirtualReceiver K) :
    pc.stores T v = v := by
  cases pc with
  | idle | checked => rfl
  | wroteCenter | wroteRe => cases h

/-- The stores are to the tuning, by what a retune goes by. -/
theorem stores_withTuning (pc : RetunePc K) {u v : VirtualReceiver K} (h : u.SameCapture v) :
    pc.stores T (u.withTuning v) = u.withTuning (pc.stores T v) := by
  cases pc with
  | idle | checked | wroteCenter => rfl
  | wroteRe f =>
    simp only [stores, VirtualReceiver.withTuning, VirtualReceiver.setCenter, VirtualReceiver.setRe,
      VirtualReceiver.phaseOf, h.center, h.ncoRate]

theorem stores_capture (pc : RetunePc K) (v : VirtualReceiver K) : (pc.stores T v).SameCapture v := by
  cases pc <;> exact ⟨rfl, rfl, rfl⟩

end RetunePc

namespace RetuneRace
variable {K : Type} [Field K] [LinearOrder K] [FloorRing K] (T : Trig K)

def stepChunk (s : RetuneRace K) : RaceStep K → Option (RetuneRace K)
  | .mix widebandIq =>
    match s.mixer with
    | .loaded re im => do
      let (_, vrx) ← s.vrx.chunkLoaded T re im widebandIq
      some {s with vrx := vrx, mixer := .idle}
    | _ => none
  | l => s.step T l

def chunkMachine : Machine (RetuneRace K) (RaceStep K) := ⟨stepChunk T⟩

/-- The chunk a step ends, with what comes of it. -/
def processed (s : RetuneRace K) : RaceStep K → List (List (K × K) × Option (List UInt8))
  | .mix widebandIq =>
    match s.mixer with
    | .loaded re im => (s.vrx.chunkLoaded T re im widebandIq).toList.map fun r => (widebandIq, r.1)
    | _ => []
  | _ => []

omit [LinearOrder K] [FloorRing K] in
/-- The retune a step ends. -/
def retuned (s : RetuneRace K) : RaceStep K → List K
  | .setIm t => (s.threads t).asked.toList
  | _ => []

/-- No retune writes. -/
def Settled (s : RetuneRace K) : Prop := ∀ t, (s.threads t).writing = false

/-- A retune begins to write where no other writes and no chunk is between its loads, and a chunk
begins to load where no retune writes. -/
def Separate (s : RetuneRace K) : RaceStep K → Prop
  | .setCenter _ => s.Settled ∧ ∀ re f, s.mixer ≠ .gotRe re f
  | .loadRe => s.Settled
  | _ => True

variable {T}

theorem step_chunkMachine {s t : RetuneRace K} {iq : List (K × K)} (h : (chunkMachine T).step s (.mix iq) = some t) :
    ∃ re im outBuf vrx, s.mixer = .loaded re im ∧ s.vrx.chunkLoaded T re im iq = some (outBuf, vrx) ∧
      t = {s with vrx := vrx, mixer := .idle} := by
  simp only [chunkMachine, stepChunk] at h
  split at h
  · next re im hm =>
    obtain ⟨⟨outBuf, vrx⟩, hchunk, ht⟩ := Option.bind_eq_some_iff.mp h
    exact ⟨re, im, outBuf, vrx, hm, hchunk, (Option.some.inj ht).symm⟩
  · cases h

variable (T) in
/-- The whole chunks and retunes of a run from `v₀`, in an order that leads to `a`, and how far `a` is
from where the run is. -/
structure Atomic (v₀ : VirtualReceiver K) (events : List (VrxEvent K)) (a : VirtualReceiver K) (s : RetuneRace K) :
    Prop where
  run : (VirtualReceiver.receiver T).run v₀ events = some a
  accepted : ∀ t f, (s.threads t).asked = some f → s.accepted f
  /-- At most one retune writes. -/
  stored : ∃ t, (∀ u, u ≠ t → (s.threads u).writing = false) ∧ s.vrx = (s.threads t).stores T a
  loading : ∀ re f, s.mixer = .gotRe re f → s.Settled ∧ re = a.nco.rotationRe
  /-- Behind a chunk's loads there are retunes only. -/
  loaded : ∀ re im, s.mixer = .loaded re im → ∃ before b, ∃ fs : List K, events = before ++ fs.map .retune ∧
    (VirtualReceiver.receiver T).run v₀ before = some b ∧ b.nco.rotationRe = re ∧ b.nco.rotationIm = im

namespace Atomic
variable {v₀ a : VirtualReceiver K} {events : List (VrxEvent K)} {s t : RetuneRace K}

theorem capture (h : Atomic T v₀ events a s) : s.vrx.SameCapture a := by
  obtain ⟨t, -, hvrx⟩ := h.stored
  rw [hvrx]
  exact RetunePc.stores_capture _ a

/-- Where no retune writes, it is there. -/
theorem vrx_eq (h : Atomic T v₀ events a s) (hsettled : s.Settled) : s.vrx = a := by
  obtain ⟨t, -, hvrx⟩ := h.stored
  rw [hvrx]
  exact RetunePc.stores_of_not_writing (hsettled t) a

/-- The retune that writes is the one there is. -/
theorem vrx_of_writing (h : Atomic T v₀ events a s) {t : ℕ} (ht : (s.threads t).writing = true) :
    (∀ u, u ≠ t → (s.threads u).writing = false) ∧ s.vrx = (s.threads t).stores T a := by
  obtain ⟨n, hothers, hvrx⟩ := h.stored
  have hn : t = n := by
    by_contra hne
    rw [hothers t hne] at ht
    cases ht
  subst hn
  exact ⟨hothers, hvrx⟩

/-- A step that ends no chunk and no retune. -/
theorem go (h : Atomic T v₀ events a s) (hvrx : t.vrx.SameCapture a)
    (haccepted : ∀ n f, (t.threads n).asked = some f → s.accepted f)
    (hstored : ∃ n, (∀ u, u ≠ n → (t.threads u).writing = false) ∧ t.vrx = (t.threads n).stores T a)
    (hloading : ∀ re f, t.mixer = .gotRe re f → t.Settled ∧ re = a.nco.rotationRe)
    (hloaded : ∀ re im, t.mixer = .loaded re im →
      s.mixer = .loaded re im ∨ re = a.nco.rotationRe ∧ im = a.nco.rotationIm) :
    Atomic T v₀ events a t := by
  refine ⟨h.run, ?_, hstored, hloading, ?_⟩
  · intro n f hf
    have hok := haccepted n f hf
    rw [RetuneRace.accepted, h.capture.center, h.capture.rate] at hok
    rw [RetuneRace.accepted, hvrx.center, hvrx.rate]
    exact hok
  · intro re im hm
    rcases hloaded re im hm with hm | ⟨rfl, rfl⟩
    · exact h.loaded re im hm
    · exact ⟨events, a, [], (List.append_nil _).symm, h.run, rfl, rfl⟩

theorem request (h : Atomic T v₀ events a s) {n : ℕ} {param : UInt32}
    (hstep : (machine T).step s (.request n param) = some t) : Atomic T v₀ events a t := by
  simp only [machine, RetuneRace.step] at hstep
  split at hstep
  · next hn =>
    split at hstep
    · obtain rfl := Option.some.inj hstep
      exact h
    · next hcheck =>
      obtain rfl := Option.some.inj hstep
      have hwriting : ∀ u, (Function.update s.threads n (.checked param.toNat) u).writing = (s.threads u).writing := by
        intro u
        rw [Function.update_apply]
        split
        · next hu => rw [hu, hn]; rfl
        · rfl
      refine h.go h.capture ?_ ?_ ?_ fun _ _ hm => .inl hm
      · intro m f hf
        simp only [Function.update_apply] at hf
        split at hf
        · obtain rfl := Option.some.inj hf
          exact hcheck
        · exact h.accepted m f hf
      · obtain ⟨m, hothers, hvrx⟩ := h.stored
        refine ⟨m, fun u hu => (hwriting u).trans (hothers u hu), ?_⟩
        simp only [hvrx, Function.update_apply]
        split
        · next hm => rw [hm, hn]; rfl
        · rfl
      · intro re f hm
        obtain ⟨hsettled, hre⟩ := h.loading re f hm
        exact ⟨fun u => (hwriting u).trans (hsettled u), hre⟩
  · cases hstep

/-- A store of a retune that is not its last. -/
theorem store (h : Atomic T v₀ events a s) {n : ℕ} (pc : RetunePc K)
    (hasked : pc.asked = (s.threads n).asked) (hothers : ∀ u, u ≠ n → (s.threads u).writing = false)
    (hloading : ∀ re f, s.mixer ≠ .gotRe re f) (hthreads : t.threads = Function.update s.threads n pc)
    (hmixer : t.mixer = s.mixer) (hvrx : t.vrx = pc.stores T a) : Atomic T v₀ events a t := by
  refine h.go ?_ ?_ ⟨n, ?_, ?_⟩ ?_ ?_
  · rw [hvrx]
    exact RetunePc.stores_capture pc a
  · intro m f hf
    rw [hthreads, Function.update_apply] at hf
    split at hf
    · exact h.accepted n f (hasked ▸ hf)
    · exact h.accepted m f hf
  · intro u hu
    rw [hthreads, Function.update_of_ne hu]
    exact hothers u hu
  · rw [hvrx, hthreads, Function.update_self]
  · intro re f hm
    exact absurd (hmixer ▸ hm) (hloading re f)
  · intro re im hm
    exact .inl (hmixer ▸ hm)

/-- While a retune writes no chunk is between its loads. -/
theorem not_loading (h : Atomic T v₀ events a s) {n : ℕ} (hn : (s.threads n).writing = true) (re f : K) :
    s.mixer ≠ .gotRe re f := by
  intro hm
  rw [(h.loading re f hm).1 n] at hn
  cases hn

/-- With its last store a retune has happened. -/
theorem setIm (h : Atomic T v₀ events a s) {n : ℕ} (hstep : (machine T).step s (.setIm n) = some t) :
    ∃ f a', s.retuned (.setIm n) = [f] ∧ Atomic T v₀ (events ++ [.retune f]) a' t := by
  obtain ⟨f, hn, rfl⟩ := step_setIm hstep
  have hwriting : (s.threads n).writing = true := by rw [hn]; rfl
  obtain ⟨hothers, hvrx⟩ := h.vrx_of_writing hwriting
  have hasked : (s.threads n).asked = some f := by rw [hn]; rfl
  have haccepted := h.accepted n f hasked
  have hretune : (VirtualReceiver.receiver T).step a (.retune f) = some (((a.setCenter f).setRe T f).setIm T f) := by
    rw [RetuneRace.accepted, h.capture.center, h.capture.rate] at haccepted
    show VirtualReceiver.handle T a (.retune f) = _
    rw [VirtualReceiver.handle, VirtualReceiver.retune_eq, haccepted]
    rfl
  rw [hn] at hvrx
  refine ⟨f, ((a.setCenter f).setRe T f).setIm T f, by rw [retuned, hasked]; rfl, ?_, ?_, ?_, ?_, ?_⟩
  · rw [Machine.run_concat, h.run]
    exact hretune
  · intro m g hg
    simp only [Function.update_apply] at hg
    split at hg
    · cases hg
    · exact h.accepted m g hg
  · refine ⟨n, ?_, ?_⟩
    · intro u hu
      simp only [Function.update_of_ne hu]
      exact hothers u hu
    · simp only [Function.update_self]
      exact congrArg (VirtualReceiver.setIm T · f) hvrx
  · intro re g hm
    exact absurd hm (h.not_loading hwriting re g)
  · intro re im hm
    obtain ⟨before, b, fs, rfl, hb⟩ := h.loaded re im hm
    exact ⟨before, b, fs ++ [f], by rw [List.map_append, List.append_assoc]; rfl, hb⟩

/-- With the end of a chunk it has happened, at its loads. -/
theorem mix (h : Atomic T v₀ events a s) {iq : List (K × K)} (hstep : (chunkMachine T).step s (.mix iq) = some t) :
    ∃ before b outBuf b', ∃ fs : List K, ∃ a', events = before ++ fs.map .retune ∧
      (VirtualReceiver.receiver T).run v₀ before = some b ∧ b.processWidebandChunk T iq = some (outBuf, b') ∧
      s.processed T (.mix iq) = [(iq, outBuf)] ∧ Atomic T v₀ (before ++ .chunk iq :: fs.map .retune) a' t := by
  obtain ⟨re, im, outBuf, vrx, hm, hchunk, rfl⟩ := step_chunkMachine hstep
  obtain ⟨before, b, fs, rfl, hb, rfl, rfl⟩ := h.loaded re im hm
  have hprocessed : s.processed T (.mix iq) = [(iq, outBuf)] := by
    simp only [processed, hm, hchunk]
    rfl
  have hfs : (VirtualReceiver.receiver T).run b (fs.map .retune) = some a := by
    have hrun := h.run
    rwa [Machine.run_append, hb] at hrun
  have ha : b.withTuning a = a := VirtualReceiver.run_retunes hfs
  have hba : b.SameCapture a := by
    rw [← ha]
    exact ⟨rfl, rfl, rfl⟩
  obtain ⟨n, hothers, hvrx⟩ := h.stored
  -- the receiver is the one the chunk loaded from, but for its tuning
  have hsame : s.vrx = b.withTuning s.vrx := by
    rw [hvrx, ← RetunePc.stores_withTuning _ hba, ha]
  obtain ⟨⟨outBuf', w⟩, hprocess, hw⟩ := Option.bind_eq_some_iff.mp hchunk
  obtain ⟨rfl, rfl⟩ := Prod.mk.inj (Option.some.inj hw)
  have hloaded : s.vrx.withRotation b.nco.rotationRe b.nco.rotationIm =
      {b with centerFrequencyHz := s.vrx.centerFrequencyHz} := by
    conv_lhs => rw [hsame]
    rfl
  rw [hloaded, VirtualReceiver.process_center] at hprocess
  obtain ⟨⟨outBuf, b'⟩, hb', hw⟩ := Option.map_eq_some_iff.mp hprocess
  obtain ⟨rfl, rfl⟩ := Prod.mk.inj hw
  obtain ⟨-, hcapture⟩ := VirtualReceiver.process_same hb'
  refine ⟨before, b, outBuf, b', fs, b'.withTuning a, rfl, hb, hb', hprocessed, ?_, ?_, ?_, nofun, nofun⟩
  · rw [Machine.run_append, hb]
    exact VirtualReceiver.run_chunk_retunes hfs hb'
  · intro m f hf
    have hspan := (hcapture.trans hba).trans h.capture.symm
    have hok := h.accepted m f hf
    rw [RetuneRace.accepted] at hok ⊢
    show VirtualReceiver.assertWithinSpan b'.widebandCenterHz b'.widebandSampleRateHz f = _
    rw [hspan.center, hspan.rate]
    exact hok
  · refine ⟨n, hothers, ?_⟩
    rw [RetunePc.stores_withTuning _ (hcapture.trans hba), ← hvrx]
    rfl

variable (T v₀ events) in
/-- The events go on with the chunk or the retune that a step ends. -/
def GoesOn (s : RetuneRace K) (l : RaceStep K) (t : RetuneRace K) : Prop :=
  ∃ events' a', Atomic T v₀ events' a' t ∧
    (VirtualReceiver.receiver T).trace (VirtualReceiver.processed T) v₀ events' =
      (VirtualReceiver.receiver T).trace (VirtualReceiver.processed T) v₀ events ++ s.processed T l ∧
    events'.filterMap VrxEvent.requested = events.filterMap VrxEvent.requested ++ s.retuned l

/-- A step that ends neither leaves them as they are. -/
theorem goesOn_nothing {l : RaceStep K} (h : Atomic T v₀ events a t) (hprocessed : s.processed T l = [])
    (hretuned : s.retuned l = []) : GoesOn T v₀ events s l t := by
  refine ⟨events, a, h, ?_, ?_⟩
  · rw [hprocessed, List.append_nil]
  · rw [hretuned, List.append_nil]

/-- **A step that does not overlap another's work ends a chunk, a retune or nothing**, and the events go on with it. -/
theorem step (h : Atomic T v₀ events a s) {l : RaceStep K} (hseparate : s.Separate l)
    (hstep : (chunkMachine T).step s l = some t) : GoesOn T v₀ events s l t := by
  cases l with
  | request n param => exact goesOn_nothing (h.request hstep) rfl rfl
  | setCenter n =>
    obtain ⟨hsettled, hloading⟩ := hseparate
    obtain ⟨f, hn, rfl⟩ := step_setCenter (T := T) hstep
    refine goesOn_nothing (h.store (.wroteCenter f) ?_ (fun u _ => hsettled u) hloading rfl rfl ?_) rfl rfl
    · rw [hn]
      rfl
    · exact congrArg (VirtualReceiver.setCenter · f) (h.vrx_eq hsettled)
  | setRe n =>
    obtain ⟨f, hn, rfl⟩ := step_setRe (T := T) hstep
    have hwriting : (s.threads n).writing = true := by rw [hn]; rfl
    obtain ⟨hothers, hvrx⟩ := h.vrx_of_writing hwriting
    refine goesOn_nothing (h.store (.wroteRe f) ?_ hothers (h.not_loading hwriting) rfl rfl ?_) rfl rfl
    · rw [hn]
      rfl
    · rw [hn] at hvrx
      exact congrArg (VirtualReceiver.setRe T · f) hvrx
  | setIm n =>
    obtain ⟨f, a', hretuned, ht⟩ := h.setIm hstep
    refine ⟨_, a', ht, ?_, ?_⟩
    · have htrace := VirtualReceiver.trace_retunes (T := T) a [f]
      rw [Machine.trace_append h.run]
      exact congrArg _ htrace
    · rw [List.filterMap_append, hretuned]
      rfl
  | loadRe =>
    obtain rfl := step_loadRe (T := T) hstep
    refine goesOn_nothing (h.go h.capture h.accepted h.stored ?_ nofun) rfl rfl
    rintro re f hm
    obtain ⟨rfl, rfl⟩ := Mixer.gotRe.inj hm
    exact ⟨hseparate, by rw [h.vrx_eq hseparate]⟩
  | loadIm =>
    obtain ⟨re, f, hm, rfl⟩ := step_loadIm (T := T) hstep
    obtain ⟨hsettled, hre⟩ := h.loading re f hm
    refine goesOn_nothing (h.go h.capture h.accepted h.stored nofun ?_) rfl rfl
    rintro re' im hm'
    obtain ⟨rfl, rfl⟩ := Mixer.loaded.inj hm'
    exact .inr ⟨hre, by rw [h.vrx_eq hsettled]⟩
  | mix iq =>
    obtain ⟨before, b, outBuf, b', fs, a', rfl, hb, hb', hprocessed, ht⟩ := h.mix hstep
    have hchunk : (VirtualReceiver.receiver T).step b (.chunk iq) = some b' := by
      show VirtualReceiver.handle T b (.chunk iq) = _
      rw [VirtualReceiver.handle, hb']
      rfl
    refine ⟨_, a', ht, ?_, ?_⟩
    · rw [Machine.trace_append hb, Machine.trace_append hb, Machine.trace_cons hchunk,
        VirtualReceiver.trace_retunes, VirtualReceiver.trace_retunes, hprocessed, VirtualReceiver.processed, hb']
      simp
    · have hretuned : s.retuned (.mix iq) = [] := rfl
      rw [List.filterMap_append, List.filterMap_append, hretuned, List.append_nil]
      rfl

end Atomic

theorem atomic_initial (v₀ : VirtualReceiver K) : Atomic T v₀ [] v₀ (initial v₀) :=
  ⟨rfl, nofun, ⟨0, fun _ _ => rfl, rfl⟩, nofun, nofun⟩

/-- What a run comes to. -/
theorem atomic_run {v₀ : VirtualReceiver K} {steps : List (RaceStep K)} {s : RetuneRace K}
    (hseparate : (chunkMachine T).Allowed Separate (initial v₀) steps)
    (hrun : (chunkMachine T).run (initial v₀) steps = some s) : ∃ events a, Atomic T v₀ events a s ∧
      (VirtualReceiver.receiver T).trace (VirtualReceiver.processed T) v₀ events =
        (chunkMachine T).trace (processed T) (initial v₀) steps ∧
      events.filterMap VrxEvent.requested = (chunkMachine T).trace retuned (initial v₀) steps := by
  induction steps using List.reverseRecOn generalizing s with
  | nil =>
    obtain rfl := Option.some.inj hrun
    exact ⟨[], v₀, atomic_initial v₀, rfl, rfl⟩
  | append_singleton steps l ih =>
    have hprefix : steps <+: steps ++ [l] := List.prefix_append _ _
    rw [Machine.run_concat] at hrun
    obtain ⟨u, hu, hstep⟩ := Option.bind_eq_some_iff.mp hrun
    obtain ⟨events, a, hatomic, hprocessed, hretuned⟩ :=
      ih (fun done m t w hdone => hseparate done m t w (hdone.trans hprefix)) hu
    obtain ⟨events', a', hatomic', hprocessed', hretuned'⟩ :=
      hatomic.step (hseparate steps l u s (List.prefix_refl _) hu hstep) hstep
    refine ⟨events', a', hatomic', ?_, ?_⟩
    · rw [hprocessed', hprocessed, Machine.trace_append hu, Machine.trace_cons hstep]
      exact congrArg _ (List.append_nil _).symm
    · rw [hretuned', hretuned, Machine.trace_append hu, Machine.trace_cons hstep]
      exact congrArg _ (List.append_nil _).symm

/-- **A run of retunes that do not overlap is one of whole retunes and whole chunks**: wherever no
retune writes, the receiver is where these lead, in an order that keeps that of the retunes'
ends and that of the chunks; and of every chunk comes what comes of it there. So it is tuned to
the frequency of the last retune that has ended. -/
theorem separate_atomic (v₀ : VirtualReceiver K) (steps : List (RaceStep K)) (s : RetuneRace K)
    (hseparate : (chunkMachine T).Allowed Separate (initial v₀) steps)
    (hrun : (chunkMachine T).run (initial v₀) steps = some s) (hsettled : s.Settled) :
    (∃ events, (VirtualReceiver.receiver T).run v₀ events = some s.vrx ∧
        (VirtualReceiver.receiver T).trace (VirtualReceiver.processed T) v₀ events =
          (chunkMachine T).trace (processed T) (initial v₀) steps ∧
        events.filterMap VrxEvent.requested = (chunkMachine T).trace retuned (initial v₀) steps) ∧
      ∀ center rate, v₀.Located T center rate → s.vrx.Located T center rate ∧
        s.vrx.centerFrequencyHz = (((chunkMachine T).trace retuned (initial v₀) steps).filter
          (VirtualReceiver.inSpan center rate)).getLast?.getD v₀.centerFrequencyHz := by
  obtain ⟨events, a, hatomic, hprocessed, hretuned⟩ := atomic_run hseparate hrun
  rw [hatomic.vrx_eq hsettled]
  refine ⟨⟨events, hatomic.run, hprocessed, hretuned⟩, fun center rate hlocated => ?_⟩
  rw [← hretuned]
  exact hlocated.last_requested hatomic.run

/-- A retune beside the rest of a chunk. -/
def besideChunk : List (RaceStep ℚ) :=
  [.loadRe, .loadIm, .request 0 100000500, .setCenter 0, .mix (List.replicate 8 (1, 0)), .setRe 0, .setIm 0]

theorem separate_besideChunk :
    (chunkMachine Trig.coarse).Allowed Separate (initial VirtualReceiver.sample) besideChunk := by
  refine Machine.allowed_cons.mpr fun s₁ h₁ => ⟨fun _ => rfl, ?_⟩
  have hs₁ := step_loadRe (T := Trig.coarse) (s := initial VirtualReceiver.sample) h₁
  refine Machine.allowed_cons.mpr fun s₂ h₂ => ⟨trivial, ?_⟩
  obtain ⟨re, f, -, hs₂⟩ := step_loadIm (T := Trig.coarse) (s := s₁) h₂
  refine Machine.allowed_cons.mpr fun s₃ h₃ => ⟨trivial, ?_⟩
  obtain ⟨-, hs₃⟩ := step_request (T := Trig.coarse) (s := s₂) h₃
  refine Machine.allowed_cons.mpr fun s₄ _ => ⟨?_, ?_⟩
  · subst hs₁ hs₂
    rcases hs₃ with rfl | rfl
    · exact ⟨fun _ => rfl, nofun⟩
    · refine ⟨fun u => ?_, nofun⟩
      simp only [Function.update_apply]
      split <;> rfl
  · apply Machine.allowed_of_forall
    intro l hl t
    simp only [List.mem_cons, List.not_mem_nil, or_false] at hl
    rcases hl with rfl | rfl | rfl <;> trivial

theorem run_besideChunk :
    ∃ s, (chunkMachine Trig.coarse).run (initial VirtualReceiver.sample) besideChunk = some s ∧ s.Settled := by
  have hspan : VirtualReceiver.assertWithinSpan (100000000 : ℚ) 2000000 100000500 = .ok () :=
    VirtualReceiver.assertWithinSpan_ok.mpr (by norm_num)
  have hparam : (((100000500 : UInt32).toNat : ℕ) : ℚ) = 100000500 := by
    rw [show (100000500 : UInt32).toNat = 100000500 from rfl]
    norm_num
  simp only [besideChunk, Machine.run_cons, chunkMachine, stepChunk, RetuneRace.step, initial, VirtualReceiver.sample,
    Option.bind_some, hparam, hspan, Function.update_self, Option.bind_eq_bind]
  generalize hchunk : VirtualReceiver.chunkLoaded Trig.coarse _ _ _ _ = chunk
  obtain ⟨r, rfl⟩ : ∃ r, chunk = some r := by
    rw [← hchunk]
    exact VirtualReceiver.chunkLoaded_some _ _ _ _
  refine ⟨_, rfl, fun u => ?_⟩
  simp only [Function.update_apply]
  split <;> rfl

/-- The chunk is as of its loads, before the retune. -/
theorem separate_atomic_beside : ∃ s, (chunkMachine Trig.coarse).run (initial VirtualReceiver.sample) besideChunk = some s ∧
    ∃ events, (VirtualReceiver.receiver Trig.coarse).run VirtualReceiver.sample events = some s.vrx ∧
      (VirtualReceiver.receiver Trig.coarse).trace (VirtualReceiver.processed Trig.coarse) VirtualReceiver.sample events =
        (chunkMachine Trig.coarse).trace (processed Trig.coarse) (initial VirtualReceiver.sample) besideChunk := by
  obtain ⟨s, hs, hsettled⟩ := run_besideChunk
  obtain ⟨⟨events, hevents, hprocessed, -⟩, -⟩ := separate_atomic _ _ s separate_besideChunk hs hsettled
  exact ⟨s, hs, events, hevents, hprocessed⟩

end RetuneRace

end VrxServer.Dsp
