import VrxServer.Main.Broadcast
import VrxServer.Main.Fanout

/-! From the upstream link to the clients of a receiver.

Between two calls of the upstream's callback a receiver's clients have been sent all that
came of the chunks so far. Over any stretch in which nobody asks the receiver for a
frequency, a client that takes all it is sent gets, chunk by chunk, the bytes of the
upstream's signal turned by the tuned frequency, run through the taps and rounded
(`delivered`), whatever its other clients and the other receivers' do. -/
namespace VrxServer.Main
open Base Config Dsp
open SpyServer (Platform)

namespace Channel
section
variable {K : Type} [Field K] [LinearOrder K] [FloorRing K] {P : Platform K}

/-- The rtl_tcp client stays, and its socket accepts all it is sent. -/
structure Listens (P : Platform K) (s : Channel K) (events : List (Event K)) (fd : ℕ) : Prop where
  registered : fd ∈ s.rtlTcp.clientFds
  stays : ∀ event ∈ events, event ≠ .disconnect fd
  accepts : ∀ sent ∈ (machine P).trace (rtlTcpSends fd) s events, sent.1.length ≤ sent.2

/-- The SpyServer client streams, and its socket accepts all it is sent. -/
structure Streams (P : Platform K) (s : Channel K) (events : List (Event K)) (g : ℕ) : Prop where
  stays : ∀ event ∈ events, event ≠ .spyServer (.accept g)
  accepts : ∀ sent ∈ (machine P).trace (spyServerSends g) s events, sent.2 = some (20 + sent.1.length)

/-- A client that takes all has been sent what was produced. -/
theorem Listens.iq {s t : Channel K} {events : List (Event K)} {fd : ℕ} (h : Listens P s events fd) (hs : s.Sound)
    (hrun : (machine P).run s events = some t) (hidle : s.streaming = .idle) (hidle' : t.streaming = .idle) :
    t.rtlTcp.iq fd = s.rtlTcp.iq fd ++ ((machine P).trace (produced P) s events).flatten := by
  have hall : ∀ sends : List (List UInt8 × ℕ), (∀ sent ∈ sends, sent.1.length ≤ sent.2) →
      sends.flatMap (fun sent => sent.1.take sent.2) = (sends.map Prod.fst).flatten := by
    intro sends hsends
    rw [List.flatMap_def]
    congr 1
    exact List.map_congr_left fun sent hsent => List.take_of_length_le (hsends sent hsent)
  rw [iq_run hrun hs h.registered h.stays, hall _ h.accepts, (handed_produced hrun hidle hidle' fd 0).1]

theorem Streams.messages {s t : Channel K} {events : List (Event K)} {g : ℕ} (h : Streams P s events g)
    (hrun : (machine P).run s events = some t) (hidle : s.streaming = .idle) (hidle' : t.streaming = .idle) :
    iqMessages (t.spyServer.server.sent g) = iqMessages (s.spyServer.server.sent g) ++
      ((machine P).trace (produced P) s events).map fun bytes => (bytes, 20 + bytes.length) := by
  have hall : ∀ sends : List (List UInt8 × Option ℕ), (∀ sent ∈ sends, sent.2 = some (20 + sent.1.length)) →
      sends.filterMap (fun sent => sent.2.map fun accepted => (sent.1, accepted)) =
        (sends.map Prod.fst).map fun bytes => (bytes, 20 + bytes.length) := by
    intro sends hsends
    rw [List.map_map, ← List.filterMap_eq_map]
    apply List.filterMap_congr
    intro sent hsent
    rw [hsends sent hsent]
    rfl
  rw [iqMessages_run hrun h.stays, hall _ h.accepts, (handed_produced hrun hidle hidle' 0 g).2]

/-! ### What the receiver is given -/

omit [LinearOrder K] [FloorRing K] in
/-- A step that asks for no frequency gives the receiver its chunk, if it has one. -/
theorem vrxEvents_of_asks {s : Channel K} {event : Event K} (h : s.asks event = []) :
    s.vrxEvents event = (System.chunkOf event).toList.map .chunk := by
  cases event with
  | chunk widebandIq => rfl
  | rtlTcpCallback | spyServerCallback | accept | register | recv | proceed | disconnect | spyServer =>
    exact congrArg (List.map VrxEvent.retune) h

theorem vrxEvents_run {s t : Channel K} {events : List (Event K)} (hrun : (machine P).run s events = some t)
    (h : (machine P).trace asks s events = []) :
    (machine P).trace vrxEvents s events = (events.filterMap System.chunkOf).map .chunk := by
  induction events generalizing s with
  | nil => rfl
  | cons event events ih =>
    obtain ⟨u, hu, ht⟩ := Option.bind_eq_some_iff.mp hrun
    rw [Machine.trace_cons hu] at h ⊢
    obtain ⟨hevent, hevents⟩ := List.append_eq_nil_iff.mp h
    rw [vrxEvents_of_asks hevent, ih ht hevents]
    cases hchunk : System.chunkOf event with
    | none => rw [List.filterMap_cons_none hchunk]; rfl
    | some iq => rw [List.filterMap_cons_some hchunk]; rfl

omit [Field K] [LinearOrder K] [FloorRing K] in
theorem eq_chunk_of_chunkOf {event : Event K} {iq : List (K × K)} (h : System.chunkOf event = some iq) :
    event = .chunk iq := by
  cases event with
  | chunk widebandIq => exact congrArg Event.chunk (Option.some.inj h)
  | rtlTcpCallback | spyServerCallback | accept | register | recv | proceed | disconnect | spyServer => cases h

theorem produced_of_chunkOf {s : Channel K} {event : Event K} (h : System.chunkOf event = none) :
    s.produced P event = [] := by
  cases event with
  | chunk widebandIq => cases h
  | rtlTcpCallback | spyServerCallback | accept | register | recv | proceed | disconnect | spyServer => rfl

/-- A chunk has one run of bytes, or none. -/
theorem produced_flatten (s : Channel K) (iq : List (K × K)) :
    s.produced P (.chunk iq) = [(s.produced P (.chunk iq)).flatten].filter (· ≠ []) := by
  simp only [produced]
  cases hprocess : s.vrx.processWidebandChunk P.trig iq with
  | none => rfl
  | some processed =>
    obtain ⟨outBuf, vrx⟩ := processed
    cases outBuf with
    | none => rfl
    | some outBuf =>
      have hne : outBuf ≠ [] := by
        rintro rfl
        simp only [VirtualReceiver.processWidebandChunk, Option.bind_eq_bind, Option.bind_eq_some_iff] at hprocess
        obtain ⟨⟨out, decimator⟩, -, hout⟩ := hprocess
        cases out <;> simp at hout
      simp [hne]

end

/-! ### What the clients are sent -/

/-- The bytes of a chunk of `n` samples that begins with the sample `start` of a signal. -/
def Renders (taps : List ℝ) (factor : ℕ) (turn : ℝ) (φ : ℂ) (x : ℕ → ℂ) (start n : ℕ) (bytes : List UInt8) : Prop :=
  bytes.length = n / factor * 2 ∧
    ∀ o, o < n / factor → taps.length - 1 ≤ start + o * factor →
      let y := φ * Fir.correlate taps (fun k => x k * Complex.exp ((turn * k : ℝ) * Complex.I))
        (start + o * factor - (taps.length - 1))
      ∃ i q : UInt8, bytes[o * 2]? = some i ∧ bytes[o * 2 + 1]? = some q ∧
        |(i.toNat : ℝ) - VirtualReceiver.zeroLevel - VirtualReceiver.fullScale * VirtualReceiver.clamped y.re| ≤ 1 / 2 ∧
        |(q.toNat : ℝ) - VirtualReceiver.zeroLevel - VirtualReceiver.fullScale * VirtualReceiver.clamped y.im| ≤ 1 / 2

/-- The bytes of one chunk after another. -/
def RendersAll (taps : List ℝ) (factor : ℕ) (turn : ℝ) (φ : ℂ) (x : ℕ → ℂ) (chunks : List (List (ℝ × ℝ)))
    (sent : List (List UInt8)) : Prop :=
  sent.length = chunks.length ∧
    ∀ k iq bytes, chunks[k]? = some iq → sent[k]? = some bytes →
      Renders taps factor turn φ x (chunks.take k).flatten.length iq.length bytes

section
variable {taps : List ℝ} {factor : ℕ} {turn : ℝ} {φ : ℂ} {x : ℕ → ℂ}

theorem RendersAll.concat {chunks : List (List (ℝ × ℝ))} {sent : List (List UInt8)}
    (h : RendersAll taps factor turn φ x chunks sent) {iq : List (ℝ × ℝ)} {bytes : List UInt8}
    (hlast : Renders taps factor turn φ x chunks.flatten.length iq.length bytes) :
    RendersAll taps factor turn φ x (chunks ++ [iq]) (sent ++ [bytes]) := by
  obtain ⟨hlen, hall⟩ := h
  refine ⟨by rw [List.length_append, List.length_append, hlen]; rfl, ?_⟩
  intro k iq' bytes' hiq hbytes
  by_cases hk : k < chunks.length
  · rw [List.getElem?_append_left hk] at hiq
    rw [List.getElem?_append_left (hlen ▸ hk)] at hbytes
    rw [List.take_append_of_le_length hk.le]
    exact hall k iq' bytes' hiq hbytes
  · obtain rfl : k = chunks.length := by
      have hlt := (List.getElem?_eq_some_iff.mp hiq).1
      rw [List.length_append, List.length_singleton] at hlt
      omega
    rw [List.getElem?_concat_length] at hiq
    rw [← hlen, List.getElem?_concat_length] at hbytes
    obtain rfl := Option.some.inj hiq
    obtain rfl := Option.some.inj hbytes
    rwa [List.take_left]

/-- The samples of the chunks before the last are those of the signal, too. -/
theorem signal_front {front back : List (ℝ × ℝ)}
    (h : front ++ back = (List.range (front ++ back).length).map fun n => iqOf (x n)) :
    front = (List.range front.length).map fun n => iqOf (x n) := by
  rw [List.range_eq_range'] at h ⊢
  exact (VirtualReceiver.split_range' _ h).1

/-- **What a receiver has its clients sent**, as long as nobody asks it for a frequency: the
bytes of one chunk after another, and nothing for a chunk too short for a sample. -/
theorem Converts.run {P : Platform ℝ} {s t : Channel ℝ} (h : s.Converts P taps factor turn φ)
    {events : List (Event ℝ)} (hrun : (machine P).run s events = some t)
    (hasks : (machine P).trace asks s events = [])
    (hx : (events.filterMap System.chunkOf).flatten =
      (List.range (events.filterMap System.chunkOf).flatten.length).map fun n => iqOf (x n)) :
    ∃ sent, RendersAll taps factor turn φ x (events.filterMap System.chunkOf) sent ∧
      (machine P).trace (produced P) s events = sent.filter (· ≠ []) := by
  induction events using List.reverseRecOn generalizing t with
  | nil => exact ⟨[], ⟨rfl, by simp⟩, rfl⟩
  | append_singleton events event ih =>
    rw [Machine.run_concat] at hrun
    obtain ⟨u, hu, ht⟩ := Option.bind_eq_some_iff.mp hrun
    rw [Machine.trace_append hu] at hasks
    have hfront := (List.append_eq_nil_iff.mp hasks).1
    have hlast : (machine P).trace (produced P) u [event] = u.produced P event := by
      rw [Machine.trace_cons ht]
      exact List.append_nil _
    rw [Machine.trace_append hu, hlast]
    cases hchunk : System.chunkOf event with
    | none =>
      rw [List.filterMap_append, List.filterMap_cons_none hchunk, List.filterMap_nil, List.append_nil] at hx ⊢
      rw [produced_of_chunkOf hchunk, List.append_nil]
      exact ih hu hfront hx
    | some iq =>
      obtain rfl := eq_chunk_of_chunkOf hchunk
      have huidle : u.streaming = .idle := by
        cases step_cases ht with
        | chunk hidle hchunk => exact hidle
      rw [List.filterMap_append, List.filterMap_cons_some hchunk, List.filterMap_nil] at hx ⊢
      rw [List.flatten_append, List.flatten_singleton] at hx
      obtain ⟨sent, hsent, hproduced⟩ := ih hu hfront (signal_front hx)
      rw [List.length_append] at hx
      have hheard := vrxEvents_run hu hfront
      obtain ⟨-, hlen, hbytes⟩ := h x events u (events.filterMap System.chunkOf) iq hu huidle hheard hx
      refine ⟨sent ++ [(u.produced P (.chunk iq)).flatten], hsent.concat ⟨hlen, hbytes⟩, ?_⟩
      rw [hproduced, List.filter_append, ← produced_flatten u iq]

end

/-- Between two chunks only a chunk starts the streaming thread. -/
theorem idle_step {K : Type} [Field K] [LinearOrder K] [FloorRing K] {P : Platform K} {s t : Channel K}
    {event : Event K} (h : (machine P).step s event = some t) (hidle : s.streaming = .idle)
    (hevent : event.isChunk = false) : t.streaming = .idle := by
  cases step_cases h with
  | chunk => cases hevent
  | rtlTcpCallback outcome hstreaming | spyServerCallback outcome hstreaming => cases hidle.symm.trans hstreaming
  | accept | register | recv | proceed | disconnect | spyServer => exact hidle

end Channel

/-! ### Behind the upstream link -/

namespace System
section
variable {K : Type} [Field K] [LinearOrder K] [FloorRing K] {P : Platform K}

omit [Field K] [LinearOrder K] [FloorRing K] in
theorem quiet_iff (s : System K) : s.quiet = true ↔ ∀ c ∈ s.channels, c.streaming = .idle := by
  rw [quiet, List.all_eq_true]
  refine forall₂_congr fun c _ => ?_
  cases c.streaming <;> simp

/-- While the callback is not at a chunk, no receiver's callbacks are. -/
def Settled (s : System K) : Prop := s.fanout = none → ∀ c ∈ s.channels, c.streaming = .idle

theorem settled_step (s : System K) (event : SystemEvent K) (t : System K) (hs : s.Settled)
    (h : (machine P).step s event = some t) : t.Settled := by
  cases event with
  | ret =>
    simp only [machine, step] at h
    split at h
    · split at h
      · next hquiet =>
        obtain rfl := Option.some.inj h
        exact fun _ => s.quiet_iff.mp hquiet.2
      · cases h
    · cases h
  | call | hand =>
    cases step_cases h
    exact fun hnone => by cases hnone
  | own i event =>
    cases step_cases h with
    | own hevent hc hstep =>
      intro hnone c hmem
      rcases List.mem_or_eq_of_mem_set hmem with hmem | rfl
      · exact hs hnone c hmem
      · exact Channel.idle_step hstep (hs hnone _ (List.mem_of_getElem? hc)) hevent

theorem settled_run {vrxs : List (VirtualReceiver K)} {events : List (SystemEvent K)} {s : System K}
    (h : (machine P).run (initial vrxs) events = some s) : s.Settled := by
  refine Machine.invariant settled_step h fun _ c hc => ?_
  obtain ⟨vrx, -, rfl⟩ := List.mem_map.mp hc
  rfl

end

open Trig

/-- **From the upstream link to a receiver's clients.** From one moment between two calls of the
upstream's callback to another, between which nobody asks the receiver for a frequency, every
client of either protocol that takes all it is sent gets, for every chunk that the upstream
called with, in order, the bytes of its samples as the receiver hears them; whatever came
before, and whatever else the receiver's clients and the other receivers do. -/
theorem delivered (P : Platform ℝ) (hP : P.trig = real) (vrxs : List (VirtualReceiver ℝ)) (i : ℕ)
    (cfg : VirtualReceiverConfig ℝ) (center rate : ℝ) (vrx : VirtualReceiver ℝ)
    (h : VirtualReceiver.construct real cfg center rate = .ok vrx) (hvrx : vrxs[i]? = some vrx)
    (before events : List (SystemEvent ℝ)) (s t : System ℝ)
    (hbefore : (machine P).run (initial vrxs) before = some s) (hrun : (machine P).run s events = some t)
    (hs : s.fanout = none) (ht : t.fanout = none) (c : Channel ℝ) (hc : s.channels[i]? = some c)
    (hasks : (Channel.machine P).trace Channel.asks c ((machine P).trace (seen i) s events) = []) :
    ∃ c', t.channels[i]? = some c' ∧ ∃ φ : ℂ, ‖φ‖ = 1 ∧ ∀ x : ℕ → ℂ,
      let chunks := (machine P).trace called s events
      chunks.flatten = (List.range chunks.flatten.length).map (fun n => iqOf (x n)) →
      ∃ sent, Channel.RendersAll (buildTaps real cfg.sampleRateHz rate) vrx.decimator.factor
          (Nco.phaseIncrement real rate (c.vrx.centerFrequencyHz - center)) φ x chunks sent ∧
        (∀ fd, Channel.Listens P c ((machine P).trace (seen i) s events) fd →
          c'.rtlTcp.iq fd = c.rtlTcp.iq fd ++ sent.flatten) ∧
        (∀ g, Channel.Streams P c ((machine P).trace (seen i) s events) g →
          Channel.iqMessages (c'.spyServer.server.sent g) = Channel.iqMessages (c.spyServer.server.sent g) ++
            (sent.filter (· ≠ [])).map fun bytes => (bytes, 20 + bytes.length)) := by
  obtain ⟨d, hd, hbeforeᵢ⟩ := channel_run hbefore (channel_initial hvrx)
  obtain rfl := Option.some.inj (hd.symm.trans hc)
  obtain ⟨c', hc', hrunᵢ⟩ := channel_run hrun hc
  have hreachable : (Channel.machine P).Reachable (Channel.initial vrx) d := ⟨_, hbeforeᵢ⟩
  have htuned := Channel.tuned_reachable hP h hreachable
  have hidle : d.streaming = .idle := settled_run hbefore hs d (List.mem_of_getElem? hc)
  have hidle' : c'.streaming = .idle :=
    Machine.invariant settled_step hrun (settled_run hbefore) ht c' (List.mem_of_getElem? hc')
  -- between two calls no chunk waits for the receiver
  have hchunks : (machine P).trace called s events = ((machine P).trace (seen i) s events).filterMap chunkOf := by
    have hwaiting := waiting_run hrun (List.getElem?_eq_some_iff.mp hc).1
    rwa [waiting, hs, waiting, ht, List.nil_append, List.append_nil] at hwaiting
  refine ⟨c', hc', _, Angle.norm_of_unit htuned.phase_unit, ?_⟩
  intro x chunks hx
  simp only [chunks, hchunks] at hx ⊢
  obtain ⟨sent, hsent, hproduced⟩ := (Channel.converts_of_tuned hP htuned).run hrunᵢ hasks hx
  refine ⟨sent, hsent, fun fd hfd => ?_, fun g hg => ?_⟩
  · rw [hfd.iq (Channel.sound_reachable hreachable) hrunᵢ hidle hidle', hproduced, List.flatten_filter_ne_nil]
  · rw [hg.messages hrunᵢ hidle hidle', hproduced]

/-- One output sample's worth of silence, and what a receiver does with it. -/
def silence : List (ℝ × ℝ) := List.replicate 64 (0, 0)

def silentCall : List (SystemEvent ℝ) :=
  [.call silence, .hand, .own 0 (.rtlTcpCallback fun _ => 2), .own 0 (.spyServerCallback fun _ => 0), .ret]

def silentSteps : List (Event ℝ) := [.chunk silence, .rtlTcpCallback fun _ => 2, .spyServerCallback fun _ => 0]

theorem run_silence {P : Platform ℝ} (hP : P.trig = real) {c : Channel ℝ} (hidle : c.streaming = .idle)
    {taps : List ℝ} {center rate : ℝ} (htuned : VirtualReceiver.Tuned taps 64 center rate c.vrx) :
    ∃ t, (machine P).run ⟨[c], none⟩ silentCall = some t ∧ t.fanout = none ∧
      (machine P).trace (seen 0) ⟨[c], none⟩ silentCall = silentSteps ∧
      (machine P).trace called ⟨[c], none⟩ silentCall = [silence] ∧
      (Channel.machine P).trace Channel.asks c silentSteps = [] ∧
      ∀ sent ∈ (Channel.machine P).trace (Channel.rtlTcpSends 4) c silentSteps, sent.1.length ≤ sent.2 := by
  obtain ⟨v, out, hv, hout, hlen, -⟩ := htuned.yields 0 [] silence (by simp [silence, iqOf])
  obtain rfl := Option.some.inj hv
  rw [← hP] at hout
  obtain ⟨vrx', hprocess⟩ := Channel.process_decimated hout
  rw [htuned.factor_eq, silence, List.length_replicate] at hlen
  have hne : out ≠ [] := by
    rintro rfl
    cases hlen
  rw [if_neg hne] at hprocess
  obtain ⟨c₁, hchunk, hc₁⟩ : ∃ c₁, (Channel.machine P).step c (.chunk silence) = some c₁ ∧
      c₁.streaming = .rtlTcp (out.map VirtualReceiver.toUint8) := by
    simp only [Channel.machine, Channel.step, hidle, hprocess, Option.bind_eq_bind, Option.bind_some, Option.elim_some]
    exact ⟨_, rfl, rfl⟩
  obtain ⟨c₂, hrtlTcp, hc₂⟩ : ∃ c₂, (Channel.machine P).step c₁ (.rtlTcpCallback fun _ => 2) = some c₂ ∧
      c₂.streaming = .spyServer (out.map VirtualReceiver.toUint8) := by
    simp only [Channel.machine, Channel.step, hc₁]
    exact ⟨_, rfl, rfl⟩
  obtain ⟨c₃, hspyServer, hc₃⟩ : ∃ c₃, (Channel.machine P).step c₂ (.spyServerCallback fun _ => 0) = some c₃ ∧
      c₃.streaming = .idle := by
    simp only [Channel.machine, Channel.step, hc₂]
    exact ⟨_, rfl, rfl⟩
  have hcall : (machine P).step ⟨[c], none⟩ (.call silence) = some ⟨[c], some (silence, 0)⟩ := rfl
  have hhand : (machine P).step ⟨[c], some (silence, 0)⟩ .hand = some ⟨[c₁], some (silence, 1)⟩ := by
    have hstep : c.step P (.chunk silence) = some c₁ := hchunk
    simp [machine, step, quiet, hidle, stepAt, hstep]
  have hfirst : (machine P).step ⟨[c₁], some (silence, 1)⟩ (.own 0 (.rtlTcpCallback fun _ => 2)) =
      some ⟨[c₂], some (silence, 1)⟩ := by
    have hstep : c₁.step P (.rtlTcpCallback fun _ => 2) = some c₂ := hrtlTcp
    simp [machine, step, Event.isChunk, stepAt, hstep]
  have hsecond : (machine P).step ⟨[c₂], some (silence, 1)⟩ (.own 0 (.spyServerCallback fun _ => 0)) =
      some ⟨[c₃], some (silence, 1)⟩ := by
    have hstep : c₂.step P (.spyServerCallback fun _ => 0) = some c₃ := hspyServer
    simp [machine, step, Event.isChunk, stepAt, hstep]
  have hret : (machine P).step ⟨[c₃], some (silence, 1)⟩ .ret = some ⟨[c₃], none⟩ := by
    simp [machine, step, quiet, hc₃]
  refine ⟨⟨[c₃], none⟩, ?_, rfl, ?_, ?_, ?_, ?_⟩
  · rw [silentCall, Machine.run_cons, hcall, Option.bind_some, Machine.run_cons, hhand, Option.bind_some,
      Machine.run_cons, hfirst, Option.bind_some, Machine.run_cons, hsecond, Option.bind_some, Machine.run_cons, hret]
    rfl
  · rw [silentCall, Machine.trace_cons hcall, Machine.trace_cons hhand, Machine.trace_cons hfirst,
      Machine.trace_cons hsecond, Machine.trace_cons hret]
    rfl
  · rw [silentCall, Machine.trace_cons hcall, Machine.trace_cons hhand, Machine.trace_cons hfirst,
      Machine.trace_cons hsecond, Machine.trace_cons hret]
    rfl
  · rw [silentSteps, Machine.trace_cons hchunk, Machine.trace_cons hrtlTcp, Machine.trace_cons hspyServer]
    rfl
  · rw [silentSteps, Machine.trace_cons hchunk, Machine.trace_cons hrtlTcp, Machine.trace_cons hspyServer]
    have htrace : Channel.rtlTcpSends 4 c₁ (.rtlTcpCallback fun _ => 2) = [(out.map VirtualReceiver.toUint8, 2)] := by
      simp only [Channel.rtlTcpSends, hc₁]
    rw [htrace]
    intro sent hsent
    obtain rfl := List.mem_singleton.mp hsent
    rw [List.length_map, hlen]

/-- A client of the only receiver, from one output sample to the next. -/
theorem delivered_silence : ∃ vrx s t c c', VirtualReceiver.construct real VirtualReceiver.narrowConfig 0 64 = .ok vrx ∧
    (machine ⟨real, fun _ => 0⟩).run (initial [vrx]) [.own 0 (.accept 4), .own 0 .register] = some s ∧
    (machine ⟨real, fun _ => 0⟩).run s silentCall = some t ∧ s.channels[0]? = some c ∧ t.channels[0]? = some c' ∧
    ∃ φ : ℂ, ‖φ‖ = 1 ∧ ∃ sent, Channel.RendersAll (buildTaps real VirtualReceiver.narrowConfig.sampleRateHz 64)
        vrx.decimator.factor (Nco.phaseIncrement real 64 (c.vrx.centerFrequencyHz - 0)) φ (fun _ => 0) [silence] sent ∧
      c'.rtlTcp.iq 4 = c.rtlTcp.iq 4 ++ sent.flatten := by
  obtain ⟨vrx, h⟩ := VirtualReceiver.construct_narrow
  have hstart : ∃ c, (machine ⟨real, fun _ => 0⟩).run (initial [vrx]) [.own 0 (.accept 4), .own 0 .register] =
      some ⟨[c], none⟩ ∧ c.streaming = .idle ∧ c.rtlTcp.clientFds = [4] ∧ c.vrx = vrx := ⟨_, rfl, rfl, rfl, rfl⟩
  obtain ⟨c, hbefore, hidle, hfds, rfl⟩ := hstart
  have htuned := VirtualReceiver.construct_tuned h
  have hfactor : c.vrx.decimator.factor = 64 := by
    have hcast := VirtualReceiver.construct_factor h
    have htrunc : trunc (64 : ℝ) = 64 := by norm_num [trunc]
    simp [VirtualReceiver.narrowConfig, castInt_eq_some, htrunc] at hcast
    omega
  rw [hfactor] at htuned
  obtain ⟨t, hrun, ht, hseen, hcalled, hasks, haccepts⟩ := run_silence (P := ⟨real, fun _ => 0⟩) rfl hidle htuned
  obtain ⟨c', hc', φ, hφ, hdelivered⟩ := delivered ⟨real, fun _ => 0⟩ rfl [c.vrx] 0 VirtualReceiver.narrowConfig 0 64
    c.vrx h rfl _ silentCall _ t hbefore hrun rfl ht c rfl (by rw [hseen]; exact hasks)
  obtain ⟨sent, hsent, hlistens, -⟩ := hdelivered (fun _ => 0) (by rw [hcalled]; simp [silence, iqOf])
  rw [hcalled] at hsent
  refine ⟨c.vrx, _, t, c, c', h, hbefore, hrun, rfl, hc', φ, hφ, sent, hsent, hlistens 4 ?_⟩
  rw [hseen]
  exact ⟨by rw [hfds]; exact List.mem_singleton.mpr rfl, by simp [silentSteps], haccepts⟩

end System

end VrxServer.Main
