import VrxServer.Dsp.Quantize
import VrxServer.Dsp.Response
import VrxServer.Main.Channel
import VrxServer.SpyServer.Greeting

/-! What the clients of a receiver are sent.

The bytes a chunk comes to go to the rtl_tcp callback and then to SpyServer's, one after the
other and each once, whatever the clients do in between. Over any stretch in which a
connection lasts, an rtl_tcp client is sent of every chunk's bytes what its socket accepts,
and a SpyServer client every chunk's bytes for which its gate is open: the same bytes
(`endpoints_agree`). They are the signal mixed down, filtered and rounded
(`samples_to_bytes`). -/
namespace VrxServer.Main
open Base Config Dsp
open SpyServer (Platform)

namespace Channel
variable {K : Type} [Field K] [LinearOrder K] [FloorRing K]

/-! ### From the receiver to the callbacks -/

/-- The bytes a step has the receiver hand to its callbacks. -/
def produced (P : Platform K) (s : Channel K) : Event K → List (List UInt8)
  | .chunk widebandIq =>
    match s.vrx.processWidebandChunk P.trig widebandIq with
    | some (outBuf, _) => outBuf.toList
    | none => []
  | _ => []

/-- The bytes a step has the rtl_tcp endpoint send, and what the client's socket accepts of them. -/
def rtlTcpSends (fd : ℕ) (s : Channel K) : Event K → List (List UInt8 × ℕ)
  | .rtlTcpCallback outcome =>
    match s.streaming with
    | .rtlTcp outBuf => [(outBuf, outcome fd)]
    | _ => []
  | _ => []

/-- The bytes a step has the SpyServer endpoint send, and, if the client streams, what its
socket accepts of them and their header. -/
def spyServerSends (fd : ℕ) (s : Channel K) : Event K → List (List UInt8 × Option ℕ)
  | .spyServerCallback outcome =>
    match s.streaming with
    | .spyServer outBuf => [(outBuf, if (s.spyServer.server.clients.lookup fd).any SpyServer.ClientState.streams then
        some (min (outcome fd) (20 + outBuf.length)) else none)]
    | _ => []
  | _ => []

/-- The bytes that wait for the first callback, and those that wait for the second. -/
def forRtlTcp (s : Channel K) : List (List UInt8) :=
  match s.streaming with
  | .rtlTcp outBuf => [outBuf]
  | _ => []

def forSpyServer (s : Channel K) : List (List UInt8) :=
  match s.streaming with
  | .spyServer outBuf => [outBuf]
  | _ => []

variable {P : Platform K}

theorem forRtlTcp_step (fd : ℕ) (s : Channel K) (event : Event K) (t : Channel K)
    (h : (machine P).step s event = some t) :
    s.forRtlTcp ++ s.produced P event = (s.rtlTcpSends fd event).map Prod.fst ++ t.forRtlTcp := by
  cases step_cases h with
  | @chunk widebandIq outBuf vrx hidle hchunk =>
    simp only [forRtlTcp, produced, rtlTcpSends, hidle, hchunk]
    cases outBuf <;> rfl
  | rtlTcpCallback outcome hstreaming | spyServerCallback outcome hstreaming =>
    simp [forRtlTcp, produced, rtlTcpSends, hstreaming]
  | accept | register | recv | proceed | disconnect | spyServer =>
    simp [forRtlTcp, produced, rtlTcpSends, withVrx]

theorem forSpyServer_step (fd g : ℕ) (s : Channel K) (event : Event K) (t : Channel K)
    (h : (machine P).step s event = some t) :
    s.forSpyServer ++ (s.rtlTcpSends fd event).map Prod.fst =
      (s.spyServerSends g event).map Prod.fst ++ t.forSpyServer := by
  cases step_cases h with
  | @chunk widebandIq outBuf vrx hidle hchunk =>
    simp only [forSpyServer, rtlTcpSends, spyServerSends, hidle]
    cases outBuf <;> rfl
  | rtlTcpCallback outcome hstreaming | spyServerCallback outcome hstreaming =>
    simp [forSpyServer, rtlTcpSends, spyServerSends, hstreaming]
  | accept | register | recv | proceed | disconnect | spyServer =>
    simp [forSpyServer, rtlTcpSends, spyServerSends, withVrx]

/-- **Each endpoint is handed the bytes of every chunk once, in order**, but for those of the
last that the streaming thread is still at. -/
theorem handed_once {s t : Channel K} {events : List (Event K)} (h : (machine P).run s events = some t) (fd g : ℕ) :
    s.forRtlTcp ++ (machine P).trace (produced P) s events =
        ((machine P).trace (rtlTcpSends fd) s events).map Prod.fst ++ t.forRtlTcp ∧
      s.forSpyServer ++ ((machine P).trace (rtlTcpSends fd) s events).map Prod.fst =
        ((machine P).trace (spyServerSends g) s events).map Prod.fst ++ t.forSpyServer := by
  rw [← Machine.trace_map, ← Machine.trace_map]
  constructor
  · exact Machine.trace_pending (fun _ => True) (fun _ _ _ _ _ => trivial)
      (fun u event w _ hw => forRtlTcp_step fd u event w hw) h trivial
  · exact Machine.trace_pending (fun _ => True) (fun _ _ _ _ _ => trivial)
      (fun u event w _ hw => forSpyServer_step fd g u event w hw) h trivial

/-! ### From the callbacks to the clients -/

/-- A step of the endpoint adds to a registered client's stream what its socket accepts. -/
theorem iq_step (fd : ℕ) (s : Channel K) (event : Event K) (t : Channel K) (hstay : event ≠ .disconnect fd)
    (hs : s.Sound ∧ fd ∈ s.rtlTcp.clientFds) (h : (machine P).step s event = some t) :
    fd ∈ t.rtlTcp.clientFds ∧
      t.rtlTcp.iq fd = s.rtlTcp.iq fd ++ (s.rtlTcpSends fd event).flatMap fun sent => sent.1.take sent.2 := by
  obtain ⟨hsound, hfd⟩ := hs
  cases step_cases h with
  | chunk | recv | proceed | spyServer => exact ⟨hfd, (List.append_nil _).symm⟩
  | spyServerCallback outcome hstreaming => exact ⟨hfd, (List.append_nil _).symm⟩
  | @rtlTcpCallback outBuf outcome hstreaming =>
    obtain ⟨hfds, -, hiq⟩ := RtlTcp.Server.broadcastIq_spec s.rtlTcp hsound.distinct outBuf outcome
    refine ⟨hfds ▸ hfd, (hiq fd).trans ?_⟩
    rw [if_pos hfd]
    simp only [rtlTcpSends, hstreaming, List.flatMap_cons, List.flatMap_nil, List.append_nil]
  | @accept g rtlTcp hclosed hstep =>
    simp only [RtlTcp.Server.step] at hstep
    split at hstep
    · next hcond =>
      obtain rfl := Option.some.inj hstep
      have hg : fd ≠ g := fun heq => hcond.2 (heq ▸ hfd)
      exact ⟨hfd, (Function.update_of_ne hg ..).trans (List.append_nil _).symm⟩
    · cases hstep
  | @register g rtlTcp haccepting hstep =>
    rw [RtlTcp.Server.step, haccepting] at hstep
    obtain rfl := Option.some.inj hstep
    exact ⟨List.mem_append_left _ hfd, (List.append_nil _).symm⟩
  | @disconnect g recvBuf rtlTcp hidle hstep =>
    obtain rfl := Option.some.inj hstep
    have hg : fd ≠ g := fun heq => hstay (heq ▸ rfl)
    exact ⟨List.mem_filter.mpr ⟨hfd, decide_eq_true hg⟩, (List.append_nil _).symm⟩

/-- The I/Q messages among a connection's sends: their bodies, and how much was accepted. -/
def iqMessages (sends : List SpyServer.Sent) : List (List UInt8 × ℕ) :=
  (sends.filter fun a => a.messageType == some SpyServer.kMsgTypeUint8Iq).map fun a => (a.buf.drop 20, a.accepted)

theorem iqMessages_append (a b : List SpyServer.Sent) : iqMessages (a ++ b) = iqMessages a ++ iqMessages b := by
  rw [iqMessages, List.filter_append, List.map_append]
  rfl

theorem iqMessages_singleton (a : SpyServer.Sent) :
    iqMessages [a] = if a.messageType = some SpyServer.kMsgTypeUint8Iq then [(a.buf.drop 20, a.accepted)] else [] := by
  by_cases htype : a.messageType = some SpyServer.kMsgTypeUint8Iq <;> simp [iqMessages, htype]

/-- A broadcast is one I/Q message to a client that streams. -/
theorem iqMessages_iqSends (data : List UInt8) (outcome : ℕ) (c : Option SpyServer.ClientState) :
    iqMessages (SpyServer.iqSends data outcome c) =
      ((if c.any SpyServer.ClientState.streams then some (min outcome (20 + data.length)) else none).map
        fun accepted => (data, accepted)).toList := by
  cases c with
  | none => rfl
  | some c =>
    rw [SpyServer.iqSends, Option.any_some]
    split
    · have hbody : ((SpyServer.Server.iqHeader c.sequenceNumber data.length).bytes ++ data).drop 20 = data :=
        List.drop_left' (SpyServer.MessageHeader.length_bytes _)
      have hiq : (SpyServer.Server.iqHeader c.sequenceNumber data.length).messageType = SpyServer.kMsgTypeUint8Iq := rfl
      rw [iqMessages_singleton, SpyServer.Sent.messageType, SpyServer.readU32_messageType, hiq, if_pos rfl, hbody]
      rfl
    · rfl

/-- A reply is no I/Q message. -/
theorem iqMessages_replySends {messageType : UInt32} (hne : messageType ≠ SpyServer.kMsgTypeUint8Iq)
    (streamType : UInt32) (body : SpyServer.Server.Body) (c : Option SpyServer.ClientState) :
    iqMessages (SpyServer.replySends messageType streamType body c) = [] := by
  cases c with
  | none => rfl
  | some c =>
    rw [SpyServer.replySends, iqMessages_singleton, SpyServer.Sent.messageType, SpyServer.readU32_messageType, if_neg]
    exact fun heq => hne (Option.some.inj heq)

theorem iqMessages_section (vrx : VirtualReceiver K) (c : Option SpyServer.ClientState) (sec : SpyServer.Section) :
    iqMessages (sec.sends P vrx c) = [] := by
  cases sec with
  | deviceInfo | clientSync | pong => exact iqMessages_replySends (by decide) _ _ _
  | greet | streamingMode | streamingEnabled | retune => rfl

/-- What the SpyServer endpoint does of itself sends no I/Q. -/
theorem iqMessages_session {s t : SpyServer.Session K} {event : SpyServer.Event} {fd : ℕ}
    (hown : ∀ data outcome, event ≠ .broadcast data outcome) (hstay : event ≠ .accept fd)
    (h : s.step P event = some t) : iqMessages (t.server.sent fd) = iqMessages (s.server.sent fd) := by
  cases event with
  | broadcast data outcome => exact absurd rfl (hown data outcome)
  | accept g =>
    have hg : fd ≠ g := fun heq => hstay (heq ▸ rfl)
    simp only [SpyServer.Session.step] at h
    split at h
    · obtain rfl := Option.some.inj h
      have hsent : (s.server.accept g).sent fd = s.server.sent fd := Function.update_of_ne hg ..
      exact congrArg iqMessages hsent
    · cases h
  | command g cmd | disconnect g =>
    simp only [SpyServer.Session.step] at h
    split at h
    · obtain rfl := Option.some.inj h
      rfl
    · cases h
  | proceed g =>
    simp only [SpyServer.Session.step] at h
    split at h
    · next sec rest hthread =>
      obtain rfl := Option.some.inj h
      show iqMessages ((s.server.apply P (.perform g sec)).sent fd) = _
      rw [SpyServer.Server.apply_sent, SpyServer.Session.perform_sends]
      simp only [SpyServer.Op.opens, Bool.false_eq_true, if_false, iqMessages_append]
      split
      · rw [iqMessages_section, List.append_nil]
      · exact List.append_nil _
    · cases h

theorem iqMessages_step (fd : ℕ) (s : Channel K) (event : Event K) (t : Channel K)
    (hstay : event ≠ .spyServer (.accept fd)) (h : (machine P).step s event = some t) :
    iqMessages (t.spyServer.server.sent fd) = iqMessages (s.spyServer.server.sent fd) ++
      (s.spyServerSends fd event).filterMap fun sent => sent.2.map fun accepted => (sent.1, accepted) := by
  cases step_cases h with
  | chunk | rtlTcpCallback | accept | register | recv | proceed | disconnect => exact (List.append_nil _).symm
  | @spyServerCallback outBuf outcome hstreaming =>
    show iqMessages ((s.spyServer.server.broadcastIq outBuf outcome).sent fd) = _
    rw [(SpyServer.Server.broadcastIq_spec s.spyServer.server outBuf outcome).2.2 fd, iqMessages_append,
      iqMessages_iqSends]
    simp only [spyServerSends, hstreaming]
    split <;> rfl
  | @spyServer event spyServer hown hspy =>
    have hevent : event ≠ .accept fd := fun heq => hstay (heq ▸ rfl)
    exact (iqMessages_session hown hevent hspy).trans (List.append_nil _).symm

/-- What a registered client's stream grows by in a run in which it stays. -/
theorem iq_run {s t : Channel K} {events : List (Event K)} (hrun : (machine P).run s events = some t) (hs : s.Sound)
    {fd : ℕ} (hfd : fd ∈ s.rtlTcp.clientFds) (hstay : ∀ event ∈ events, event ≠ .disconnect fd) :
    t.rtlTcp.iq fd = s.rtlTcp.iq fd ++
      ((machine P).trace (rtlTcpSends fd) s events).flatMap fun sent => sent.1.take sent.2 := by
  rw [← Machine.trace_flatMap]
  refine Machine.record_trace (fun u : Channel K => u.rtlTcp.iq fd) (fun u => u.Sound ∧ fd ∈ u.rtlTcp.clientFds)
    (fun event => event ≠ .disconnect fd) ?_ ?_ hstay hrun ⟨hs, hfd⟩
  · exact fun u event w hevent hu hw => ⟨hu.1.step hw, (iq_step fd u event w hevent hu hw).1⟩
  · exact fun u event w hevent hu hw => (iq_step fd u event w hevent hu hw).2

/-- The I/Q messages a connection is sent in a run in which its descriptor is not accepted anew. -/
theorem iqMessages_run {s t : Channel K} {events : List (Event K)} (hrun : (machine P).run s events = some t) {g : ℕ}
    (hstay : ∀ event ∈ events, event ≠ .spyServer (.accept g)) :
    iqMessages (t.spyServer.server.sent g) = iqMessages (s.spyServer.server.sent g) ++
      ((machine P).trace (spyServerSends g) s events).filterMap fun sent =>
        sent.2.map fun accepted => (sent.1, accepted) := by
  rw [← Machine.trace_filterMap]
  exact Machine.record_trace (fun u : Channel K => iqMessages (u.spyServer.server.sent g)) (fun _ => True)
    (fun event => event ≠ .spyServer (.accept g))
    (fun _ _ _ _ _ _ => trivial) (fun u event w hevent _ hw => iqMessages_step g u event w hevent hw) hstay hrun trivial

/-- Between two chunks nothing is pending: each endpoint has been handed what was produced. -/
theorem handed_produced {s t : Channel K} {events : List (Event K)} (hrun : (machine P).run s events = some t)
    (hidle : s.streaming = .idle) (hidle' : t.streaming = .idle) (fd g : ℕ) :
    ((machine P).trace (rtlTcpSends fd) s events).map Prod.fst = (machine P).trace (produced P) s events ∧
      ((machine P).trace (spyServerSends g) s events).map Prod.fst = (machine P).trace (produced P) s events := by
  obtain ⟨hfirst, hsecond⟩ := handed_once hrun fd g
  simp only [forRtlTcp, forSpyServer, hidle, hidle', List.nil_append, List.append_nil] at hfirst hsecond
  exact ⟨hfirst.symm, hsecond.symm.trans hfirst.symm⟩

/-- **Both endpoints send the same bytes.** Over any stretch of a run, what waited for the
rtl_tcp callback and what the receiver produced is what the rtl_tcp endpoint sent, each time
what the client's socket accepts, and what still waits; what waited for SpyServer's callback
and what the rtl_tcp endpoint sent is what the SpyServer endpoint sent, each time the
client's gate is open, and what still waits. -/
theorem endpoints_agree (vrx : VirtualReceiver K) (s t : Channel K) (hs : (machine P).Reachable (initial vrx) s)
    (fd g : ℕ) (hfd : fd ∈ s.rtlTcp.clientFds)
    (events : List (Event K)) (hstay : ∀ event ∈ events, event ≠ .disconnect fd ∧ event ≠ .spyServer (.accept g))
    (hrun : (machine P).run s events = some t) :
    let rtlTcp := (machine P).trace (rtlTcpSends fd) s events
    let spyServer := (machine P).trace (spyServerSends g) s events
    s.forRtlTcp ++ (machine P).trace (produced P) s events = rtlTcp.map Prod.fst ++ t.forRtlTcp ∧
      s.forSpyServer ++ rtlTcp.map Prod.fst = spyServer.map Prod.fst ++ t.forSpyServer ∧
      t.rtlTcp.iq fd = s.rtlTcp.iq fd ++ rtlTcp.flatMap (fun sent => sent.1.take sent.2) ∧
      iqMessages (t.spyServer.server.sent g) = iqMessages (s.spyServer.server.sent g) ++
        spyServer.filterMap fun sent => sent.2.map fun accepted => (sent.1, accepted) := by
  intro rtlTcp spyServer
  obtain ⟨hrtlTcp, hspyServer⟩ := handed_once hrun fd g
  refine ⟨hrtlTcp, hspyServer, ?_, ?_⟩
  · exact iq_run hrun (sound_reachable hs) hfd fun event h => (hstay event h).1
  · exact iqMessages_run hrun fun event h => (hstay event h).2

/-- A chunk that comes to one sample, of which the rtl_tcp client's socket takes half, and that
still waits for SpyServer's callback. -/
def halfChunk : List (Event ℚ) := [.chunk (List.replicate 8 (1, 0)), .rtlTcpCallback fun _ => 1]

theorem endpoints_agree_chunk : ∃ s t, (machine Platform.sample).Reachable (initial VirtualReceiver.sample) s ∧
    (machine Platform.sample).run s halfChunk = some t ∧ t.forSpyServer.length = 1 ∧
    let rtlTcp := (machine Platform.sample).trace (rtlTcpSends 4) s halfChunk
    let spyServer := (machine Platform.sample).trace (spyServerSends 5) s halfChunk
    s.forRtlTcp ++ (machine Platform.sample).trace (produced Platform.sample) s halfChunk =
        rtlTcp.map Prod.fst ++ t.forRtlTcp ∧
      s.forSpyServer ++ rtlTcp.map Prod.fst = spyServer.map Prod.fst ++ t.forSpyServer ∧
      t.rtlTcp.iq 4 = s.rtlTcp.iq 4 ++ rtlTcp.flatMap (fun sent => sent.1.take sent.2) ∧
      iqMessages (t.spyServer.server.sent 5) = iqMessages (s.spyServer.server.sent 5) ++
        spyServer.filterMap fun sent => sent.2.map fun accepted => (sent.1, accepted) := by
  have hstart : ∃ s t, (machine Platform.sample).run (initial VirtualReceiver.sample)
      [.accept 4, .register, .spyServer (.accept 5)] = some s ∧ s.rtlTcp.clientFds = [4] ∧
      (machine Platform.sample).run s halfChunk = some t ∧ t.forSpyServer.length = 1 := ⟨_, _, rfl, rfl, rfl, rfl⟩
  obtain ⟨s, t, hs, hfds, ht, hpending⟩ := hstart
  exact ⟨s, t, ⟨_, hs⟩, ht, hpending, endpoints_agree VirtualReceiver.sample s t ⟨_, hs⟩ 4 5 (by simp [hfds])
    halfChunk (by simp [halfChunk]) ht⟩

/-! ### From the samples to the bytes -/

/-- A chunk whose decimation is defined is converted to bytes, and comes to nothing only if
there are none. -/
theorem process_decimated {vrx : VirtualReceiver K} {iq : List (K × K)} {out : List K} {T : Trig K}
    (h : vrx.decimated T iq = some out) :
    ∃ vrx', vrx.processWidebandChunk T iq =
      some (if out = [] then none else some (out.map VirtualReceiver.toUint8), vrx') := by
  obtain ⟨⟨out', decimator⟩, hprocess, rfl⟩ := Option.map_eq_some_iff.mp h
  refine ⟨{vrx with nco := (vrx.nco.mixInPlace T iq).2, decimator := decimator}, ?_⟩
  simp only [VirtualReceiver.processWidebandChunk, hprocess, Option.bind_eq_bind, Option.bind_some]
  cases out' <;> rfl

/-- Between two chunks the streaming thread can always take the next. -/
theorem chunk_produced {s : Channel K} (hidle : s.streaming = .idle) {iq : List (K × K)} {out : List K}
    (h : s.vrx.decimated P.trig iq = some out) :
    (∃ t, (machine P).step s (.chunk iq) = some t) ∧
      (s.produced P (.chunk iq)).flatten = out.map VirtualReceiver.toUint8 := by
  obtain ⟨vrx, hprocess⟩ := process_decimated h
  have hstep : (machine P).step s (.chunk iq) = some {s.withVrx vrx with
      streaming := (if out = [] then none else some (out.map VirtualReceiver.toUint8)).elim .idle .rtlTcp} := by
    simp only [machine, step, hidle, hprocess, Option.bind_eq_bind, Option.bind_some]
  refine ⟨⟨_, hstep⟩, ?_⟩
  simp only [produced, hprocess]
  split
  · next hout => rw [hout]; rfl
  · exact List.append_nil _

end Channel

namespace Channel
open Trig

/-- What a state makes of any signal until a frequency is asked for, whatever else the clients
do and however its samples are cut: the bytes of a chunk are the signal turned by `φ` and by
`turn` every sample, run through the taps and rounded. -/
def Converts (P : Platform ℝ) (taps : List ℝ) (factor : ℕ) (turn : ℝ) (φ : ℂ) (s : Channel ℝ) : Prop :=
  ∀ (x : ℕ → ℂ) (events : List (Event ℝ)) (t : Channel ℝ) (done : List (List (ℝ × ℝ))) (iq : List (ℝ × ℝ)),
    (machine P).run s events = some t → t.streaming = .idle →
    (machine P).trace vrxEvents s events = done.map .chunk →
    done.flatten ++ iq = (List.range (done.flatten.length + iq.length)).map (fun n => iqOf (x n)) →
    let bytes := (t.produced P (.chunk iq)).flatten
    (∃ u, (machine P).step t (.chunk iq) = some u) ∧ bytes.length = iq.length / factor * 2 ∧
      ∀ o, o < iq.length / factor → taps.length - 1 ≤ done.flatten.length + o * factor →
        let y := φ * Fir.correlate taps (fun k => x k * Complex.exp ((turn * k : ℝ) * Complex.I))
          (done.flatten.length + o * factor - (taps.length - 1))
        ∃ i q : UInt8, bytes[o * 2]? = some i ∧ bytes[o * 2 + 1]? = some q ∧
          |(i.toNat : ℝ) - VirtualReceiver.zeroLevel - VirtualReceiver.fullScale * VirtualReceiver.clamped y.re| ≤ 1 / 2 ∧
          |(q.toNat : ℝ) - VirtualReceiver.zeroLevel - VirtualReceiver.fullScale * VirtualReceiver.clamped y.im| ≤ 1 / 2

theorem tuned_reachable {P : Platform ℝ} (hP : P.trig = real) {cfg : VirtualReceiverConfig ℝ} {center rate : ℝ}
    {vrx : VirtualReceiver ℝ} (h : VirtualReceiver.construct real cfg center rate = .ok vrx) {s : Channel ℝ}
    (hs : (machine P).Reachable (initial vrx) s) :
    VirtualReceiver.Tuned (buildTaps real cfg.sampleRateHz rate) vrx.decimator.factor center rate s.vrx := by
  obtain ⟨before, hbefore⟩ := hs
  have hvrx : (VirtualReceiver.receiver P.trig).run vrx _ = some s.vrx := vrx_run hbefore
  rw [hP] at hvrx
  obtain ⟨v, hv, htuned⟩ := (VirtualReceiver.construct_tuned h).run
    ((machine P).trace vrxEvents (initial vrx) before)
  obtain rfl := Option.some.inj (hv.symm.trans hvrx)
  exact htuned

/-- With a tuned receiver, by the phase its oscillator has reached. -/
theorem converts_of_tuned {P : Platform ℝ} (hP : P.trig = real) {taps : List ℝ} {factor : ℕ} {center rate : ℝ}
    {s : Channel ℝ} (htuned : VirtualReceiver.Tuned taps factor center rate s.vrx) :
    s.Converts P taps factor (Nco.phaseIncrement real rate (s.vrx.centerFrequencyHz - center))
      ⟨s.vrx.nco.phaseRe, s.vrx.nco.phaseIm⟩ := by
  intro x events t done iq hrun hidle hdone hx
  obtain ⟨w, out, hw, hout, hcount, hat⟩ := htuned.yields x done iq hx
  have hstretch := vrx_run hrun
  rw [hdone, hP] at hstretch
  obtain rfl := Option.some.inj (hw.symm.trans hstretch)
  rw [← hP] at hout
  intro bytes
  obtain ⟨hstep, hbytes⟩ : _ ∧ bytes = _ := chunk_produced hidle hout
  rw [htuned.factor_eq] at hcount hat
  refine ⟨hstep, ?_, ?_⟩
  · rw [hbytes, List.length_map, hcount]
  · intro o ho hwin y
    rw [htuned.taps_eq] at hat
    obtain ⟨hi, hq⟩ := hat o ho hwin
    refine ⟨_, _, ?_, ?_, VirtualReceiver.toUint8_error _, VirtualReceiver.toUint8_error _⟩
    · rw [hbytes, List.getElem?_map, hi]
      rfl
    · rw [hbytes, List.getElem?_map, hq]
      rfl

/-- **From samples to bytes.** In every state that its clients can lead to, a receiver sends
any signal on as 8-bit samples of what its taps pass around the frequency it is tuned to. -/
theorem samples_to_bytes (P : Platform ℝ) (hP : P.trig = real) (cfg : VirtualReceiverConfig ℝ) (center rate : ℝ)
    (vrx : VirtualReceiver ℝ) (h : VirtualReceiver.construct real cfg center rate = .ok vrx) (s : Channel ℝ)
    (hs : (machine P).Reachable (initial vrx) s) :
    ∃ φ : ℂ, ‖φ‖ = 1 ∧ s.Converts P (buildTaps real cfg.sampleRateHz rate) vrx.decimator.factor
      (Nco.phaseIncrement real rate (s.vrx.centerFrequencyHz - center)) φ := by
  have htuned := tuned_reachable hP h hs
  exact ⟨_, Angle.norm_of_unit htuned.phase_unit, converts_of_tuned hP htuned⟩

/-- A receiver that a client has tuned three hertz up. -/
theorem samples_to_bytes_narrow : ∃ vrx s, VirtualReceiver.construct real VirtualReceiver.narrowConfig 0 64 = .ok vrx ∧
    (machine ⟨real, fun _ => 0⟩).run (initial vrx) [.accept 4, .register, .recv 4 [1, 0, 0, 0, 3], .proceed 4] = some s ∧
    ∃ φ : ℂ, ‖φ‖ = 1 ∧ s.Converts ⟨real, fun _ => 0⟩ (buildTaps real VirtualReceiver.narrowConfig.sampleRateHz 64)
      vrx.decimator.factor (Nco.phaseIncrement real 64 (s.vrx.centerFrequencyHz - 0)) φ := by
  obtain ⟨vrx, h⟩ := VirtualReceiver.construct_narrow
  have hrun : ∃ s, (machine ⟨real, fun _ => 0⟩).run (initial vrx)
      [.accept 4, .register, .recv 4 [1, 0, 0, 0, 3], .proceed 4] = some s := ⟨_, rfl⟩
  obtain ⟨s, hs⟩ := hrun
  exact ⟨vrx, s, h, hs, samples_to_bytes ⟨real, fun _ => 0⟩ rfl VirtualReceiver.narrowConfig 0 64 vrx h s ⟨_, hs⟩⟩

end Channel

end VrxServer.Main
