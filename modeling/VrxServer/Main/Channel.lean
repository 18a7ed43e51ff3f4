import VrxServer.Base.Trace
import VrxServer.RtlTcp.Handling
import VrxServer.SpyServer.Log
import VrxServer.SpyServer.TuningRange

/-! One receiver and the endpoints that share it.

The streaming thread hands every chunk's bytes to the rtl_tcp callback and then to
SpyServer's; the clients' threads run between any two of its steps. A retune is one step
here, and so is the mixing of a chunk: what follows is about runs in which no two of them
overlap. `Dsp.RetuneRace` is about the writes and loads they are made of, and `Dsp.Overlap` says
that where these do not come between each other a receiver has been through whole ones. A
receiver without a SpyServer endpoint is one whose SpyServer endpoint has no clients.

Whatever the threads do in whatever order, the receiver has been through the chunks and the
retunes they asked for (`vrx_run`), so it is tuned to the last frequency in the span that
anyone asked for (`last_retune_wins`). -/
namespace VrxServer.Main
open Base Config Dsp
open SpyServer (Platform)

/-- An rtl_tcp client's thread between two reads: the bytes it keeps, and the commands of its
last read that are still to be handled. -/
structure Reader where
  recvBuf : List UInt8
  pending : List RtlTcp.ParsedCommand

/-- Where the streaming thread is: `outBuf` is still to be handed to the callback named. -/
inductive Streaming where
  | idle
  | rtlTcp (outBuf : List UInt8)
  | spyServer (outBuf : List UInt8)

/-- The receiver is the SpyServer endpoint's, which the rtl_tcp endpoint shares. -/
structure Channel (K : Type) where
  rtlTcp : RtlTcp.Server UInt8
  readers : ℕ → Option Reader
  spyServer : SpyServer.Session K
  streaming : Streaming

inductive Event (K : Type) where
  | chunk (widebandIq : List (K × K))
  /-- `outcome` is how much each client's non-blocking send accepts, 0 where it fails. -/
  | rtlTcpCallback (outcome : ℕ → ℕ)
  | spyServerCallback (outcome : ℕ → ℕ)
  /-- The rtl_tcp endpoint: its accept thread, and its clients' threads. -/
  | accept (fd : ℕ)
  | register
  | recv (fd : ℕ) (chunk : List UInt8)
  | proceed (fd : ℕ)
  | disconnect (fd : ℕ)
  /-- Anything the SpyServer endpoint does of itself. -/
  | spyServer (event : SpyServer.Event)

namespace Channel
variable {K : Type}

def vrx (s : Channel K) : VirtualReceiver K := s.spyServer.server.vrx

def withVrx (s : Channel K) (vrx : VirtualReceiver K) : Channel K :=
  {s with spyServer := {s.spyServer with server := {s.spyServer.server with vrx := vrx}}}

def initial (vrx : VirtualReceiver K) : Channel K :=
  ⟨RtlTcp.Server.initial, fun _ => none, SpyServer.Session.initial vrx, .idle⟩

section Step
variable [Field K] [LinearOrder K] [FloorRing K] (P : Platform K)

def step (s : Channel K) : Event K → Option (Channel K)
  | .chunk widebandIq =>
    match s.streaming with
    | .idle => do
      let (outBuf, vrx) ← s.vrx.processWidebandChunk P.trig widebandIq
      some {s.withVrx vrx with streaming := outBuf.elim .idle .rtlTcp}
    | _ => none
  | .rtlTcpCallback outcome =>
    match s.streaming with
    | .rtlTcp outBuf => do
      let rtlTcp ← s.rtlTcp.step (.broadcastIq outBuf outcome)
      some {s with rtlTcp := rtlTcp, streaming := .spyServer outBuf}
    | _ => none
  | .spyServerCallback outcome =>
    match s.streaming with
    | .spyServer outBuf => do
      let spyServer ← s.spyServer.step P (.broadcast outBuf outcome)
      some {s with spyServer := spyServer, streaming := .idle}
    | _ => none
  | .accept fd =>
    match s.readers fd with
    | none => do
      let rtlTcp ← s.rtlTcp.step (.accept fd)
      some {s with rtlTcp := rtlTcp}
    | some _ => none
  | .register =>
    match s.rtlTcp.accepting with
    | some fd => do
      let rtlTcp ← s.rtlTcp.step .register
      some {s with rtlTcp := rtlTcp, readers := Function.update s.readers fd (some ⟨[], []⟩)}
    | none => none
  | .recv fd chunk =>
    match s.readers fd with
    | some ⟨recvBuf, []⟩ => do
      let loop ← RtlTcp.CommandLoop.recv ⟨[], recvBuf⟩ chunk
      some {s with readers := Function.update s.readers fd (some ⟨loop.recvBuf, loop.handled⟩)}
    | _ => none
  | .proceed fd =>
    match s.readers fd with
    | some ⟨recvBuf, c :: pending⟩ =>
      some {s.withVrx (RtlTcp.handleCommand P.trig s.vrx c).1 with
        readers := Function.update s.readers fd (some ⟨recvBuf, pending⟩)}
    | _ => none
  | .disconnect fd =>
    match s.readers fd with
    | some ⟨_, []⟩ => do
      let rtlTcp ← s.rtlTcp.step (.removeClient fd)
      some {s with rtlTcp := rtlTcp, readers := Function.update s.readers fd none}
    | _ => none
  | .spyServer (.broadcast _ _) => none
  | .spyServer event => do
    let spyServer ← s.spyServer.step P event
    some {s with spyServer := spyServer}

def machine : Machine (Channel K) (Event K) := ⟨step P⟩

end Step

/-! ### What a step asks of the receiver -/

/-- The frequency a step asks for, at either endpoint. -/
def asks [NatCast K] (s : Channel K) : Event K → List K
  | .proceed fd =>
    match s.readers fd with
    | some ⟨_, c :: _⟩ => c.frequency.toList.map fun param => (param.toNat : K)
    | _ => []
  | .spyServer (.proceed fd) =>
    match s.spyServer.threads fd with
    | some (.retune value :: _) => [(value.toNat : K)]
    | _ => []
  | _ => []

/-- What a step does to the receiver. -/
def vrxEvents [NatCast K] (s : Channel K) : Event K → List (VrxEvent K)
  | .chunk widebandIq => [.chunk widebandIq]
  | event => (s.asks event).map .retune

end Channel

section
variable {K : Type} [Field K] [LinearOrder K] [FloorRing K] (P : Platform K)

/-- A section is the retune it asks for, if it is one, and leaves the receiver alone otherwise. -/
theorem perform_vrx (s : SpyServer.Server K) (fd : ℕ) (sec : SpyServer.Section) :
    (VirtualReceiver.receiver P.trig).run s.vrx
      (match sec with
        | .retune value => [.retune (value.toNat : K)]
        | _ => []) = some (s.perform P fd sec).vrx := by
  have hmodify : ∀ f, (s.modifyClient fd f).vrx = s.vrx := by
    intro f
    unfold SpyServer.Server.modifyClient
    cases s.clients.lookup fd <;> rfl
  have hsend : ∀ mt st b, (s.sendMessage fd mt st b).vrx = s.vrx := by
    intro mt st b
    unfold SpyServer.Server.sendMessage
    cases s.clients.lookup fd <;> rfl
  cases sec with
  | greet | streamingMode | streamingEnabled => exact congrArg some (hmodify _).symm
  | deviceInfo | clientSync | pong => exact congrArg some (hsend ..).symm
  | retune value =>
    show (VirtualReceiver.handle P.trig s.vrx (.retune _)).bind _ = some (s.retune P.trig value).vrx
    rw [VirtualReceiver.handle, SpyServer.Server.retune]
    cases s.vrx.retune P.trig (value.toNat : K) <;> rfl

namespace Channel

/-! ### What a step can do -/

/-- One constructor for each kind of step, with what it needs and what it leaves. -/
inductive Step (s : Channel K) : Event K → Channel K → Prop where
  | chunk {widebandIq : List (K × K)} {outBuf : Option (List UInt8)} {vrx : VirtualReceiver K}
      (hidle : s.streaming = .idle) (h : s.vrx.processWidebandChunk P.trig widebandIq = some (outBuf, vrx)) :
      Step s (.chunk widebandIq) {s.withVrx vrx with streaming := outBuf.elim .idle .rtlTcp}
  | rtlTcpCallback {outBuf : List UInt8} (outcome : ℕ → ℕ) (h : s.streaming = .rtlTcp outBuf) :
      Step s (.rtlTcpCallback outcome)
        {s with rtlTcp := s.rtlTcp.broadcastIq outBuf outcome, streaming := .spyServer outBuf}
  | spyServerCallback {outBuf : List UInt8} (outcome : ℕ → ℕ) (h : s.streaming = .spyServer outBuf) :
      Step s (.spyServerCallback outcome) {s with
        spyServer := {s.spyServer with server := s.spyServer.server.broadcastIq outBuf outcome}
        streaming := .idle}
  | accept {fd : ℕ} {rtlTcp : RtlTcp.Server UInt8} (hclosed : s.readers fd = none)
      (h : s.rtlTcp.step (.accept fd) = some rtlTcp) : Step s (.accept fd) {s with rtlTcp := rtlTcp}
  | register {fd : ℕ} {rtlTcp : RtlTcp.Server UInt8} (haccepting : s.rtlTcp.accepting = some fd)
      (h : s.rtlTcp.step .register = some rtlTcp) :
      Step s .register {s with rtlTcp := rtlTcp, readers := Function.update s.readers fd (some ⟨[], []⟩)}
  | recv {fd : ℕ} {chunk recvBuf : List UInt8} {loop : RtlTcp.CommandLoop} (hidle : s.readers fd = some ⟨recvBuf, []⟩)
      (h : RtlTcp.CommandLoop.recv ⟨[], recvBuf⟩ chunk = some loop) :
      Step s (.recv fd chunk) {s with readers := Function.update s.readers fd (some ⟨loop.recvBuf, loop.handled⟩)}
  | proceed {fd : ℕ} {recvBuf : List UInt8} {c : RtlTcp.ParsedCommand} {pending : List RtlTcp.ParsedCommand}
      (h : s.readers fd = some ⟨recvBuf, c :: pending⟩) :
      Step s (.proceed fd) {s.withVrx (RtlTcp.handleCommand P.trig s.vrx c).1 with
        readers := Function.update s.readers fd (some ⟨recvBuf, pending⟩)}
  | disconnect {fd : ℕ} {recvBuf : List UInt8} {rtlTcp : RtlTcp.Server UInt8} (hidle : s.readers fd = some ⟨recvBuf, []⟩)
      (h : s.rtlTcp.step (.removeClient fd) = some rtlTcp) :
      Step s (.disconnect fd) {s with rtlTcp := rtlTcp, readers := Function.update s.readers fd none}
  | spyServer {event : SpyServer.Event} {spyServer : SpyServer.Session K}
      (hown : ∀ data outcome, event ≠ .broadcast data outcome) (h : s.spyServer.step P event = some spyServer) :
      Step s (.spyServer event) {s with spyServer := spyServer}

variable {P}

/-- Every step is one of these. -/
theorem step_cases {s t : Channel K} {event : Event K} (h : (machine P).step s event = some t) :
    Step P s event t := by
  cases event with
  | chunk widebandIq =>
    simp only [machine, step] at h
    split at h
    · next hidle =>
      obtain ⟨⟨outBuf, vrx⟩, hchunk, ht⟩ := Option.bind_eq_some_iff.mp h
      obtain rfl := Option.some.inj ht
      exact .chunk hidle hchunk
    · cases h
  | rtlTcpCallback outcome =>
    simp only [machine, step] at h
    split at h
    · next outBuf hstreaming =>
      obtain rfl := Option.some.inj h
      exact .rtlTcpCallback outcome hstreaming
    · cases h
  | spyServerCallback outcome =>
    simp only [machine, step] at h
    split at h
    · next outBuf hstreaming =>
      obtain rfl := Option.some.inj h
      exact .spyServerCallback outcome hstreaming
    · cases h
  | accept fd =>
    simp only [machine, step] at h
    split at h
    · next hclosed =>
      obtain ⟨rtlTcp, hstep, ht⟩ := Option.bind_eq_some_iff.mp h
      obtain rfl := Option.some.inj ht
      exact .accept hclosed hstep
    · cases h
  | register =>
    simp only [machine, step] at h
    split at h
    · next fd haccepting =>
      obtain ⟨rtlTcp, hstep, ht⟩ := Option.bind_eq_some_iff.mp h
      obtain rfl := Option.some.inj ht
      exact .register haccepting hstep
    · cases h
  | recv fd chunk =>
    simp only [machine, step] at h
    split at h
    · next recvBuf hidle =>
      obtain ⟨loop, hloop, ht⟩ := Option.bind_eq_some_iff.mp h
      obtain rfl := Option.some.inj ht
      exact .recv hidle hloop
    · cases h
  | proceed fd =>
    simp only [machine, step] at h
    split at h
    · next recvBuf c pending hreader =>
      obtain rfl := Option.some.inj h
      exact .proceed hreader
    · cases h
  | disconnect fd =>
    simp only [machine, step] at h
    split at h
    · next recvBuf hidle =>
      obtain ⟨rtlTcp, hstep, ht⟩ := Option.bind_eq_some_iff.mp h
      obtain rfl := Option.some.inj ht
      exact .disconnect hidle hstep
    · cases h
  | spyServer event =>
    cases event with
    | broadcast data outcome => cases h
    | accept fd | command fd cmd | proceed fd | disconnect fd =>
      obtain ⟨spyServer, hspy, ht⟩ := Option.bind_eq_some_iff.mp h
      obtain rfl := Option.some.inj ht
      exact .spyServer (fun _ _ hevent => nomatch hevent) hspy

/-! ### What every step keeps -/

/-- The clients that are registered with the rtl_tcp endpoint are those that have a thread,
and no descriptor is registered twice. -/
structure Sound (s : Channel K) : Prop where
  distinct : s.rtlTcp.Distinct
  registered : ∀ fd, fd ∈ s.rtlTcp.clientFds ↔ s.readers fd ≠ none

omit [Field K] [LinearOrder K] [FloorRing K] in
theorem sound_initial (vrx : VirtualReceiver K) : (initial vrx).Sound where
  distinct := ⟨List.nodup_nil, fun _ h => nomatch h⟩
  registered _ := iff_of_false List.not_mem_nil (not_not.mpr rfl)

omit [Field K] [LinearOrder K] [FloorRing K] in
/-- A client that is being accepted has no thread yet. -/
theorem Sound.accepting {s : Channel K} (hs : s.Sound) {fd : ℕ} (h : s.rtlTcp.accepting = some fd) :
    s.readers fd = none := by
  by_contra hreader
  exact hs.distinct.2 fd h ((hs.registered fd).mpr hreader)

theorem Sound.step {s t : Channel K} {event : Event K} (hs : s.Sound) (h : (machine P).step s event = some t) :
    t.Sound := by
  cases step_cases h with
  | chunk | spyServerCallback | spyServer => exact ⟨hs.distinct, hs.registered⟩
  | @rtlTcpCallback outBuf outcome hstreaming =>
    obtain ⟨hfds, -, -⟩ := RtlTcp.Server.broadcastIq_spec s.rtlTcp hs.distinct outBuf outcome
    refine ⟨RtlTcp.Server.distinct_step s.rtlTcp (.broadcastIq outBuf outcome) _ hs.distinct rfl, fun fd => ?_⟩
    rw [hfds]
    exact hs.registered fd
  | @accept fd rtlTcp hclosed hstep =>
    refine ⟨RtlTcp.Server.distinct_step s.rtlTcp (.accept fd) _ hs.distinct hstep, fun g => ?_⟩
    simp only [RtlTcp.Server.step] at hstep
    split at hstep
    · obtain rfl := Option.some.inj hstep
      exact hs.registered g
    · cases hstep
  | @register fd rtlTcp haccepting hstep =>
    refine ⟨RtlTcp.Server.distinct_step s.rtlTcp .register _ hs.distinct hstep, fun g => ?_⟩
    rw [RtlTcp.Server.step, haccepting] at hstep
    obtain rfl := Option.some.inj hstep
    by_cases hg : g = fd
    · subst hg
      simp
    · simp [hg, hs.registered g]
  | @recv fd chunk recvBuf loop hidle hrecv =>
    refine ⟨hs.distinct, fun g => (hs.registered g).trans ?_⟩
    by_cases hg : g = fd
    · subst hg
      simp [hidle]
    · simp [hg]
  | @proceed fd recvBuf c pending hreader =>
    refine ⟨hs.distinct, fun g => (hs.registered g).trans ?_⟩
    by_cases hg : g = fd
    · subst hg
      simp [hreader]
    · simp [hg]
  | @disconnect fd recvBuf rtlTcp hidle hstep =>
    refine ⟨RtlTcp.Server.distinct_step s.rtlTcp (.removeClient fd) _ hs.distinct hstep, fun g => ?_⟩
    obtain rfl := Option.some.inj hstep
    by_cases hg : g = fd
    · subst hg
      simp
    · simp [hg, hs.registered g]

theorem sound_reachable {vrx : VirtualReceiver K} {s : Channel K} (h : (machine P).Reachable (initial vrx) s) :
    s.Sound := by
  obtain ⟨events, hrun⟩ := h
  exact Machine.invariant (fun _ _ _ hs hstep => hs.step hstep) hrun (sound_initial vrx)

/-! ### The receiver -/

/-- **A step does to the receiver what it asks of it**, and nothing else. -/
theorem vrx_step {s t : Channel K} {event : Event K} (h : (machine P).step s event = some t) :
    (VirtualReceiver.receiver P.trig).run s.vrx (s.vrxEvents event) = some t.vrx := by
  cases step_cases h with
  | @chunk widebandIq outBuf vrx hidle hchunk =>
    show (VirtualReceiver.handle P.trig s.vrx (.chunk widebandIq)).bind _ = some vrx
    rw [VirtualReceiver.handle, hchunk]
    rfl
  | spyServerCallback outcome hstreaming =>
    exact congrArg some (SpyServer.Server.broadcastIq_spec s.spyServer.server _ outcome).1.symm
  | @proceed fd recvBuf c pending hreader =>
    simp only [vrxEvents, asks, hreader, List.map_map]
    exact RtlTcp.handleCommand_eq s.vrx c
  | @spyServer event spyServer hown hspy =>
    cases event with
    | broadcast data outcome => exact absurd rfl (hown data outcome)
    | accept fd | command fd cmd | disconnect fd =>
      simp only [SpyServer.Session.step] at hspy
      split at hspy
      · obtain rfl := Option.some.inj hspy
        rfl
      · cases hspy
    | proceed fd =>
      simp only [SpyServer.Session.step] at hspy
      split at hspy
      · next sec rest hthread =>
        obtain rfl := Option.some.inj hspy
        have hperform := perform_vrx P s.spyServer.server fd sec
        simp only [vrxEvents, asks, hthread]
        cases sec <;> exact hperform
      · cases hspy
  | rtlTcpCallback | accept | register | recv | disconnect => rfl

/-- **The receiver has been through what the threads asked of it**, in that order. -/
theorem vrx_run {s t : Channel K} {events : List (Event K)} (h : (machine P).run s events = some t) :
    (VirtualReceiver.receiver P.trig).run s.vrx ((machine P).trace vrxEvents s events) = some t.vrx :=
  Machine.run_trace vrx (fun _ => True) (fun _ _ _ _ _ => trivial) (fun _ _ _ _ hstep => vrx_step hstep) h trivial

omit [LinearOrder K] [FloorRing K] in
/-- The frequencies asked for are those of the receiver's own run. -/
theorem requested_vrxEvents (s : Channel K) (event : Event K) :
    (s.vrxEvents event).filterMap VrxEvent.requested = s.asks event := by
  have hretunes : ∀ asked : List K, (asked.map VrxEvent.retune).filterMap VrxEvent.requested = asked := by
    intro asked
    rw [List.filterMap_map]
    exact List.filterMap_some
  cases event with
  | chunk widebandIq => rfl
  | rtlTcpCallback | spyServerCallback | accept | register | recv | proceed | disconnect | spyServer =>
    exact hretunes _

/-- **The last frequency in the span wins**, whoever of either endpoint's clients asked for it,
and however the threads interleave: nothing else that any of them sends changes what the
receiver is tuned to, and the oscillator always turns for it. -/
theorem last_retune_wins (cfg : VirtualReceiverConfig K) (center rate : K) (vrx : VirtualReceiver K)
    (h : VirtualReceiver.construct P.trig cfg center rate = .ok vrx) (events : List (Event K)) (s : Channel K)
    (hrun : (machine P).run (initial vrx) events = some s) :
    s.vrx.Located P.trig center rate ∧
      s.vrx.centerFrequencyHz = (((machine P).trace asks (initial vrx) events).filter
        (VirtualReceiver.inSpan center rate)).getLast?.getD cfg.centerFrequencyHz ∧
      s.vrx.decimator.taps = buildTaps P.trig cfg.sampleRateHz rate ∧
      s.vrx.decimator.factor = vrx.decimator.factor := by
  have hvrx : (VirtualReceiver.receiver P.trig).run vrx _ = some s.vrx := vrx_run hrun
  have hasks : (machine P).trace asks (initial vrx) events =
      ((machine P).trace vrxEvents (initial vrx) events).filterMap VrxEvent.requested := by
    rw [← Machine.trace_filterMap]
    congr 1
    funext s event
    exact (requested_vrxEvents s event).symm
  obtain ⟨hlocated, hcenter⟩ := (VirtualReceiver.construct_located h).last_requested hvrx
  obtain ⟨htaps, hfactor⟩ := VirtualReceiver.run_decimator hvrx
  rw [VirtualReceiver.construct_taps P.trig h] at htaps
  rw [(VirtualReceiver.construct_ok P.trig h).2.2.2.2.2.2.1, ← hasks] at hcenter
  exact ⟨hlocated, hcenter, htaps, hfactor⟩

/-- A client of each endpoint asks for a frequency. -/
def twoRetunes : List (Event ℚ) :=
  [.accept 4, .register, .spyServer (.accept 5), .recv 4 [1, 5, 245, 225, 1],
    .spyServer (.command 5 (2, [101, 0, 0, 0, 0, 225, 245, 5])), .proceed 4, .spyServer (.proceed 5)]

theorem trace_twoRetunes (vrx : VirtualReceiver ℚ) :
    (machine Platform.sample).trace asks (initial vrx) twoRetunes = [100000001, 100000000] := by
  show [((100000001 : ℕ) : ℚ), ((100000000 : ℕ) : ℚ)] = _
  norm_num

theorem last_retune_wins_two : ∃ vrx s,
    VirtualReceiver.construct Platform.sample.trig (SpyServer.wholeConfig 3000000) 100000000 3000000 = .ok vrx ∧
      (machine Platform.sample).run (initial vrx) twoRetunes = some s ∧ s.vrx.centerFrequencyHz = 100000000 := by
  obtain ⟨vrx, h⟩ := SpyServer.construct_whole (by norm_num : (0 : ℚ) < 3000000)
  have hrun : ∃ s, (machine Platform.sample).run (initial vrx) twoRetunes = some s := ⟨_, rfl⟩
  obtain ⟨s, hs⟩ := hrun
  obtain ⟨-, hcenter, -⟩ := last_retune_wins (SpyServer.wholeConfig 3000000) 100000000 3000000 vrx h twoRetunes s hs
  refine ⟨vrx, s, h, hs, ?_⟩
  rw [hcenter, trace_twoRetunes]
  norm_num [VirtualReceiver.inSpan]

/-! ### The commands -/

/-- What an rtl_tcp client's thread does: it reads bytes, or it handles a command. -/
inductive Act where
  | read (chunk : List UInt8)
  | handle (c : RtlTcp.ParsedCommand)

def Act.chunk : Act → Option (List UInt8)
  | .read chunk => some chunk
  | .handle _ => none

def Act.command : Act → Option RtlTcp.ParsedCommand
  | .read _ => none
  | .handle c => some c

/-- What a step has the thread of the client at `fd` do. -/
def acts (fd : ℕ) (s : Channel K) : Event K → List Act
  | .recv g chunk => if g = fd then [.read chunk] else []
  | .proceed g =>
    match s.readers g with
    | some ⟨_, c :: _⟩ => if g = fd then [.handle c] else []
    | _ => []
  | _ => []

/-- Where a thread is that has done so much since its client was registered. -/
def ReadSoFar (fd : ℕ) (done : List Act) (s : Channel K) : Prop :=
  ∃ recvBuf pending, s.readers fd = some ⟨recvBuf, pending⟩ ∧
    RtlTcp.clientReadLoop (done.filterMap Act.chunk) = some ⟨done.filterMap Act.command ++ pending, recvBuf⟩

/-- One more read is one more round of the loop. -/
theorem clientReadLoop_concat {chunks : List (List UInt8)} {handled : List RtlTcp.ParsedCommand}
    {recvBuf chunk : List UInt8} {loop : RtlTcp.CommandLoop}
    (h : RtlTcp.clientReadLoop chunks = some ⟨handled, recvBuf⟩)
    (hrecv : RtlTcp.CommandLoop.recv ⟨[], recvBuf⟩ chunk = some loop) :
    RtlTcp.clientReadLoop (chunks ++ [chunk]) = some ⟨handled ++ loop.handled, loop.recvBuf⟩ := by
  obtain ⟨r, hscan, hloop⟩ := Option.bind_eq_some_iff.mp hrecv
  obtain rfl := Option.some.inj hloop
  rw [RtlTcp.clientReadLoop, List.foldlM_append, ← RtlTcp.clientReadLoop, h]
  show (RtlTcp.CommandLoop.recv ⟨handled, recvBuf⟩ chunk).bind _ = _
  rw [RtlTcp.CommandLoop.recv, hscan]
  rfl

theorem readSoFar_step (fd : ℕ) (done : List Act) (s : Channel K) (event : Event K) (t : Channel K)
    (hstay : event ≠ .disconnect fd) (hsound : s.Sound) (hs : ReadSoFar fd done s)
    (h : (machine P).step s event = some t) : ReadSoFar fd (done ++ s.acts fd event) t := by
  obtain ⟨recvBuf, pending, hreader, hloop⟩ := hs
  cases step_cases h with
  | chunk | rtlTcpCallback | spyServerCallback | accept | spyServer =>
    exact ⟨recvBuf, pending, hreader, by simpa [acts] using hloop⟩
  | @register g rtlTcp haccepting hregister =>
    have hg : fd ≠ g := by
      rintro rfl
      rw [hsound.accepting haccepting] at hreader
      cases hreader
    exact ⟨recvBuf, pending, (Function.update_of_ne hg ..).trans hreader, by simpa [acts] using hloop⟩
  | @recv g chunk buf loop hidle hrecv =>
    by_cases hg : g = fd
    · subst hg
      obtain ⟨rfl, rfl⟩ := Reader.mk.inj (Option.some.inj (hreader.symm.trans hidle))
      refine ⟨_, _, Function.update_self .., ?_⟩
      rw [List.append_nil] at hloop
      have hchunk : [Act.read chunk].filterMap Act.chunk = [chunk] := rfl
      have hcommand : [Act.read chunk].filterMap Act.command = [] := rfl
      rw [acts, if_pos rfl, List.filterMap_append, List.filterMap_append, hchunk, hcommand, List.append_nil]
      exact clientReadLoop_concat hloop hrecv
    · refine ⟨recvBuf, pending, (Function.update_of_ne (Ne.symm hg) ..).trans hreader, ?_⟩
      rwa [acts, if_neg hg, List.append_nil]
  | @proceed g buf c rest hidle =>
    rw [acts, hidle]
    by_cases hg : g = fd
    · subst hg
      obtain ⟨rfl, rfl⟩ := Reader.mk.inj (Option.some.inj (hreader.symm.trans hidle))
      refine ⟨_, _, Function.update_self .., ?_⟩
      have hchunk : [Act.handle c].filterMap Act.chunk = [] := rfl
      have hcommand : [Act.handle c].filterMap Act.command = [c] := rfl
      simp only [if_true]
      rw [List.filterMap_append, List.filterMap_append, hchunk, hcommand, List.append_nil, List.append_assoc]
      exact hloop
    · refine ⟨recvBuf, pending, (Function.update_of_ne (Ne.symm hg) ..).trans hreader, ?_⟩
      simpa [hg] using hloop
  | @disconnect g buf rtlTcp hidle hremove =>
    have hg : fd ≠ g := fun hfd => hstay (hfd ▸ rfl)
    exact ⟨recvBuf, pending, (Function.update_of_ne hg ..).trans hreader, by simpa [acts] using hloop⟩

/-- **Whatever the other threads do, a client's commands are handled once each, in order**:
those handled since it was registered and those of its last read that are still to be are
the whole commands among the bytes read from it. -/
theorem commands_in_order (vrx : VirtualReceiver K) (s t : Channel K) (hs : (machine P).Reachable (initial vrx) s)
    (fd : ℕ) (hfresh : s.readers fd = some ⟨[], []⟩) (events : List (Event K))
    (hstay : ∀ event ∈ events, event ≠ .disconnect fd) (hrun : (machine P).run s events = some t) :
    ∃ reader, t.readers fd = some reader ∧ reader.recvBuf.length < RtlTcp.commandLength ∧
      let done := (machine P).trace (acts fd) s events
      (done.filterMap Act.command ++ reader.pending).flatMap RtlTcp.commandBytes ++ reader.recvBuf =
        (done.filterMap Act.chunk).flatten := by
  have hrule := Machine.trace_rule (f := acts fd) (fun done u => u.Sound ∧ ReadSoFar fd done u)
    (fun event => event ≠ .disconnect fd) ?_ hstay hrun [] ⟨sound_reachable hs, [], [], hfresh, rfl⟩
  · obtain ⟨-, recvBuf, pending, hreader, hloop⟩ := hrule
    obtain ⟨loop, hloop', hlen, hbytes⟩ := RtlTcp.clientReadLoop_spec
      (((machine P).trace (acts fd) s events).filterMap Act.chunk)
    obtain rfl := Option.some.inj (hloop'.symm.trans hloop)
    exact ⟨⟨recvBuf, pending⟩, hreader, hlen, hbytes⟩
  · intro done u event w hevent hu hw
    exact ⟨hu.1.step hw, readSoFar_step fd done u event w hevent hu.1 hu.2 hw⟩

/-- A command in two reads, handled, and the first bytes of another. -/
def cutCommand : List (Event ℚ) := [.recv 4 [1, 5], .recv 4 [245, 225, 0, 2, 0], .proceed 4]

theorem commands_in_order_cut : ∃ s t, (machine Platform.sample).Reachable (initial VirtualReceiver.sample) s ∧
    (machine Platform.sample).run s cutCommand = some t ∧
    ∃ reader, t.readers 4 = some reader ∧ reader.recvBuf.length < RtlTcp.commandLength ∧
      let done := (machine Platform.sample).trace (acts 4) s cutCommand
      (done.filterMap Act.command ++ reader.pending).flatMap RtlTcp.commandBytes ++ reader.recvBuf =
        (done.filterMap Act.chunk).flatten := by
  have hstart : ∃ s, (machine Platform.sample).run (initial VirtualReceiver.sample) [.accept 4, .register] = some s ∧
      s.readers 4 = some ⟨[], []⟩ ∧ ∃ t, (machine Platform.sample).run s cutCommand = some t :=
    ⟨_, rfl, rfl, _, rfl⟩
  obtain ⟨s, hs, hfresh, t, ht⟩ := hstart
  exact ⟨s, t, ⟨_, hs⟩, ht, commands_in_order VirtualReceiver.sample s t ⟨_, hs⟩ 4 hfresh cutCommand (by simp [cutCommand]) ht⟩

end Channel

end

end VrxServer.Main
