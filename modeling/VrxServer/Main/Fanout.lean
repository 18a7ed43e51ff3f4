import VrxServer.Main.Channel

/-! One upstream link, any number of receivers.

The upstream client's callback hands every wideband chunk to each receiver in turn. What
happens at one receiver reaches no other: in any run of all of them, each has been through
its own clients' steps and through the upstream's chunks, every one of them once and in
order, but for the one the loop has not come to (`receivers_isolated`). -/
namespace VrxServer.Main
open Base Config Dsp
open SpyServer (Platform)

/-- All receivers, and the chunk the callback is at with how many receivers have been given it. -/
structure System (K : Type) where
  channels : List (Channel K)
  fanout : Option (List (K × K) × ℕ)

inductive SystemEvent (K : Type) where
  /-- The upstream client calls the callback with a chunk. -/
  | call (widebandIq : List (K × K))
  /-- The loop gives the chunk to the next receiver. -/
  | hand
  /-- The callback returns. -/
  | ret
  /-- Any other step at the receiver `i`: of its clients, of its accept threads or of its callbacks. -/
  | own (i : ℕ) (event : Event K)

def Event.isChunk {K : Type} : Event K → Bool
  | .chunk _ => true
  | _ => false

namespace System
variable {K : Type}

def initial (vrxs : List (VirtualReceiver K)) : System K := ⟨vrxs.map Channel.initial, none⟩

/-- The streaming thread is not at one of the receivers. -/
def quiet (s : System K) : Bool :=
  s.channels.all fun c =>
    match c.streaming with
    | .idle => true
    | _ => false

section Step
variable [Field K] [LinearOrder K] [FloorRing K] (P : Platform K)

/-- A step at one receiver. -/
def stepAt (s : System K) (i : ℕ) (event : Event K) : Option (System K) := do
  let c ← s.channels[i]?
  let c' ← c.step P event
  some {s with channels := s.channels.set i c'}

def step (s : System K) : SystemEvent K → Option (System K)
  | .call widebandIq => if s.fanout = none then some {s with fanout := some (widebandIq, 0)} else none
  | .hand =>
    match s.fanout with
    | some (widebandIq, i) =>
      if s.quiet then (s.stepAt P i (.chunk widebandIq)).map fun t => {t with fanout := some (widebandIq, i + 1)}
      else none
    | none => none
  | .ret =>
    match s.fanout with
    | some (_, i) => if i = s.channels.length ∧ s.quiet then some {s with fanout := none} else none
    | none => none
  | .own i event => if event.isChunk then none else s.stepAt P i event

def machine : Machine (System K) (SystemEvent K) := ⟨step P⟩

end Step

/-! ### What one receiver sees of a step -/

/-- The steps of the receiver `i`. -/
def seen (i : ℕ) (s : System K) : SystemEvent K → List (Event K)
  | .hand =>
    match s.fanout with
    | some (widebandIq, j) => if j = i then [.chunk widebandIq] else []
    | none => []
  | .own j event => if j = i then [event] else []
  | _ => []

/-- The chunks of the upstream client. -/
def called (_ : System K) : SystemEvent K → List (List (K × K))
  | .call widebandIq => [widebandIq]
  | _ => []

/-- The chunk the loop is still to give to the receiver `i`. -/
def waiting (i : ℕ) (s : System K) : List (List (K × K)) :=
  match s.fanout with
  | some (widebandIq, j) => if j ≤ i then [widebandIq] else []
  | none => []

/-- The chunk of a step, if it is one. -/
def chunkOf : Event K → Option (List (K × K))
  | .chunk widebandIq => some widebandIq
  | _ => none

variable [Field K] [LinearOrder K] [FloorRing K] {P : Platform K}

/-! ### Steps -/

/-- A step at one receiver leaves all others. -/
theorem stepAt_spec {s t : System K} {i : ℕ} {event : Event K} (h : s.stepAt P i event = some t) :
    ∃ c c', s.channels[i]? = some c ∧ (Channel.machine P).step c event = some c' ∧
      t = {s with channels := s.channels.set i c'} := by
  obtain ⟨c, hc, hrest⟩ := Option.bind_eq_some_iff.mp h
  obtain ⟨c', hc', ht⟩ := Option.bind_eq_some_iff.mp hrest
  exact ⟨c, c', hc, hc', (Option.some.inj ht).symm⟩

/-- One constructor for each kind of step. -/
inductive Step (P : Platform K) (s : System K) : SystemEvent K → System K → Prop where
  | call (widebandIq : List (K × K)) (h : s.fanout = none) :
      Step P s (.call widebandIq) {s with fanout := some (widebandIq, 0)}
  | hand {widebandIq : List (K × K)} {i : ℕ} {c c' : Channel K} (h : s.fanout = some (widebandIq, i))
      (hc : s.channels[i]? = some c) (hstep : (Channel.machine P).step c (.chunk widebandIq) = some c') :
      Step P s .hand ⟨s.channels.set i c', some (widebandIq, i + 1)⟩
  | ret {widebandIq : List (K × K)} (h : s.fanout = some (widebandIq, s.channels.length)) :
      Step P s .ret {s with fanout := none}
  | own {i : ℕ} {event : Event K} {c c' : Channel K} (hevent : event.isChunk = false) (hc : s.channels[i]? = some c)
      (hstep : (Channel.machine P).step c event = some c') :
      Step P s (.own i event) {s with channels := s.channels.set i c'}

theorem step_cases {s t : System K} {event : SystemEvent K} (h : (machine P).step s event = some t) :
    Step P s event t := by
  cases event with
  | call widebandIq =>
    simp only [machine, step] at h
    split at h
    · next hidle =>
      obtain rfl := Option.some.inj h
      exact .call widebandIq hidle
    · cases h
  | hand =>
    simp only [machine, step] at h
    split at h
    · next widebandIq i hfanout =>
      split at h
      · obtain ⟨u, hu, rfl⟩ := Option.map_eq_some_iff.mp h
        obtain ⟨c, c', hc, hstep, rfl⟩ := stepAt_spec hu
        exact .hand hfanout hc hstep
      · cases h
    · cases h
  | ret =>
    simp only [machine, step] at h
    split at h
    · next widebandIq i hfanout =>
      split at h
      · next hend =>
        obtain rfl := Option.some.inj h
        exact .ret (hend.1 ▸ hfanout)
      · cases h
    · cases h
  | own i event =>
    simp only [machine, step] at h
    split at h
    · cases h
    · next hevent =>
      obtain ⟨c, c', hc, hstep, rfl⟩ := stepAt_spec h
      exact .own (Bool.eq_false_iff.mpr hevent) hc hstep

theorem length_step {s t : System K} {event : SystemEvent K} (h : (machine P).step s event = some t) :
    t.channels.length = s.channels.length := by
  cases step_cases h with
  | call | ret => rfl
  | hand | own => exact List.length_set

/-- A receiver takes the steps it sees, and is otherwise left alone. -/
theorem channel_step {s t : System K} {event : SystemEvent K} (h : (machine P).step s event = some t) {i : ℕ}
    {c : Channel K} (hc : s.channels[i]? = some c) :
    ∃ c', t.channels[i]? = some c' ∧ (Channel.machine P).run c (s.seen i event) = some c' := by
  have hat : ∀ {j : ℕ} {d d' : Channel K} {e : Event K}, s.channels[j]? = some d →
      (Channel.machine P).step d e = some d' →
      ∃ c', (s.channels.set j d')[i]? = some c' ∧ (Channel.machine P).run c (if j = i then [e] else []) = some c' := by
    intro j d d' e hd hstep
    by_cases hj : j = i
    · subst hj
      obtain rfl := Option.some.inj (hd.symm.trans hc)
      have hlt := (List.getElem?_eq_some_iff.mp hc).1
      refine ⟨d', List.getElem?_set_self hlt, ?_⟩
      rw [if_pos rfl, Machine.run_cons, hstep]
      rfl
    · exact ⟨c, (List.getElem?_set_ne hj).trans hc, by rw [if_neg hj]; rfl⟩
  cases step_cases h with
  | call | ret => exact ⟨c, hc, rfl⟩
  | @hand widebandIq j d d' hfanout hd hstep =>
    simp only [seen, hfanout]
    exact hat hd hstep
  | own hevent hd hstep => exact hat hd hstep

/-- What the upstream calls with is given to the receiver once, or waits for it. -/
theorem waiting_step {s t : System K} {event : SystemEvent K} (h : (machine P).step s event = some t) {i : ℕ}
    (hi : i < s.channels.length) :
    s.waiting i ++ s.called event = (s.seen i event).filterMap chunkOf ++ t.waiting i := by
  cases step_cases h with
  | call widebandIq hidle => simp [waiting, called, seen, hidle]
  | @hand widebandIq j c c' hfanout hc hstep =>
    simp only [waiting, called, seen, hfanout, List.append_nil]
    rcases Nat.lt_trichotomy j i with hj | rfl | hj
    · simp [hj.le, hj.ne, Nat.succ_le_of_lt hj]
    · simp [chunkOf]
    · simp [Nat.not_le.mpr hj, hj.ne', Nat.not_le.mpr (Nat.lt_succ_of_lt hj)]
  | @ret widebandIq hfanout => simp [waiting, called, seen, hfanout, Nat.not_le.mpr hi]
  | @own j event c c' hevent hc hstep =>
    have hchunk : (if j = i then [event] else []).filterMap chunkOf = [] := by
      split
      · cases event with
        | chunk => cases hevent
        | rtlTcpCallback | spyServerCallback | accept | register | recv | proceed | disconnect | spyServer => rfl
      · rfl
    simp only [called, seen, List.append_nil, hchunk, List.nil_append]
    rfl

omit [Field K] [LinearOrder K] [FloorRing K] in
theorem channel_initial {vrxs : List (VirtualReceiver K)} {i : ℕ} {vrx : VirtualReceiver K}
    (hvrx : vrxs[i]? = some vrx) : (initial vrxs).channels[i]? = some (Channel.initial vrx) := by
  rw [initial, List.getElem?_map, hvrx]
  rfl

/-- In a run a receiver takes the steps it sees. -/
theorem channel_run {s t : System K} {events : List (SystemEvent K)} (h : (machine P).run s events = some t) {i : ℕ}
    {c : Channel K} (hc : s.channels[i]? = some c) :
    ∃ c', t.channels[i]? = some c' ∧ (Channel.machine P).run c ((machine P).trace (seen i) s events) = some c' := by
  apply Machine.trace_rule (fun os u => ∃ c', u.channels[i]? = some c' ∧
    (Channel.machine P).run c os = some c') (fun _ => True) _ (fun _ _ => trivial) h [] ⟨c, hc, rfl⟩
  intro os u event w _ hu hw
  obtain ⟨d, hd, hos⟩ := hu
  obtain ⟨c', hc', hstep⟩ := channel_step hw hd
  exact ⟨c', hc', by rw [Machine.run_append, hos]; exact hstep⟩

/-- In a run the upstream's chunks are given to a receiver once and in order. -/
theorem waiting_run {s t : System K} {events : List (SystemEvent K)} (h : (machine P).run s events = some t) {i : ℕ}
    (hi : i < s.channels.length) :
    s.waiting i ++ (machine P).trace called s events =
      ((machine P).trace (seen i) s events).filterMap chunkOf ++ t.waiting i := by
  rw [← Machine.trace_filterMap]
  exact Machine.trace_pending (fun u => i < u.channels.length) (fun u event w hu hw => (length_step hw).symm ▸ hu)
    (fun u event w hu hw => waiting_step hw hu) h hi

/-- **No receiver hears of another.** In every run, whatever happens at the others and in
whatever order, a receiver is where its own clients' steps and the upstream's chunks take it;
the chunks are those of the upstream, each once and in order, and it may still wait for the
last. -/
theorem receivers_isolated (vrxs : List (VirtualReceiver K)) (events : List (SystemEvent K)) (s : System K)
    (hrun : (machine P).run (initial vrxs) events = some s) (i : ℕ) (vrx : VirtualReceiver K)
    (hvrx : vrxs[i]? = some vrx) :
    let steps := (machine P).trace (seen i) (initial vrxs) events
    (∃ c, s.channels[i]? = some c ∧ (Channel.machine P).run (Channel.initial vrx) steps = some c) ∧
      (machine P).trace called (initial vrxs) events = steps.filterMap chunkOf ++ s.waiting i := by
  intro steps
  have hstart := channel_initial hvrx
  exact ⟨channel_run hrun hstart, waiting_run hrun (List.getElem?_eq_some_iff.mp hstart).1⟩

/-- A client of the second of two receivers comes while the first is at a chunk. -/
def twoReceivers : List (SystemEvent ℚ) :=
  [.call (List.replicate 8 (1, 0)), .hand, .own 1 (.accept 4), .own 0 (.rtlTcpCallback fun _ => 0), .own 1 .register,
    .own 0 (.spyServerCallback fun _ => 0), .hand]

theorem receivers_isolated_two :
    ∃ s, (machine Platform.sample).run (initial [VirtualReceiver.sample, VirtualReceiver.sample]) twoReceivers = some s ∧
      let steps := (machine Platform.sample).trace (seen 1) (initial [VirtualReceiver.sample, VirtualReceiver.sample])
        twoReceivers
      (∃ c, s.channels[1]? = some c ∧
          (Channel.machine Platform.sample).run (Channel.initial VirtualReceiver.sample) steps = some c) ∧
        (machine Platform.sample).trace called (initial [VirtualReceiver.sample, VirtualReceiver.sample]) twoReceivers =
          steps.filterMap chunkOf ++ s.waiting 1 := by
  have hrun : ∃ s, (machine Platform.sample).run (initial [VirtualReceiver.sample, VirtualReceiver.sample])
      twoReceivers = some s := ⟨_, rfl⟩
  obtain ⟨s, hs⟩ := hrun
  exact ⟨s, hs, receivers_isolated [VirtualReceiver.sample, VirtualReceiver.sample] twoReceivers s hs 1
    VirtualReceiver.sample rfl⟩

end System

end VrxServer.Main
