import VrxServer.Base.Run
import VrxServer.Config.Load
import VrxServer.Process.Servers

/-! From the start of the servers to the end of `main`.

The servers are started one after the other, and the upstream client after them; if any of it
fails, or when a signal comes, all servers are stopped, and at the end everything is destroyed.
All the while other threads open and close descriptors, and may get numbers a failed `start` has
closed. What `main` relies on in the upstream client is a structure of its own
(`IqSource.Correct`); with it every step of every thread keeps `Program.Sound`. -/
namespace VrxServer.Main
open Base Config
open Process (Kind)

/-! ### The upstream client -/

/-- How `connect` ends. -/
inductive Connect where
  | returned
  | threw
  /-- It hangs, or it takes the process with it. -/
  | lost
  deriving DecidableEq

/-- A backend; `O` is what the calls out of the program return. -/
structure IqSource (S O : Type) where
  connect : O → S → Connect × S
  close : O → S → S
  /-- Samples can come. -/
  streaming : S → Bool
  /-- A call that was to end the stream has failed. -/
  refused : S → Bool

/-- What `main` relies on. -/
structure IqSource.Correct {S O : Type} (I : IqSource S O) where
  Idle : S → Prop
  Live : S → Prop
  Closed : S → Prop
  quiet : ∀ s, Idle s → I.streaming s = false
  returns : ∀ o s, Idle s → (I.connect o s).1 = .returned → Live (I.connect o s).2
  throws : ∀ o s, Idle s → (I.connect o s).1 = .threw → Idle (I.connect o s).2
  closes : ∀ o s, Live s → Closed (I.close o s)
  idle_closes : ∀ o s, Idle s → Idle (I.close o s)
  closed_closes : ∀ o s, Closed s → Closed (I.close o s)
  stopped : ∀ s, Closed s → I.streaming s = true → I.refused s = true

/-! ### The endpoints -/

/-- A receiver and the kind of server. -/
abbrev Endpoint := ℕ × Kind

def rtlTcpServers (vrxs : List (VirtualReceiverConfig ℚ)) : List Endpoint :=
  (List.range vrxs.length).map fun i => (i, .rtlTcp)

def hasSpyServer (vrxs : List (VirtualReceiverConfig ℚ)) (i : ℕ) : Bool :=
  (vrxs[i]?.map VirtualReceiverConfig.spyserverPort).getD 0 != 0

def spyServers (vrxs : List (VirtualReceiverConfig ℚ)) : List Endpoint :=
  ((List.range vrxs.length).filter (hasSpyServer vrxs)).map fun i => (i, .spyServer)

/-- The order of the loops over both vectors. -/
def endpoints (vrxs : List (VirtualReceiverConfig ℚ)) : List Endpoint := rtlTcpServers vrxs ++ spyServers vrxs

/-- The vector that was declared last is destroyed first. -/
def destructOrder (vrxs : List (VirtualReceiverConfig ℚ)) : List Endpoint := spyServers vrxs ++ rtlTcpServers vrxs

/-- What is to be given the samples, receiver by receiver. -/
def wired (vrxs : List (VirtualReceiverConfig ℚ)) : List Endpoint :=
  (List.range vrxs.length).flatMap fun r => (r, .rtlTcp) :: if hasSpyServer vrxs r then [(r, .spyServer)] else []

/-! ### The program -/

/-- What an open descriptor denotes. -/
inductive File where
  | listener (i : Endpoint)
  | other
  deriving DecidableEq

/-- Where `main` is, with the servers its loop has before it. -/
inductive Phase where
  /-- At the next `start`, or at `connect` behind the last. -/
  | starting (rest : List Endpoint)
  | binding (i : Endpoint) (rest : List Endpoint)
  | listening (i : Endpoint) (rest : List Endpoint)
  /-- At the accept thread's construction. -/
  | spawning (i : Endpoint) (rest : List Endpoint)
  /-- In the handler. -/
  | failing (rest : List Endpoint)
  | running
  | stopping (rest : List Endpoint)
  | closing
  | destroying (code : ℕ) (rest : List Endpoint)
  | destroyingReceivers (code : ℕ)
  | destroyingSource (code : ℕ)
  | exited (code : ℕ)
  /-- `connect` has not come back, or a thread has used what was destroyed. -/
  | lost

def Phase.over : Phase → Bool
  | .exited _ => true
  | _ => false

/-- The server whose socket is open before it runs. -/
def Phase.busy : Phase → Option Endpoint
  | .binding i _ | .listening i _ => some i
  | _ => none

structure Program (S : Type) where
  kernel : ℕ → Option File
  running : Endpoint → Bool
  /-- `none` for -1. -/
  listenFd_ : Endpoint → Option ℕ
  /-- The callbacks of each receiver. -/
  callbacks : ℕ → List Endpoint
  source : S
  destroyed : List Endpoint
  receiversDestroyed : Bool
  phase : Phase
  /-- The servers that have opened a listening socket. -/
  opened : List Endpoint
  /-- The servers' calls of `close`, with what was closed. -/
  closes : List (Endpoint × Option File)
  /-- The callbacks each chunk has led to, in order. -/
  delivered : List (List Endpoint)

inductive ProgramEvent (O : Type) where
  /-- Other threads' descriptors. -/
  | openOther (fd : ℕ)
  | closeOther (fd : ℕ)
  /-- `none` where the call fails. -/
  | socket (fd : Option ℕ)
  | bind (ok : Bool)
  | listen (ok : Bool)
  | spawn (ok : Bool)
  | connect (o : O)
  /-- The source's callback is called, and these receivers make samples of the chunk. -/
  | chunk (yields : ℕ → Bool)
  | signal
  /-- One round of a loop of stops, or its end. -/
  | stop
  | close (o : O)
  | destroy
  | destroySource (o : O)

/-- The chunk that comes, by the receivers that make samples of it. -/
def ProgramEvent.chunks {O : Type} : ProgramEvent O → List (ℕ → Bool)
  | .chunk yields => [yields]
  | _ => []

namespace Program
variable {S O : Type}

/-- Everything is constructed, and nothing started. -/
def initial (vrxs : List (VirtualReceiverConfig ℚ)) (source : S) : Program S where
  kernel _ := none
  running _ := false
  listenFd_ _ := none
  callbacks _ := []
  source := source
  destroyed := []
  receiversDestroyed := false
  phase := .starting (endpoints vrxs)
  opened := []
  closes := []
  delivered := []

/-- `close(listenFd_)`. -/
def closeFd (s : Program S) (i : Endpoint) : Program S :=
  {s with
    kernel := (s.listenFd_ i).elim s.kernel fun fd => Function.update s.kernel fd none
    closes := s.closes ++ [(i, (s.listenFd_ i).bind s.kernel)]}

/-- `stop`: nothing for a server that is not running. -/
def stopServer (s : Program S) (i : Endpoint) : Program S :=
  if s.running i then
    {s.closeFd i with
      running := Function.update s.running i false
      listenFd_ := Function.update s.listenFd_ i none}
  else s

variable (I : IqSource S O) (vrxs : List (VirtualReceiverConfig ℚ))

/-- The callbacks called: all of a receiver that makes samples of the chunk, and none of another. -/
def called (s : Program S) (yields : ℕ → Bool) : List Endpoint :=
  (List.range vrxs.length).flatMap fun r => if yields r then s.callbacks r else []

def step (s : Program S) : ProgramEvent O → Option (Program S)
  | .openOther fd =>
    if s.kernel fd = none then some {s with kernel := Function.update s.kernel fd (some .other)} else none
  | .closeOther fd =>
    if s.kernel fd = some .other then some {s with kernel := Function.update s.kernel fd none} else none
  | .socket none =>
    match s.phase with
    | .starting (i :: _) => some {s with
        listenFd_ := Function.update s.listenFd_ i none
        phase := .failing (endpoints vrxs)}
    | _ => none
  | .socket (some fd) =>
    match s.phase with
    | .starting (i :: rest) =>
      if s.kernel fd = none then some {s with
        kernel := Function.update s.kernel fd (some (.listener i))
        listenFd_ := Function.update s.listenFd_ i (some fd)
        opened := s.opened ++ [i]
        phase := .binding i rest}
      else none
    | _ => none
  -- A failed `bind` or `listen` closes the socket and leaves its number in `listenFd_`.
  | .bind ok =>
    match s.phase with
    | .binding i rest =>
      if ok then some {s with phase := .listening i rest}
      else some {s.closeFd i with phase := .failing (endpoints vrxs)}
    | _ => none
  | .listen ok =>
    match s.phase with
    | .listening i rest =>
      if ok then some {s with
        running := Function.update s.running i true
        callbacks := Function.update s.callbacks i.1 (s.callbacks i.1 ++ [i])
        phase := .spawning i rest}
      else some {s.closeFd i with phase := .failing (endpoints vrxs)}
    | _ => none
  | .spawn ok =>
    match s.phase with
    | .spawning _ rest => some {s with phase := if ok then .starting rest else .failing (endpoints vrxs)}
    | _ => none
  | .connect o =>
    match s.phase with
    | .starting [] => some {s with
        source := (I.connect o s.source).2
        phase := match (I.connect o s.source).1 with
          | .returned => .running
          | .threw => .failing (endpoints vrxs)
          | .lost => .lost}
    | _ => none
  | .chunk yields =>
    if I.streaming s.source ∧ s.phase.over = false then
      if s.receiversDestroyed ∨ ∃ i ∈ s.called vrxs yields, i ∈ s.destroyed then some {s with phase := .lost}
      else some {s with delivered := s.delivered ++ [s.called vrxs yields]}
    else none
  | .signal =>
    match s.phase with
    | .running => some {s with phase := .stopping (endpoints vrxs)}
    | _ => none
  | .stop =>
    match s.phase with
    | .failing [] => some {s with phase := .destroying 1 (destructOrder vrxs)}
    | .failing (i :: rest) => some {s.stopServer i with phase := .failing rest}
    | .stopping [] => some {s with phase := .closing}
    | .stopping (i :: rest) => some {s.stopServer i with phase := .stopping rest}
    | _ => none
  | .close o =>
    match s.phase with
    | .closing => some {s with source := I.close o s.source, phase := .destroying 0 (destructOrder vrxs)}
    | _ => none
  | .destroy =>
    match s.phase with
    | .destroying code [] => some {s with phase := .destroyingReceivers code}
    | .destroying code (i :: rest) =>
      some {s.stopServer i with destroyed := s.destroyed ++ [i], phase := .destroying code rest}
    | .destroyingReceivers code => some {s with receiversDestroyed := true, phase := .destroyingSource code}
    | _ => none
  | .destroySource o =>
    match s.phase with
    | .destroyingSource code => some {s with source := I.close o s.source, phase := .exited code}
    | _ => none

def machine : Machine (Program S) (ProgramEvent O) := ⟨step I vrxs⟩

/-! ### The listening sockets -/

/-- The server has its listening socket open. -/
def Holds (s : Program S) (i : Endpoint) : Prop := s.running i = true ∨ s.phase.busy = some i

/-- What is right about the sockets, whoever holds one. -/
structure Listeners (s : Program S) : Prop where
  named : ∀ fd i, s.kernel fd = some (.listener i) → s.Holds i ∧ s.listenFd_ i = some fd
  held : ∀ i, s.Holds i → ∃ fd, s.listenFd_ i = some fd ∧ s.kernel fd = some (.listener i)
  own : ∀ c ∈ s.closes, c.2 = some (.listener c.1)
  once : (s.closes.map Prod.fst).Nodup
  accounted : ∀ i, i ∈ s.opened ↔ i ∈ s.closes.map Prod.fst ∨ s.Holds i
  released : ∀ i ∈ s.closes.map Prod.fst, ¬ s.Holds i

namespace Listeners
variable {s t : Program S}

/-- A step that leaves the sockets alone. -/
theorem same (h : s.Listeners) (hkernel : ∀ fd i, t.kernel fd = some (.listener i) ↔ s.kernel fd = some (.listener i))
    (hfd : ∀ i, s.Holds i → t.listenFd_ i = s.listenFd_ i) (hholds : ∀ i, t.Holds i ↔ s.Holds i)
    (hopened : t.opened = s.opened) (hcloses : t.closes = s.closes) : t.Listeners where
  named fd i hi := by
    obtain ⟨hheld, hname⟩ := h.named fd i ((hkernel fd i).mp hi)
    exact ⟨(hholds i).mpr hheld, (hfd i hheld).trans hname⟩
  held i hi := by
    have hheld := (hholds i).mp hi
    obtain ⟨fd, hname, hopen⟩ := h.held i hheld
    exact ⟨fd, (hfd i hheld).trans hname, (hkernel fd i).mpr hopen⟩
  own := hcloses ▸ h.own
  once := hcloses ▸ h.once
  accounted i := by rw [hopened, hcloses, h.accounted, hholds]
  released i hi := by
    rw [hcloses] at hi
    rw [hholds]
    exact h.released i hi

/-- A server opens its socket, under a number that is free. -/
theorem opens (h : s.Listeners) {i : Endpoint} {fd : ℕ} (hi : i ∉ s.opened) (hfd : s.kernel fd = none)
    (hkernel : t.kernel = Function.update s.kernel fd (some (.listener i)))
    (hlisten : t.listenFd_ = Function.update s.listenFd_ i (some fd))
    (hholds : ∀ j, t.Holds j ↔ s.Holds j ∨ j = i) (hopened : t.opened = s.opened ++ [i])
    (hcloses : t.closes = s.closes) : t.Listeners := by
  have hfresh : ¬ s.Holds i ∧ i ∉ s.closes.map Prod.fst := by
    rw [h.accounted, not_or] at hi
    exact ⟨hi.2, hi.1⟩
  refine ⟨?_, ?_, hcloses ▸ h.own, hcloses ▸ h.once, ?_, ?_⟩
  · intro g j hj
    rw [hkernel, Function.update_apply] at hj
    rw [hholds, hlisten, Function.update_apply]
    by_cases hg : g = fd
    · rw [if_pos hg] at hj
      obtain rfl := File.listener.inj (Option.some.inj hj)
      rw [if_pos rfl, hg]
      exact ⟨.inr rfl, rfl⟩
    · rw [if_neg hg] at hj
      obtain ⟨hheld, hname⟩ := h.named g j hj
      have hji : j ≠ i := fun heq => hfresh.1 (heq ▸ hheld)
      rw [if_neg hji]
      exact ⟨.inl hheld, hname⟩
  · intro j hj
    rw [hlisten, hkernel]
    by_cases hji : j = i
    · subst hji
      exact ⟨fd, Function.update_self .., Function.update_self ..⟩
    · obtain ⟨g, hname, hopen⟩ := h.held j (((hholds j).mp hj).resolve_right hji)
      have hg : g ≠ fd := by
        rintro rfl
        rw [hfd] at hopen
        cases hopen
      exact ⟨g, by rw [Function.update_of_ne hji, hname], by rw [Function.update_of_ne hg, hopen]⟩
  · intro j
    rw [hopened, hcloses, List.mem_append, List.mem_singleton, h.accounted, hholds, or_assoc]
  · intro j hj
    rw [hcloses] at hj
    rw [hholds, not_or]
    exact ⟨h.released j hj, fun heq => hfresh.2 (heq ▸ hj)⟩

/-- A server closes its socket. -/
theorem closes (h : s.Listeners) {i : Endpoint} (hi : s.Holds i) (hkernel : t.kernel = (s.closeFd i).kernel)
    (hlisten : ∀ j, j ≠ i → t.listenFd_ j = s.listenFd_ j) (hholds : ∀ j, t.Holds j ↔ s.Holds j ∧ j ≠ i)
    (hopened : t.opened = s.opened) (hcloses : t.closes = (s.closeFd i).closes) : t.Listeners := by
  obtain ⟨fd, hname, hopen⟩ := h.held i hi
  have hupdate : t.kernel = Function.update s.kernel fd none := by
    rw [hkernel, closeFd, hname]
    rfl
  have hlog : t.closes = s.closes ++ [(i, some (.listener i))] := by
    rw [hcloses, closeFd, hname, Option.bind_some, hopen]
  have hmem : ∀ j, j ∈ t.closes.map Prod.fst ↔ j ∈ s.closes.map Prod.fst ∨ j = i := by
    intro j
    rw [hlog, List.map_append, List.mem_append, List.map_singleton, List.mem_singleton]
  refine ⟨?_, ?_, ?_, ?_, ?_, ?_⟩
  · intro g j hj
    rw [hupdate, Function.update_apply] at hj
    split at hj
    · cases hj
    · next hg =>
      obtain ⟨hheld, hnamed⟩ := h.named g j hj
      have hji : j ≠ i := by
        rintro rfl
        exact hg (Option.some.inj (hnamed.symm.trans hname))
      exact ⟨(hholds j).mpr ⟨hheld, hji⟩, (hlisten j hji).trans hnamed⟩
  · intro j hj
    obtain ⟨hheld, hji⟩ := (hholds j).mp hj
    obtain ⟨g, hnamed, hopened⟩ := h.held j hheld
    have hg : g ≠ fd := by
      rintro rfl
      exact hji (File.listener.inj (Option.some.inj (hopened.symm.trans hopen)))
    exact ⟨g, (hlisten j hji).trans hnamed, by rw [hupdate, Function.update_of_ne hg, hopened]⟩
  · rw [hlog, List.forall_mem_append, List.forall_mem_singleton]
    exact ⟨h.own, rfl⟩
  · rw [hlog, List.map_append, List.map_singleton, List.nodup_append]
    refine ⟨h.once, List.nodup_singleton _, ?_⟩
    rintro a ha b hb rfl
    obtain rfl := List.mem_singleton.mp hb
    exact h.released _ ha hi
  · intro j
    rw [hopened, hmem, h.accounted, hholds, or_assoc]
    refine or_congr_right ?_
    by_cases hji : j = i
    · subst hji
      exact iff_of_true hi (.inl rfl)
    · exact ⟨fun hj => .inr ⟨hj, hji⟩, fun hj => (hj.resolve_left hji).1⟩
  · intro j hj
    rw [hholds]
    rintro ⟨hheld, hji⟩
    exact h.released j (((hmem j).mp hj).resolve_right hji) hheld

end Listeners

/-- The callbacks of each receiver are those of these servers, in their order. -/
def Wired (s : Program S) (started : List Endpoint) : Prop :=
  ∀ r, s.callbacks r = started.filter fun i => i.1 = r

/-- Nothing is destroyed. -/
def Intact (s : Program S) : Prop := s.destroyed = [] ∧ s.receiversDestroyed = false

/-- At most these servers run. -/
def OnlyRun (s : Program S) (servers : List Endpoint) : Prop := ∀ i, s.running i = true → i ∈ servers

variable {I} in
/-- Nothing streams, or what does could not be stopped. -/
def Over (C : I.Correct) (s : Program S) : Prop := C.Idle s.source ∨ C.Closed s.source ∧ s.Wired (endpoints vrxs)

variable {I} in
/-- What `main` has done by then. -/
def At (C : I.Correct) (s : Program S) : Prop :=
  match s.phase with
  | .starting rest => C.Idle s.source ∧ s.Intact ∧
      ∃ started, endpoints vrxs = started ++ rest ∧ s.Wired started ∧ s.opened = started ∧ s.OnlyRun started
  | .binding i rest | .listening i rest => C.Idle s.source ∧ s.Intact ∧
      ∃ started, endpoints vrxs = started ++ i :: rest ∧ s.Wired started ∧ s.opened = started ++ [i] ∧ s.OnlyRun started
  | .spawning i rest => C.Idle s.source ∧ s.Intact ∧
      ∃ started, endpoints vrxs = started ++ i :: rest ∧ s.Wired (started ++ [i]) ∧ s.opened = started ++ [i] ∧
        s.OnlyRun (started ++ [i])
  | .failing rest => C.Idle s.source ∧ s.Intact ∧ s.OnlyRun rest
  | .running => C.Live s.source ∧ s.Intact ∧ s.Wired (endpoints vrxs) ∧ s.opened = endpoints vrxs ∧
      s.OnlyRun (endpoints vrxs)
  | .stopping rest => C.Live s.source ∧ s.Intact ∧ s.Wired (endpoints vrxs) ∧ s.opened = endpoints vrxs ∧ s.OnlyRun rest
  | .closing => C.Live s.source ∧ s.Intact ∧ s.Wired (endpoints vrxs) ∧ s.opened = endpoints vrxs ∧ s.OnlyRun []
  | .destroying code _ | .destroyingReceivers code | .destroyingSource code | .exited code =>
    s.Over vrxs C ∧ s.OnlyRun [] ∧ (code = 0 → s.opened = endpoints vrxs)
  | .lost => s.Wired (endpoints vrxs) ∧ (s.Intact ∨ I.refused s.source = true)

variable {I} in
/-- What holds in every state of every run. -/
structure Sound (C : I.Correct) (s : Program S) : Prop where
  listeners : s.Listeners
  at_ : At vrxs C s

end Program

/-! ### The endpoints of a receiver -/

theorem filter_range {n r : ℕ} (h : r < n) : (List.range n).filter (fun i => i = r) = [r] := by
  have hbeq : (fun i => decide (i = r)) = (· == r) := by
    funext i
    exact (beq_eq_decide ..).symm
  rw [hbeq, List.filter_beq, List.nodup_range.count, if_pos (List.mem_range.mpr h)]
  rfl

theorem filter_endpoints {vrxs : List (VirtualReceiverConfig ℚ)} {r : ℕ} (h : r < vrxs.length) :
    (endpoints vrxs).filter (fun i => i.1 = r) =
      (r, .rtlTcp) :: if hasSpyServer vrxs r then [(r, .spyServer)] else [] := by
  have hrtlTcp : (rtlTcpServers vrxs).filter (fun i => i.1 = r) = [(r, .rtlTcp)] := by
    rw [rtlTcpServers, List.filter_map]
    show ((List.range vrxs.length).filter fun i => i = r).map _ = _
    rw [filter_range h, List.map_singleton]
  have hspyServer : (spyServers vrxs).filter (fun i => i.1 = r) = if hasSpyServer vrxs r then [(r, .spyServer)] else [] := by
    rw [spyServers, List.filter_map]
    show (((List.range vrxs.length).filter (hasSpyServer vrxs)).filter fun i => i = r).map _ = _
    rw [List.filter_comm, filter_range h]
    cases hspy : hasSpyServer vrxs r <;> simp [hspy]
  rw [endpoints, List.filter_append, hrtlTcp, hspyServer]
  rfl

/-- The endpoints of the receivers that make samples of a chunk. -/
theorem flatMap_endpoints (vrxs : List (VirtualReceiverConfig ℚ)) (yields : ℕ → Bool) :
    ((List.range vrxs.length).flatMap fun r => if yields r then (endpoints vrxs).filter fun i => i.1 = r else []) =
      (wired vrxs).filter fun i => yields i.1 := by
  rw [wired, List.filter_flatMap]
  apply List.flatMap_congr
  intro r hr
  rw [filter_endpoints (List.mem_range.mp hr)]
  cases hyields : yields r <;> cases hspy : hasSpyServer vrxs r <;> simp [hyields]

theorem nodup_endpoints (vrxs : List (VirtualReceiverConfig ℚ)) : (endpoints vrxs).Nodup := by
  rw [endpoints, List.nodup_append]
  refine ⟨List.nodup_range.map fun i j h => (Prod.mk.inj h).1,
    (List.nodup_range.filter _).map fun i j h => (Prod.mk.inj h).1, ?_⟩
  rintro a ha b hb rfl
  obtain ⟨i, -, rfl⟩ := List.mem_map.mp ha
  obtain ⟨j, -, hj⟩ := List.mem_map.mp hb
  cases (Prod.mk.inj hj).2

/-! ### Every step keeps it -/

namespace Program
variable {S O : Type} {I : IqSource S O} {vrxs : List (VirtualReceiverConfig ℚ)} {C : I.Correct}

theorem sound_initial {source : S} (h : C.Idle source) : Sound vrxs C (initial vrxs source) where
  listeners := by
    refine ⟨nofun, ?_, nofun, List.nodup_nil, ?_, nofun⟩
    · rintro i (hi | hi) <;> cases hi
    · intro i
      simp [initial, Holds, Phase.busy]
  at_ := ⟨h, ⟨rfl, rfl⟩, [], rfl, fun _ => rfl, rfl, nofun⟩

/-- A stop closes the server's socket if it runs, and does nothing otherwise. -/
theorem stopServer_listeners {s : Program S} (h : s.Listeners) (hbusy : s.phase.busy = none) (i : Endpoint)
    {t : Program S} (hphase : t.phase.busy = none) (hkernel : t.kernel = (s.stopServer i).kernel)
    (hlisten : t.listenFd_ = (s.stopServer i).listenFd_) (hrunning : t.running = (s.stopServer i).running)
    (hopened : t.opened = s.opened) (hcloses : t.closes = (s.stopServer i).closes) : t.Listeners := by
  have hholds : ∀ u : Program S, u.phase.busy = none → ∀ j, u.Holds j ↔ u.running j = true := by
    intro u hu j
    rw [Holds, hu]
    simp
  cases hruns : s.running i with
  | true =>
    have hstop : s.stopServer i = {s.closeFd i with
        running := Function.update s.running i false
        listenFd_ := Function.update s.listenFd_ i none} := if_pos hruns
    rw [hstop] at hkernel hlisten hrunning hcloses
    refine h.closes ((hholds s hbusy i).mpr hruns) hkernel ?_ ?_ hopened hcloses
    · intro j hj
      rw [hlisten]
      exact Function.update_of_ne hj ..
    · intro j
      rw [hholds t hphase, hholds s hbusy, hrunning]
      show Function.update s.running i false j = true ↔ _
      rw [Function.update_apply]
      split
      · next hj => exact iff_of_false Bool.false_ne_true fun hp => hp.2 hj
      · next hj => exact (and_iff_left hj).symm
  | false =>
    have hstop : s.stopServer i = s := if_neg (by simp [hruns])
    rw [hstop] at hkernel hlisten hrunning hcloses
    refine h.same (fun fd j => by rw [hkernel]) (fun j _ => by rw [hlisten]) ?_ hopened hcloses
    intro j
    rw [hholds t hphase, hholds s hbusy, hrunning]

theorem stopServer_running (s : Program S) (i : Endpoint) :
    (s.stopServer i).running = Function.update s.running i false := by
  unfold stopServer
  split
  · rfl
  · next hruns => rw [← Bool.eq_false_iff.mpr hruns, Function.update_eq_self]

theorem stopServer_onlyRun {s t : Program S} {i : Endpoint} {rest : List Endpoint} (h : s.OnlyRun (i :: rest))
    (ht : t.running = (s.stopServer i).running) : t.OnlyRun rest := by
  intro j hj
  rw [ht, stopServer_running, Function.update_apply] at hj
  split at hj
  · cases hj
  · next hji => exact (List.mem_cons.mp (h j hj)).resolve_left hji

/-- A stop changes nothing but the socket and whether the server runs. -/
theorem stopServer_same (s : Program S) (i : Endpoint) : (s.stopServer i).callbacks = s.callbacks ∧
    (s.stopServer i).source = s.source ∧ (s.stopServer i).destroyed = s.destroyed ∧
    (s.stopServer i).receiversDestroyed = s.receiversDestroyed ∧ (s.stopServer i).opened = s.opened ∧
    (s.stopServer i).delivered = s.delivered := by
  unfold stopServer
  split
  · exact ⟨rfl, rfl, rfl, rfl, rfl, rfl⟩
  · exact ⟨rfl, rfl, rfl, rfl, rfl, rfl⟩

/-- Other descriptors come and go. -/
theorem Sound.kernel {s : Program S} (h : Sound vrxs C s) {kernel : ℕ → Option File}
    (hkernel : ∀ fd i, kernel fd = some (.listener i) ↔ s.kernel fd = some (.listener i)) :
    Sound vrxs C {s with kernel := kernel} :=
  ⟨h.listeners.same hkernel (fun _ _ => rfl) (fun _ => Iff.rfl) rfl rfl, h.at_⟩

/-- The head of what is left to start has opened nothing. -/
theorem fresh_head {started rest : List Endpoint} {i : Endpoint} (h : endpoints vrxs = started ++ i :: rest) :
    i ∉ started := by
  have hnodup := nodup_endpoints vrxs
  rw [h, List.nodup_append] at hnodup
  exact fun hi => hnodup.2.2 i hi i List.mem_cons_self rfl

theorem Sound.socket {s t : Program S} (h : Sound vrxs C s) {fd : Option ℕ}
    (hstep : (machine I vrxs).step s (.socket fd) = some t) : Sound vrxs C t := by
  have hat := h.at_
  cases fd with
  | none =>
    simp only [machine, step] at hstep
    split at hstep
    · next i rest hphase =>
      obtain rfl := Option.some.inj hstep
      rw [At, hphase] at hat
      obtain ⟨hidle, hintact, started, horder, -, hopened, hruns⟩ := hat
      have hheld : ∀ j, s.Holds j → j ≠ i := by
        rintro j hj rfl
        have hmem := (h.listeners.accounted j).mpr (.inr hj)
        exact fresh_head horder (hopened ▸ hmem)
      refine ⟨h.listeners.same (fun _ _ => Iff.rfl) ?_ ?_ rfl rfl, hidle, hintact, ?_⟩
      · intro j hj
        exact Function.update_of_ne (hheld j hj) ..
      · intro j
        simp only [Holds, hphase, Phase.busy]
      · intro j hj
        rw [horder]
        exact List.mem_append_left _ (hruns j hj)
    · cases hstep
  | some fd =>
    simp only [machine, step] at hstep
    split at hstep
    · next i rest hphase =>
      split at hstep
      · next hfree =>
        obtain rfl := Option.some.inj hstep
        rw [At, hphase] at hat
        obtain ⟨hidle, hintact, started, horder, hwired, hopened, hruns⟩ := hat
        refine ⟨h.listeners.opens (i := i) ?_ hfree rfl rfl ?_ rfl rfl,
          hidle, hintact, started, horder, hwired, ?_, hruns⟩
        · rw [hopened]
          exact fresh_head horder
        · intro j
          simp only [Holds, hphase, Phase.busy, reduceCtorEq, or_false, Option.some.injEq]
          exact or_congr_right eq_comm
        · show s.opened ++ [i] = _
          rw [hopened]
      · cases hstep
    · cases hstep

/-- A `bind` or a `listen` that fails closes the socket. -/
theorem Sound.fails {s : Program S} (h : Sound vrxs C s) {i : Endpoint} {rest : List Endpoint}
    (hbusy : s.phase.busy = some i) (hidle : C.Idle s.source) (hintact : s.Intact) {started : List Endpoint}
    (horder : endpoints vrxs = started ++ i :: rest) (hruns : s.OnlyRun started) :
    Sound vrxs C {s.closeFd i with phase := .failing (endpoints vrxs)} := by
  have hstopped : s.running i = false := by
    rw [Bool.eq_false_iff]
    exact fun hi => fresh_head horder (hruns i hi)
  refine ⟨h.listeners.closes (i := i) (.inr hbusy) rfl (fun _ _ => rfl) ?_ rfl rfl, hidle, hintact, ?_⟩
  · intro j
    show s.running j = true ∨ none = some j ↔ (s.running j = true ∨ s.phase.busy = some j) ∧ j ≠ i
    rw [hbusy]
    by_cases hj : j = i
    · subst hj
      simp [hstopped]
    · simp [hj, Ne.symm hj]
  · intro j hj
    rw [horder]
    exact List.mem_append_left _ (hruns j hj)

theorem Sound.bind {s t : Program S} (h : Sound vrxs C s) {ok : Bool}
    (hstep : (machine I vrxs).step s (.bind ok) = some t) : Sound vrxs C t := by
  have hat := h.at_
  simp only [machine, step] at hstep
  split at hstep
  · next i rest hphase =>
    rw [At, hphase] at hat
    obtain ⟨hidle, hintact, started, horder, hwired, hopened, hruns⟩ := hat
    split at hstep
    · obtain rfl := Option.some.inj hstep
      refine ⟨h.listeners.same (fun _ _ => Iff.rfl) (fun _ _ => rfl) ?_ rfl rfl,
        hidle, hintact, started, horder, hwired, hopened, hruns⟩
      intro j
      simp only [Holds, hphase, Phase.busy]
    · obtain rfl := Option.some.inj hstep
      exact h.fails (by rw [hphase]; rfl) hidle hintact horder hruns
  · cases hstep

/-- From here on the server runs, and its callback is registered behind those before it. -/
theorem Sound.listen {s t : Program S} (h : Sound vrxs C s) {ok : Bool}
    (hstep : (machine I vrxs).step s (.listen ok) = some t) : Sound vrxs C t := by
  have hat := h.at_
  simp only [machine, step] at hstep
  split at hstep
  · next i rest hphase =>
    rw [At, hphase] at hat
    obtain ⟨hidle, hintact, started, horder, hwired, hopened, hruns⟩ := hat
    split at hstep
    · obtain rfl := Option.some.inj hstep
      refine ⟨h.listeners.same (fun _ _ => Iff.rfl) (fun _ _ => rfl) ?_ rfl rfl,
        hidle, hintact, started, horder, ?_, hopened, ?_⟩
      · intro j
        show Function.update s.running i true j = true ∨ none = some j ↔ s.running j = true ∨ s.phase.busy = some j
        rw [hphase, Function.update_apply]
        by_cases hj : j = i
        · simp [hj, Phase.busy]
        · simp [hj, Ne.symm hj, Phase.busy]
      · intro r
        show Function.update s.callbacks i.1 (s.callbacks i.1 ++ [i]) r = _
        rw [Function.update_apply, List.filter_append, ← hwired r]
        by_cases hr : r = i.1
        · simp [hr]
        · simp [hr, Ne.symm hr]
      · intro j hj
        have hj : Function.update s.running i true j = true := hj
        rw [Function.update_apply] at hj
        rw [List.mem_append, List.mem_singleton]
        split at hj
        · next heq => exact .inr heq
        · exact .inl (hruns j hj)
    · obtain rfl := Option.some.inj hstep
      exact h.fails (by rw [hphase]; rfl) hidle hintact horder hruns
  · cases hstep

theorem Sound.spawn {s t : Program S} (h : Sound vrxs C s) {ok : Bool}
    (hstep : (machine I vrxs).step s (.spawn ok) = some t) : Sound vrxs C t := by
  have hat := h.at_
  simp only [machine, step] at hstep
  split at hstep
  · next i rest hphase =>
    rw [At, hphase] at hat
    obtain ⟨hidle, hintact, started, horder, hwired, hopened, hruns⟩ := hat
    obtain rfl := Option.some.inj hstep
    have horder' : endpoints vrxs = (started ++ [i]) ++ rest := by rw [horder, List.append_assoc, List.singleton_append]
    refine ⟨h.listeners.same (fun _ _ => Iff.rfl) (fun _ _ => rfl) ?_ rfl rfl, ?_⟩
    · intro j
      cases ok <;> simp only [Holds, hphase, Phase.busy, Bool.false_eq_true, if_false, if_true]
    · cases ok with
      | true => exact ⟨hidle, hintact, started ++ [i], horder', hwired, hopened, hruns⟩
      | false =>
        refine ⟨hidle, hintact, fun j hj => ?_⟩
        rw [horder']
        exact List.mem_append_left _ (hruns j hj)
  · cases hstep

theorem Sound.connect {s t : Program S} (h : Sound vrxs C s) {o : O}
    (hstep : (machine I vrxs).step s (.connect o) = some t) : Sound vrxs C t := by
  have hat := h.at_
  simp only [machine, step] at hstep
  split at hstep
  · next hphase =>
    rw [At, hphase] at hat
    obtain ⟨hidle, hintact, started, horder, hwired, hopened, hruns⟩ := hat
    rw [List.append_nil] at horder
    subst horder
    obtain rfl := Option.some.inj hstep
    cases hconnect : (I.connect o s.source).1 with
    | returned =>
      refine ⟨h.listeners.same (fun _ _ => Iff.rfl) (fun _ _ => rfl) ?_ rfl rfl,
        C.returns o s.source hidle hconnect, hintact, hwired, hopened, hruns⟩
      intro j
      simp only [Holds, hphase, Phase.busy]
    | threw =>
      refine ⟨h.listeners.same (fun _ _ => Iff.rfl) (fun _ _ => rfl) ?_ rfl rfl,
        C.throws o s.source hidle hconnect, hintact, hruns⟩
      intro j
      simp only [Holds, hphase, Phase.busy]
    | lost =>
      refine ⟨h.listeners.same (fun _ _ => Iff.rfl) (fun _ _ => rfl) ?_ rfl rfl, hwired, .inl hintact⟩
      intro j
      simp only [Holds, hphase, Phase.busy]
  · cases hstep

/-- Samples only come where every callback is registered, and where nothing is destroyed unless the
stream could not be stopped. -/
theorem Sound.streaming {s : Program S} (h : Sound vrxs C s) (hstreaming : I.streaming s.source = true) :
    s.Wired (endpoints vrxs) ∧ (s.Intact ∨ I.refused s.source = true) := by
  have hat := h.at_
  have hbusy : ¬ C.Idle s.source := by
    intro hidle
    rw [C.quiet _ hidle] at hstreaming
    cases hstreaming
  unfold At at hat
  cases hphase : s.phase with
  | running =>
    rw [hphase] at hat
    exact ⟨hat.2.2.1, .inl hat.2.1⟩
  | stopping rest =>
    rw [hphase] at hat
    exact ⟨hat.2.2.1, .inl hat.2.1⟩
  | closing =>
    rw [hphase] at hat
    exact ⟨hat.2.2.1, .inl hat.2.1⟩
  | lost =>
    rw [hphase] at hat
    exact hat
  | starting | binding | listening | spawning | failing =>
    rw [hphase] at hat
    exact absurd hat.1 hbusy
  | destroying | destroyingReceivers | destroyingSource | exited =>
    rw [hphase] at hat
    obtain ⟨hclosed, hwired⟩ := hat.1.resolve_left hbusy
    exact ⟨hwired, .inr (C.stopped _ hclosed hstreaming)⟩

/-- No server is half started by then. -/
theorem Sound.busy_of_streaming {s : Program S} (h : Sound vrxs C s) (hstreaming : I.streaming s.source = true) :
    s.phase.busy = none := by
  have hat := h.at_
  unfold At at hat
  cases hphase : s.phase with
  | binding | listening =>
    rw [hphase] at hat
    rw [C.quiet _ hat.1] at hstreaming
    cases hstreaming
  | starting | spawning | failing | running | stopping | closing | destroying | destroyingReceivers | destroyingSource
  | exited | lost => rfl

theorem Sound.chunk {s t : Program S} (h : Sound vrxs C s) {yields : ℕ → Bool}
    (hstep : (machine I vrxs).step s (.chunk yields) = some t) : Sound vrxs C t := by
  simp only [machine, step] at hstep
  split at hstep
  · next hcomes =>
    have hstreaming := h.streaming hcomes.1
    split at hstep
    · obtain rfl := Option.some.inj hstep
      refine ⟨h.listeners.same (fun _ _ => Iff.rfl) (fun _ _ => rfl) ?_ rfl rfl, hstreaming⟩
      intro j
      rw [Holds, Holds, h.busy_of_streaming hcomes.1]
      rfl
    · obtain rfl := Option.some.inj hstep
      exact ⟨h.listeners.same (fun _ _ => Iff.rfl) (fun _ _ => rfl) (fun _ => Iff.rfl) rfl rfl, h.at_⟩
  · cases hstep

theorem Sound.stop {s t : Program S} (h : Sound vrxs C s)
    (hstep : (machine I vrxs).step s .stop = some t) : Sound vrxs C t := by
  have hat := h.at_
  simp only [machine, step] at hstep
  split at hstep
  · next hphase =>
    rw [At, hphase] at hat
    obtain ⟨hidle, -, hruns⟩ := hat
    obtain rfl := Option.some.inj hstep
    refine ⟨h.listeners.same (fun _ _ => Iff.rfl) (fun _ _ => rfl) ?_ rfl rfl, .inl hidle, hruns, nofun⟩
    intro j
    simp only [Holds, hphase, Phase.busy]
  · next i rest hphase =>
    rw [At, hphase] at hat
    obtain ⟨hidle, hintact, hruns⟩ := hat
    obtain rfl := Option.some.inj hstep
    obtain ⟨-, hsource, hdestroyed, hreceivers, hopened, -⟩ := stopServer_same s i
    refine ⟨stopServer_listeners h.listeners (by rw [hphase]; rfl) i rfl rfl rfl rfl hopened rfl, ?_⟩
    exact ⟨hsource ▸ hidle, ⟨hdestroyed ▸ hintact.1, hreceivers ▸ hintact.2⟩, stopServer_onlyRun hruns rfl⟩
  · next hphase =>
    rw [At, hphase] at hat
    obtain rfl := Option.some.inj hstep
    refine ⟨h.listeners.same (fun _ _ => Iff.rfl) (fun _ _ => rfl) ?_ rfl rfl, hat⟩
    intro j
    simp only [Holds, hphase, Phase.busy]
  · next i rest hphase =>
    rw [At, hphase] at hat
    obtain ⟨hlive, hintact, hwired, hall, hruns⟩ := hat
    obtain rfl := Option.some.inj hstep
    obtain ⟨hcallbacks, hsource, hdestroyed, hreceivers, hopened, -⟩ := stopServer_same s i
    refine ⟨stopServer_listeners h.listeners (by rw [hphase]; rfl) i rfl rfl rfl rfl hopened rfl, ?_⟩
    exact ⟨hsource ▸ hlive, ⟨hdestroyed ▸ hintact.1, hreceivers ▸ hintact.2⟩, fun r => hcallbacks ▸ hwired r,
      hopened.trans hall, stopServer_onlyRun hruns rfl⟩
  · cases hstep

theorem Sound.destroy {s t : Program S} (h : Sound vrxs C s)
    (hstep : (machine I vrxs).step s .destroy = some t) : Sound vrxs C t := by
  have hat := h.at_
  simp only [machine, step] at hstep
  split at hstep
  · next code hphase =>
    rw [At, hphase] at hat
    obtain rfl := Option.some.inj hstep
    refine ⟨h.listeners.same (fun _ _ => Iff.rfl) (fun _ _ => rfl) ?_ rfl rfl, hat⟩
    intro j
    simp only [Holds, hphase, Phase.busy]
  · next code i rest hphase =>
    rw [At, hphase] at hat
    obtain ⟨hover, hruns, hall⟩ := hat
    obtain rfl := Option.some.inj hstep
    obtain ⟨hcallbacks, hsource, -, -, hopened, -⟩ := stopServer_same s i
    refine ⟨stopServer_listeners h.listeners (by rw [hphase]; rfl) i rfl rfl rfl rfl hopened rfl, ?_⟩
    refine ⟨?_, stopServer_onlyRun (i := i) ?_ rfl, fun hcode => hopened.trans (hall hcode)⟩
    · exact hover.imp (fun hidle => hsource ▸ hidle) fun hclosed => ⟨hsource ▸ hclosed.1, fun r => hcallbacks ▸ hclosed.2 r⟩
    · exact fun j hj => absurd (hruns j hj) List.not_mem_nil
  · next code hphase =>
    rw [At, hphase] at hat
    obtain rfl := Option.some.inj hstep
    refine ⟨h.listeners.same (fun _ _ => Iff.rfl) (fun _ _ => rfl) ?_ rfl rfl, hat⟩
    intro j
    simp only [Holds, hphase, Phase.busy]
  · cases hstep

/-- **Every step of every thread keeps it.** -/
theorem Sound.step (s : Program S) (e : ProgramEvent O) (t : Program S) (h : Sound vrxs C s)
    (hstep : (machine I vrxs).step s e = some t) : Sound vrxs C t := by
  have hat := h.at_
  cases e with
  | openOther fd =>
    simp only [machine, Program.step] at hstep
    split at hstep
    · next hfree =>
      obtain rfl := Option.some.inj hstep
      refine h.kernel fun g i => ?_
      rw [Function.update_apply]
      split
      · next hg => simp [hg, hfree]
      · rfl
    · cases hstep
  | closeOther fd =>
    simp only [machine, Program.step] at hstep
    split at hstep
    · next hother =>
      obtain rfl := Option.some.inj hstep
      refine h.kernel fun g i => ?_
      rw [Function.update_apply]
      split
      · next hg => simp [hg, hother]
      · rfl
    · cases hstep
  | socket fd => exact h.socket hstep
  | bind ok => exact h.bind hstep
  | listen ok => exact h.listen hstep
  | spawn ok => exact h.spawn hstep
  | connect o => exact h.connect hstep
  | chunk yields => exact h.chunk hstep
  | stop => exact h.stop hstep
  | destroy => exact h.destroy hstep
  | signal =>
    simp only [machine, Program.step] at hstep
    split at hstep
    · next hphase =>
      rw [At, hphase] at hat
      obtain rfl := Option.some.inj hstep
      refine ⟨h.listeners.same (fun _ _ => Iff.rfl) (fun _ _ => rfl) ?_ rfl rfl, hat⟩
      intro j
      simp only [Holds, hphase, Phase.busy]
    · cases hstep
  | close o =>
    simp only [machine, Program.step] at hstep
    split at hstep
    · next hphase =>
      rw [At, hphase] at hat
      obtain ⟨hlive, -, hwired, hall, hruns⟩ := hat
      obtain rfl := Option.some.inj hstep
      refine ⟨h.listeners.same (fun _ _ => Iff.rfl) (fun _ _ => rfl) ?_ rfl rfl,
        .inr ⟨C.closes o s.source hlive, hwired⟩, hruns, fun _ => hall⟩
      intro j
      simp only [Holds, hphase, Phase.busy]
    · cases hstep
  | destroySource o =>
    simp only [machine, Program.step] at hstep
    split at hstep
    · next code hphase =>
      rw [At, hphase] at hat
      obtain ⟨hover, hruns, hall⟩ := hat
      obtain rfl := Option.some.inj hstep
      refine ⟨h.listeners.same (fun _ _ => Iff.rfl) (fun _ _ => rfl) ?_ rfl rfl, ?_, hruns, hall⟩
      · intro j
        simp only [Holds, hphase, Phase.busy]
      · exact hover.imp (C.idle_closes o s.source) fun hclosed => ⟨C.closed_closes o s.source hclosed.1, hclosed.2⟩
    · cases hstep

theorem sound_run {source : S} (h : C.Idle source) {events : List (ProgramEvent O)} {s : Program S}
    (hrun : (machine I vrxs).run (initial vrxs source) events = some s) : Sound vrxs C s :=
  (machine I vrxs).invariant Sound.step hrun (sound_initial h)

/-! ### What the callbacks are given -/

/-- A chunk leads to all callbacks of the receivers that make samples of it, or to one that is destroyed. -/
theorem delivered_chunk {s t : Program S} (h : Sound vrxs C s) {yields : ℕ → Bool}
    (hstep : (machine I vrxs).step s (.chunk yields) = some t) :
    t.delivered = s.delivered ++ [(wired vrxs).filter fun i => yields i.1] ∨
      t.phase = .lost ∧ I.refused t.source = true := by
  simp only [machine, step] at hstep
  split at hstep
  · next hcomes =>
    obtain ⟨hwired, hstopped⟩ := h.streaming hcomes.1
    split at hstep
    · next hgone =>
      obtain rfl := Option.some.inj hstep
      refine .inr ⟨rfl, hstopped.resolve_left ?_⟩
      rintro ⟨hservers, hreceivers⟩
      simp [hservers, hreceivers] at hgone
    · obtain rfl := Option.some.inj hstep
      have hcalled : s.called vrxs yields = (wired vrxs).filter fun i => yields i.1 := by
        rw [← flatMap_endpoints, called]
        apply List.flatMap_congr
        intro r _
        rw [hwired r]
      exact .inl (congrArg (s.delivered ++ [·]) hcalled)
  · cases hstep

/-- A step that is no chunk gives nobody anything. -/
theorem delivered_same {s t : Program S} {e : ProgramEvent O} (he : e.chunks = [])
    (hstep : (machine I vrxs).step s e = some t) : t.delivered = s.delivered := by
  cases e with
  | chunk yields => cases he
  | socket fd =>
    cases fd with
    | none | some fd =>
      simp only [machine, step] at hstep
      grind
  | openOther | closeOther | bind | listen | spawn | connect | signal | stop | close | destroy | destroySource =>
    simp only [machine, step] at hstep
    grind [closeFd, stopServer_same]

/-- A state that is lost stays so, and its source is left as it is. -/
theorem lost_step {s t : Program S} {e : ProgramEvent O} (h : s.phase = .lost)
    (hstep : (machine I vrxs).step s e = some t) : t.phase = .lost ∧ t.source = s.source := by
  cases e with
  | socket fd =>
    cases fd with
    | none | some fd =>
      simp only [machine, step, h] at hstep
      cases hstep
  | bind | listen | spawn | connect | signal | stop | close | destroy | destroySource =>
    simp only [machine, step, h] at hstep
    cases hstep
  | openOther | closeOther | chunk =>
    simp only [machine, step] at hstep
    grind

/-- **Each chunk leads to the callbacks of the receivers that make samples of it**, in their order, until
one is called that is destroyed. -/
theorem delivered_run {source : S} (h : C.Idle source) {events : List (ProgramEvent O)} {s : Program S}
    (hrun : (machine I vrxs).run (initial vrxs source) events = some s) :
    (s.delivered = (events.flatMap ProgramEvent.chunks).map fun yields => (wired vrxs).filter fun i => yields i.1) ∨
      s.phase = .lost ∧ I.refused s.source = true := by
  induction events using List.reverseRecOn generalizing s with
  | nil =>
    obtain rfl := Option.some.inj hrun
    exact .inl rfl
  | append_singleton events e ih =>
    rw [Machine.run_concat] at hrun
    obtain ⟨u, hu, hstep⟩ := Option.bind_eq_some_iff.mp hrun
    rcases ih hu with hdelivered | ⟨hlost, hrefused⟩
    · rw [List.flatMap_append, List.map_append, ← hdelivered, List.flatMap_singleton]
      cases e with
      | chunk yields => exact delivered_chunk (sound_run h hu) hstep
      | openOther | closeOther | socket | bind | listen | spawn | connect | signal | stop | close | destroy
      | destroySource =>
        rw [delivered_same rfl hstep]
        exact .inl (List.append_nil _).symm
    · obtain ⟨hphase, hsource⟩ := lost_step hlost hstep
      exact .inr ⟨hphase, hsource ▸ hrefused⟩

/-! ### What that says -/

/-- No server closes what is not its socket, or its socket twice, and none is left at the end. -/
structure ClosedOnce (vrxs : List (VirtualReceiverConfig ℚ)) (s : Program S) : Prop where
  own : ∀ c ∈ s.closes, c.2 = some (.listener c.1)
  once : (s.closes.map Prod.fst).Nodup
  atEnd : ∀ code, s.phase = .exited code →
    (∀ fd i, s.kernel fd ≠ some (.listener i)) ∧ (∀ i, i ∈ s.opened ↔ i ∈ s.closes.map Prod.fst) ∧
      (code = 0 → s.opened = endpoints vrxs)

theorem Sound.closedOnce {s : Program S} (h : Sound vrxs C s) : s.ClosedOnce vrxs where
  own := h.listeners.own
  once := h.listeners.once
  atEnd code hphase := by
    have hat := h.at_
    rw [At, hphase] at hat
    obtain ⟨-, hruns, hall⟩ := hat
    have hnone : ∀ i, ¬ s.Holds i := by
      intro i hi
      rw [Holds, hphase] at hi
      exact List.not_mem_nil (hruns i (hi.resolve_right nofun))
    refine ⟨fun fd i hi => hnone i (h.listeners.named fd i hi).1, fun i => ?_, hall⟩
    rw [h.listeners.accounted i]
    exact or_iff_left (hnone i)

end Program

end VrxServer.Main
