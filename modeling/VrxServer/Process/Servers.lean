import VrxServer.Base.Descriptors
import VrxServer.Base.Run
import VrxServer.RtlTcp.Server
import VrxServer.SpyServer.Server

/-! The servers of one process: accept loops, client threads, broadcasts and shutdown.

The two kinds of server handle their clients' threads and descriptors alike and differ in
what they keep for a client and in what they send it first (`Kind`). A label is one thread's
next step, and carries what the kernel or the peer decides on it. A step does to the kernel
what its code does with a number: which connection it meets there depends on who has the
number open by then. -/
namespace VrxServer.Process
open Base Base.Descriptors SpyServer

/-! ### What a server keeps -/

inductive Kind where
  | rtlTcp
  | spyServer
  deriving DecidableEq

/-- What a server keeps for a client besides its descriptor. -/
inductive Client where
  | rtlTcp
  | spyServer (state : ClientState)
  deriving DecidableEq

structure Entry where
  fd : ℕ
  /-- The connection it was registered for, which the code does not know. -/
  conn : ℕ
  client : Client

/-- A client as it is registered. -/
def Kind.client : Kind → Client
  | .rtlTcp => .rtlTcp
  | .spyServer => .spyServer ClientState.initial

/-- What the accept loop sends a client before it is registered. -/
def Kind.greeting : Kind → List (List UInt8)
  | .rtlTcp => [RtlTcp.buildDongleInfoHeader]
  | .spyServer => []

/-- `clients_[fd] = ...`, the map in the order of its keys. -/
def assign (e : Entry) : List Entry → List Entry
  | [] => [e]
  | x :: rest =>
    if e.fd < x.fd then e :: x :: rest
    else if e.fd = x.fd then e :: rest
    else x :: assign e rest

/-- `push_back` into the vector, or an assignment to the map. -/
def Kind.register (clients : List Entry) (e : Entry) : Kind → List Entry
  | .rtlTcp => clients ++ [e]
  | .spyServer => assign e clients

/-- A section of a command's handling, where the client is registered. -/
def Client.handle (sec : Section) : Client → Client
  | .rtlTcp => .rtlTcp
  | .spyServer state => .spyServer (sec.onClient state)

/-- What a broadcast sends to a client. -/
def Client.offered (data : List UInt8) : Client → List (List UInt8)
  | .rtlTcp => [data]
  | .spyServer state =>
    if state.streams then [(SpyServer.Server.iqHeader state.sequenceNumber data.length).bytes ++ data] else []

def Client.afterBroadcast : Client → Client
  | .rtlTcp => .rtlTcp
  | .spyServer state => .spyServer state.afterBroadcast

/-! ### Threads -/

inductive AcceptLoop where
  /-- At `while (running_)`. -/
  | check
  /-- In `accept`. -/
  | accepting
  /-- Past it, at this connection. -/
  | serving (c : ℕ)
  | exited
  deriving DecidableEq

/-- Where a connection's descriptor has got to: the first three in the accept loop, the
others in its own read loop. -/
inductive Stage where
  | accepted
  | greeted
  | registered
  /-- In `recv`. -/
  | reading
  /-- In `handleCommand`. -/
  | handling
  /-- Behind the loop. -/
  | leaving
  /-- At `removeClient`. -/
  | announced
  /-- At `close`. -/
  | unregistered
  | closed
  deriving DecidableEq

/-- Where the thread is that calls `stop` and then destroys the server. -/
inductive Stopping where
  | idle
  /-- Past `running_ = false`. -/
  | begun
  /-- At `join`. -/
  | joining
  /-- At the snapshot. -/
  | joined
  /-- At the loop over the snapshot. -/
  | shutting (fds : List ℕ)
  | stopped
  | destroyed
  deriving DecidableEq

structure Connection (ι : Type) where
  server : ι
  fd : ℕ
  stage : Stage
  /-- What the accept loop and the broadcasts have sent on it. -/
  sent : List (List UInt8)
  /-- A command of it has been handled. -/
  handled : Bool
  /-- `shutdown` has been applied to it. -/
  shut : Bool

structure Server where
  running : Bool
  /-- The listening socket is open. -/
  listening : Bool
  acceptLoop : AcceptLoop
  clients : List Entry
  stopping : Stopping

end VrxServer.Process

namespace VrxServer
open Base Base.Descriptors

/-- The process, its servers named by `ι` and its connections numbered for good. -/
structure Process (ι : Type) where
  kernel : ℕ → Option File
  conns : ℕ → Option (Process.Connection ι)
  servers : ι → Process.Server

namespace Process

inductive Label (ι : Type) where
  /-- The rest of the process opens and closes files of its own. -/
  | openOther (fd : ℕ)
  | closeOther (fd : ℕ)
  | check (i : ι)
  | accept (i : ι) (fd c : ℕ)
  | acceptFails (i : ι)
  | greet (i : ι)
  | register (i : ι)
  | spawn (i : ι)
  | recv (c : ℕ)
  /-- An orderly disconnect, an error, or `shutdown`. -/
  | recvEnds (c : ℕ)
  | handle (c : ℕ) (sec : SpyServer.Section)
  | handled (c : ℕ)
  /-- A SpyServer command's body over the limit. -/
  | reject (c : ℕ)
  | announce (c : ℕ)
  | removeClient (c : ℕ)
  | close (c : ℕ)
  | broadcastIq (i : ι) (data : List UInt8)
  | stop (i : ι)
  | closeListener (i : ι)
  | join (i : ι)
  | snapshot (i : ι)
  | shutdown (i : ι)
  | stopReturns (i : ι)
  | destroy (i : ι)

variable {ι : Type}

/-- All servers have been started and nobody has connected. -/
def initial : Process ι := ⟨fun _ => none, fun _ => none, fun _ => ⟨true, true, .check, [], .idle⟩⟩

/-! ### Changes to one connection or one server -/

def setConn (s : Process ι) (c : ℕ) (f : Connection ι → Connection ι) : Process ι :=
  {s with conns := Function.update s.conns c ((s.conns c).map f)}

@[simp] theorem setConn_kernel (s : Process ι) (c : ℕ) (f : Connection ι → Connection ι) :
    (s.setConn c f).kernel = s.kernel := rfl

@[simp] theorem setConn_servers (s : Process ι) (c : ℕ) (f : Connection ι → Connection ι) :
    (s.setConn c f).servers = s.servers := rfl

@[simp] theorem setConn_conns (s : Process ι) (c d : ℕ) (f : Connection ι → Connection ι) :
    (s.setConn c f).conns d = if d = c then (s.conns d).map f else s.conns d := by
  unfold setConn
  split
  · next hd => rw [hd]; exact Function.update_self ..
  · next hd => exact Function.update_of_ne hd ..

def goTo (s : Process ι) (c : ℕ) (stage : Stage) : Process ι := s.setConn c fun k => {k with stage := stage}

/-- The connection, where its thread is at this stage. -/
def connAt (s : Process ι) (c : ℕ) (stage : Stage) : Option (Connection ι) :=
  (s.conns c).filter fun k => k.stage = stage

theorem connAt_eq_some {s : Process ι} {c : ℕ} {stage : Stage} {k : Connection ι} :
    s.connAt c stage = some k ↔ s.conns c = some k ∧ k.stage = stage := by
  rw [connAt, Option.filter_eq_some_iff, decide_eq_true_iff]

/-- The connection the accept loop is at, where it is at this stage. -/
def servingAt (s : Process ι) (i : ι) (stage : Stage) : Option (ℕ × Connection ι) :=
  match (s.servers i).acceptLoop with
  | .serving c => (s.connAt c stage).map fun k => (c, k)
  | .check | .accepting | .exited => none

theorem servingAt_eq_some {s : Process ι} {i : ι} {stage : Stage} {c : ℕ} {k : Connection ι} :
    s.servingAt i stage = some (c, k) ↔
      (s.servers i).acceptLoop = .serving c ∧ s.conns c = some k ∧ k.stage = stage := by
  unfold servingAt
  cases (s.servers i).acceptLoop with
  | serving d =>
    rw [Option.map_eq_some_iff]
    constructor
    · intro hp
      obtain ⟨l, hl, heq⟩ := hp
      obtain ⟨rfl, rfl⟩ := Prod.mk.inj heq
      exact ⟨rfl, connAt_eq_some.mp hl⟩
    · intro hp
      obtain ⟨hd, hk⟩ := hp
      obtain rfl := AcceptLoop.serving.inj hd
      exact ⟨k, connAt_eq_some.mpr hk, rfl⟩
  | check | accepting | exited => simp

/-- A send to whatever the descriptor denotes. -/
def send (fd : ℕ) (s : Process ι) (buf : List UInt8) : Process ι :=
  match s.kernel fd with
  | some (.connection c) => s.setConn c fun k => {k with sent := k.sent ++ [buf]}
  | _ => s

/-- A `shutdown` of whatever the descriptor denotes. -/
def shutdownFd (s : Process ι) (fd : ℕ) : Process ι :=
  match s.kernel fd with
  | some (.connection c) => s.setConn c fun k => {k with shut := true}
  | _ => s

variable [DecidableEq ι]

def setServer (s : Process ι) (i : ι) (f : Server → Server) : Process ι :=
  {s with servers := Function.update s.servers i (f (s.servers i))}

@[simp] theorem setServer_kernel (s : Process ι) (i : ι) (f : Server → Server) :
    (s.setServer i f).kernel = s.kernel := rfl

@[simp] theorem setServer_conns (s : Process ι) (i : ι) (f : Server → Server) :
    (s.setServer i f).conns = s.conns := rfl

@[simp] theorem setServer_servers (s : Process ι) (i j : ι) (f : Server → Server) :
    (s.setServer i f).servers j = if j = i then f (s.servers j) else s.servers j := by
  unfold setServer
  split
  · next hj => rw [hj]; exact Function.update_self ..
  · next hj => exact Function.update_of_ne hj ..

/-! ### The steps -/

def broadcastIq (s : Process ι) (i : ι) (data : List UInt8) : Process ι :=
  ((s.servers i).clients.foldl (fun s e => (e.client.offered data).foldl (send e.fd) s) s).setServer i fun v =>
    {v with clients := v.clients.map fun e => {e with client := e.client.afterBroadcast}}

variable (kind : ι → Kind)

def step (s : Process ι) : Label ι → Option (Process ι)
  | .openOther fd =>
    if s.kernel fd = none then some {s with kernel := Function.update s.kernel fd (some .other)} else none
  | .closeOther fd =>
    if s.kernel fd = some .other then some {s with kernel := Function.update s.kernel fd none} else none
  -- The accept loop.
  | .check i =>
    if (s.servers i).acceptLoop = .check then
      some (s.setServer i fun v => {v with acceptLoop := if v.running then .accepting else .exited})
    else none
  | .accept i fd c =>
    -- The kernel's choice of a number: any that is not open.
    if (s.servers i).acceptLoop = .accepting ∧ (s.servers i).listening = true ∧ s.kernel fd = none ∧ s.conns c = none then
      some ({s with
        kernel := Function.update s.kernel fd (some (.connection c))
        conns := Function.update s.conns c (some ⟨i, fd, .accepted, [], false, false⟩)}.setServer i fun v =>
          {v with acceptLoop := .serving c})
    else none
  | .acceptFails i =>
    if (s.servers i).acceptLoop = .accepting then some (s.setServer i fun v => {v with acceptLoop := .check}) else none
  | .greet i =>
    (s.servingAt i .accepted).map fun (c, k) => ((kind i).greeting.foldl (send k.fd) s).goTo c .greeted
  | .register i =>
    (s.servingAt i .greeted).map fun (c, k) => (s.goTo c .registered).setServer i fun v =>
      {v with clients := (kind i).register v.clients ⟨k.fd, c, (kind i).client⟩}
  | .spawn i =>
    (s.servingAt i .registered).map fun (c, _) => (s.goTo c .reading).setServer i fun v =>
      {v with acceptLoop := .check}
  -- The read loop.
  | .recv c => (s.connAt c .reading).map fun _ => s.goTo c .handling
  | .recvEnds c => (s.connAt c .reading).map fun _ => s.goTo c .leaving
  | .handle c sec => (s.connAt c .handling).map fun k =>
    (s.setConn c fun k => {k with handled := true}).setServer k.server fun v =>
      {v with clients := v.clients.map fun e => if e.fd = k.fd then {e with client := e.client.handle sec} else e}
  | .handled c => (s.connAt c .handling).map fun _ => s.goTo c .reading
  | .reject c =>
    ((s.connAt c .handling).filter fun k => kind k.server = .spyServer).map fun _ => s.goTo c .leaving
  | .announce c => (s.connAt c .leaving).map fun _ => s.goTo c .announced
  | .removeClient c => (s.connAt c .announced).map fun k => (s.goTo c .unregistered).setServer k.server fun v =>
    {v with clients := v.clients.filter fun e => e.fd ≠ k.fd}
  | .close c => (s.connAt c .unregistered).map fun k =>
    {s.goTo c .closed with kernel := Function.update s.kernel k.fd none}
  | .broadcastIq i data => some (s.broadcastIq i data)
  -- `stop`, and the destructor after it.
  | .stop i =>
    if (s.servers i).running = true ∧ (s.servers i).stopping = .idle then
      some (s.setServer i fun v => {v with running := false, stopping := .begun})
    else none
  | .closeListener i =>
    if (s.servers i).stopping = .begun then
      some (s.setServer i fun v => {v with listening := false, stopping := .joining})
    else none
  | .join i =>
    if (s.servers i).stopping = .joining ∧ (s.servers i).acceptLoop = .exited then
      some (s.setServer i fun v => {v with stopping := .joined})
    else none
  | .snapshot i =>
    if (s.servers i).stopping = .joined then
      some (s.setServer i fun v => {v with stopping := .shutting (v.clients.map Entry.fd)})
    else none
  | .shutdown i =>
    match (s.servers i).stopping with
    | .shutting (fd :: fds) => some ((s.shutdownFd fd).setServer i fun v => {v with stopping := .shutting fds})
    | _ => none
  | .stopReturns i =>
    if (s.servers i).stopping = .shutting [] then some (s.setServer i fun v => {v with stopping := .stopped}) else none
  | .destroy i =>
    if (s.servers i).stopping = .stopped then some (s.setServer i fun v => {v with stopping := .destroyed}) else none

def machine : Machine (Process ι) (Label ι) := ⟨step kind⟩

theorem reject_step {s t : Process ι} {c : ℕ} (h : (machine kind).step s (.reject c) = some t) :
    (s.connAt c .handling).map (fun _ => s.goTo c .leaving) = some t := by
  obtain ⟨k, hk, rfl⟩ := Option.map_eq_some_iff.mp h
  rw [(Option.filter_eq_some_iff.mp hk).1]
  rfl

end Process

end VrxServer
