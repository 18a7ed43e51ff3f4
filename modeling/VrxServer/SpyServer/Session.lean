import VrxServer.SpyServer.Server
import Mathlib.Data.List.Induction

/-! Sessions: client threads and the streaming thread over one server.

Each connection has a thread that handles one command at a time, section by section; the
streaming thread broadcasts between any two sections. The gate a broadcast looks at is a
function of the commands handled (`gateAfter`). What a step does to one connection depends
on that connection and the receiver alone, and is one of a few moves (`conn_step`): what
holds of every connection in every run is proved move by move. -/
namespace VrxServer.SpyServer
open Base Config Dsp

/-- A command's type and body. -/
abbrev Command := UInt32 × List UInt8

/-! ### The gate -/

/-- What decides whether a broadcast sends to a client. -/
structure Gate where
  handshakeDone : Bool
  streamingEnabled : Bool
  streamingMode : UInt32
  deriving DecidableEq

def Gate.initial : Gate := ⟨false, false, 0⟩

def ClientState.gate (c : ClientState) : Gate := ⟨c.handshakeDone, c.streamingEnabled, c.streamingMode⟩

def Section.onGate (g : Gate) : Section → Gate
  | .greet => {g with handshakeDone := true, streamingMode := kStreamTypeIq}
  | .streamingMode value => {g with streamingMode := value}
  | .streamingEnabled value => {g with streamingEnabled := value != 0}
  | .deviceInfo | .clientSync | .pong | .retune _ => g

/-- The gate of a client that has sent these commands. -/
def gateAfter (cmds : List Command) : Gate :=
  (cmds.flatMap fun cmd => handleCommand cmd.1 cmd.2).foldl Section.onGate Gate.initial

/-- A Hello that is not too short. -/
def isHello (cmd : Command) : Bool := cmd.1 == CommandType.hello && 4 ≤ cmd.2.length

/-- What a StreamingEnabled setting sets. -/
def enables (cmd : Command) : Option Bool :=
  match handleCommand cmd.1 cmd.2 with
  | [.streamingEnabled value] => some (value != 0)
  | _ => none

/-- The last StreamingEnabled setting enables streaming. -/
def lastEnabled (cmds : List Command) : Bool := (cmds.filterMap enables).getLast?.getD false

theorem onClient_gate (c : ClientState) (sec : Section) : (sec.onClient c).gate = sec.onGate c.gate := by
  cases sec <;> rfl

theorem afterBroadcast_gate (c : ClientState) : c.afterBroadcast.gate = c.gate := by
  unfold ClientState.afterBroadcast
  split <;> rfl

theorem gateAfter_concat (cmds : List Command) (cmd : Command) :
    gateAfter (cmds ++ [cmd]) = (handleCommand cmd.1 cmd.2).foldl Section.onGate (gateAfter cmds) := by
  simp only [gateAfter, List.flatMap_append, List.foldl_append, List.flatMap_cons, List.flatMap_nil, List.append_nil]

/-- What handling a command runs. -/
theorem handleCommand_cases (cmd : Command) :
    (isHello cmd = true ∧ handleCommand cmd.1 cmd.2 = [.greet, .deviceInfo, .clientSync]) ∨
    (isHello cmd = false ∧ (handleCommand cmd.1 cmd.2 = [] ∨ handleCommand cmd.1 cmd.2 = [.pong] ∨
      (∃ value, handleCommand cmd.1 cmd.2 = [.streamingMode value]) ∨
      (∃ value, handleCommand cmd.1 cmd.2 = [.streamingEnabled value]) ∨
      ∃ value, handleCommand cmd.1 cmd.2 = [.retune value])) := by
  obtain ⟨commandType, body⟩ := cmd
  unfold handleCommand isHello
  by_cases hhello : commandType = CommandType.hello
  · subst hhello
    by_cases hlen : body.length < 4
    · right
      simp [handleHello, hlen]
    · left
      simp [handleHello, hlen]
      omega
  · right
    refine ⟨by simp [hhello], ?_⟩
    simp only [hhello, if_false]
    split
    · unfold handleSetSetting
      split
      · next setting value _ _ =>
        split
        · exact .inr (.inr (.inl ⟨value, rfl⟩))
        · split
          · exact .inr (.inr (.inr (.inl ⟨value, rfl⟩)))
          · split
            · exact .inr (.inr (.inr (.inr ⟨value, rfl⟩)))
            · exact .inl rfl
      · exact .inl rfl
    · split
      · exact .inr (.inl rfl)
      · exact .inl rfl

/-- A valid Hello has been handled exactly when the handshake is done, and until then
streaming is enabled as the settings say. -/
theorem gateAfter_spec (cmds : List Command) :
    (gateAfter cmds).handshakeDone = cmds.any isHello ∧ (gateAfter cmds).streamingEnabled = lastEnabled cmds := by
  induction cmds using List.reverseRecOn with
  | nil => exact ⟨rfl, rfl⟩
  | append_singleton cmds cmd ih =>
    obtain ⟨hdone, henabled⟩ := ih
    have hlast : lastEnabled (cmds ++ [cmd]) = (enables cmd).getD (lastEnabled cmds) := by
      simp only [lastEnabled, List.filterMap_append, List.filterMap_cons, List.filterMap_nil]
      cases enables cmd <;> simp
    rw [gateAfter_concat, hlast, List.any_append]
    rcases handleCommand_cases cmd with ⟨hhello, h⟩ | ⟨hhello, h | h | ⟨v, h⟩ | ⟨v, h⟩ | ⟨v, h⟩⟩ <;>
      simp [h, enables, hhello, Section.onGate, hdone, henabled]

/-! ### The machine -/

structure Session (K : Type) where
  server : Server K
  /-- The sections a connection's thread has still to run; `none` where there is no connection. -/
  threads : ℕ → Option (List Section)
  /-- The commands a connection has sent since it was accepted. -/
  received : ℕ → List Command

inductive Event where
  | accept (fd : ℕ)
  | command (fd : ℕ) (cmd : Command)
  | proceed (fd : ℕ)
  | disconnect (fd : ℕ)
  | broadcast (data : List UInt8) (outcome : ℕ → ℕ)

variable {K : Type} [Field K] [LinearOrder K] [FloorRing K] (P : Platform K)

namespace Session

def initial (vrx : VirtualReceiver K) : Session K := ⟨Server.initial vrx, fun _ => none, fun _ => []⟩

/-- A Hello of a client that is gone ends with its first section. -/
def after (s : Session K) (fd : ℕ) (sec : Section) (rest : List Section) : List Section :=
  if sec = .greet ∧ s.server.clients.lookup fd = none then [] else rest

def step (s : Session K) : Event → Option (Session K)
  | .accept fd =>
    match s.threads fd with
    | none => some {
        server := s.server.apply P (.accept fd)
        threads := Function.update s.threads fd (some [])
        received := Function.update s.received fd [] }
    | some _ => none
  | .command fd cmd =>
    match s.threads fd with
    | some [] => some {s with
        threads := Function.update s.threads fd (some (handleCommand cmd.1 cmd.2))
        received := Function.update s.received fd (s.received fd ++ [cmd]) }
    | _ => none
  | .proceed fd =>
    match s.threads fd with
    | some (sec :: rest) => some {s with
        server := s.server.apply P (.perform fd sec)
        threads := Function.update s.threads fd (some (s.after fd sec rest)) }
    | _ => none
  | .disconnect fd =>
    match s.threads fd with
    | some [] => some {s with
        server := s.server.apply P (.removeClient fd)
        threads := Function.update s.threads fd none }
    | _ => none
  | .broadcast data outcome => some {s with server := s.server.apply P (.broadcastIq data outcome)}

def machine : Machine (Session K) Event := ⟨step P⟩

end Session

/-! ### One connection's part of a step -/

/-- A message that is sent, or tried to be, but for its number. -/
structure Message where
  messageType : UInt32
  streamType : UInt32
  body : List UInt8

/-- What a section sends to its own client. -/
def Section.messages (vrx : VirtualReceiver K) (sec : Section) : List Message :=
  match sec.reply P vrx with
  | some (messageType, body) => [⟨messageType, kStreamTypeStatus, body.bytes⟩]
  | none => []

/-- What a broadcast sends to a client in this state. -/
def iqMessages (data : List UInt8) : Option ClientState → List Message
  | some c => if c.streams then [⟨kMsgTypeUint8Iq, kStreamTypeIq, data⟩] else []
  | none => []

/-- The messages an event makes the server send on a connection; `none` where it opens the connection. -/
def Session.messages (s : Session K) (fd : ℕ) : Event → Option (List Message)
  | .accept g => if fd = g then none else some []
  | .proceed g =>
    if fd = g then
      match s.threads fd, s.server.clients.lookup fd with
      | some (sec :: _), some _ => some (sec.messages P s.server.vrx)
      | _, _ => some []
    else some []
  | .broadcast data _ => some (iqMessages data (s.server.clients.lookup fd))
  | .command _ _ | .disconnect _ => some []

/-- What there is of one connection: its thread, the commands it has sent, its state and its sends. -/
structure Conn where
  thread : Option (List Section)
  received : List Command
  client : Option ClientState
  sent : List Sent

def Session.conn (s : Session K) (fd : ℕ) : Conn :=
  ⟨s.threads fd, s.received fd, s.server.clients.lookup fd, s.server.sent fd⟩

/-- The event is one of the connection, or of all. -/
def Event.touches (fd : ℕ) : Event → Bool
  | .accept g | .command g _ | .proceed g | .disconnect g => fd = g
  | .broadcast _ _ => true

/-- What a section sends to its own client, as the kernel is given it. -/
def Section.sends (vrx : VirtualReceiver K) (c : Option ClientState) (sec : Section) : List Sent :=
  match sec.reply P vrx with
  | some (messageType, body) => replySends messageType kStreamTypeStatus body c
  | none => []

/-- **What a step can do to a connection**, with the receiver as `vrx`, and the messages it
sends there. -/
inductive Conn.Step (vrx : VirtualReceiver K) (c : Conn) : Option (List Message) → Conn → Prop where
  | accept (h : c.thread = none) : Conn.Step vrx c none ⟨some [], [], some ClientState.initial, []⟩
  | command (h : c.thread = some []) (cmd : Command) : Conn.Step vrx c (some [])
      {c with thread := some (handleCommand cmd.1 cmd.2), received := c.received ++ [cmd]}
  | proceed {sec : Section} {rest : List Section} {st : ClientState} (h : c.thread = some (sec :: rest))
      (hc : c.client = some st) : Conn.Step vrx c (some (sec.messages P vrx))
      {c with thread := some rest, client := some (sec.onClient st), sent := c.sent ++ sec.sends P vrx c.client}
  /-- The thread of a client that is not registered; none is reached. -/
  | gone (secs : List Section) (h : c.thread ≠ none) (hc : c.client = none) :
      Conn.Step vrx c (some []) {c with thread := some secs}
  | disconnect (h : c.thread = some []) : Conn.Step vrx c (some []) {c with thread := none, client := none}
  | broadcast (data : List UInt8) (outcome : ℕ) : Conn.Step vrx c (some (iqMessages data c.client))
      {c with client := c.client.map ClientState.afterBroadcast, sent := c.sent ++ iqSends data outcome c.client}
  | other : Conn.Step vrx c (some []) c

namespace Session

/-- Without a registered client there is nobody to send to. -/
theorem sends_none (vrx : VirtualReceiver K) (sec : Section) : sec.sends P vrx none = [] := by
  cases sec <;> rfl

theorem perform_sends (s : Server K) (fd g : ℕ) (sec : Section) :
    (Op.perform g sec).sends P s fd = if fd = g then sec.sends P s.vrx (s.clients.lookup fd) else [] := by
  simp only [Op.sends, Section.sends]
  cases sec.reply P s.vrx with
  | some r => rfl
  | none => rw [ite_self]

/-- A step that does not touch a connection leaves all there is of it. -/
theorem conn_untouched {s t : Session K} {e : Event} (h : (machine P).step s e = some t) {fd : ℕ}
    (hfd : e.touches fd = false) : t.conn fd = s.conn fd ∧ s.messages P fd e = some [] := by
  cases e with
  | accept g =>
    have hg : fd ≠ g := of_decide_eq_false hfd
    simp only [machine, step] at h
    split at h
    · obtain rfl := Option.some.inj h
      simp [conn, messages, Server.apply_lookup, Server.apply_sent, Op.onClient, Op.opens, Op.sends, hg]
    · cases h
  | command g cmd =>
    have hg : fd ≠ g := of_decide_eq_false hfd
    simp only [machine, step] at h
    split at h
    · obtain rfl := Option.some.inj h
      simp [conn, messages, hg]
    · cases h
  | proceed g =>
    have hg : fd ≠ g := of_decide_eq_false hfd
    simp only [machine, step] at h
    split at h
    · obtain rfl := Option.some.inj h
      simp [conn, messages, Server.apply_lookup, Server.apply_sent, Op.onClient, Op.opens, perform_sends, hg]
    · cases h
  | disconnect g =>
    have hg : fd ≠ g := of_decide_eq_false hfd
    simp only [machine, step] at h
    split at h
    · obtain rfl := Option.some.inj h
      simp [conn, messages, Server.apply_lookup, Server.apply_sent, Op.onClient, Op.opens, Op.sends, hg]
    · cases h
  | broadcast data outcome => cases hfd

theorem conn_accept {s t : Session K} {fd : ℕ} (h : (machine P).step s (.accept fd) = some t) :
    Conn.Step P s.server.vrx (s.conn fd) (s.messages P fd (.accept fd)) (t.conn fd) := by
  simp only [machine, step] at h
  split at h
  · next hidle =>
    obtain rfl := Option.some.inj h
    have hnew : Conn.Step P s.server.vrx (s.conn fd) none ⟨some [], [], some ClientState.initial, []⟩ :=
      .accept hidle
    simpa [conn, messages, Server.apply_lookup, Server.apply_sent, Op.onClient, Op.opens] using hnew
  · cases h

theorem conn_command {s t : Session K} {fd : ℕ} {cmd : Command}
    (h : (machine P).step s (.command fd cmd) = some t) :
    Conn.Step P s.server.vrx (s.conn fd) (s.messages P fd (.command fd cmd)) (t.conn fd) := by
  simp only [machine, step] at h
  split at h
  · next hidle =>
    obtain rfl := Option.some.inj h
    have hcmd : Conn.Step P s.server.vrx (s.conn fd) (some []) {s.conn fd with
        thread := some (handleCommand cmd.1 cmd.2), received := (s.conn fd).received ++ [cmd]} := .command hidle cmd
    simpa [conn, messages] using hcmd
  · cases h

theorem conn_proceed {s t : Session K} {fd : ℕ} (h : (machine P).step s (.proceed fd) = some t) :
    Conn.Step P s.server.vrx (s.conn fd) (s.messages P fd (.proceed fd)) (t.conn fd) := by
  simp only [machine, step] at h
  split at h
  · next sec rest hbusy =>
    obtain rfl := Option.some.inj h
    cases hc : s.server.clients.lookup fd with
    | some st =>
      have hgo : Conn.Step P s.server.vrx (s.conn fd) (some (sec.messages P s.server.vrx)) {s.conn fd with
          thread := some rest, client := some (sec.onClient st),
          sent := (s.conn fd).sent ++ sec.sends P s.server.vrx (s.conn fd).client} := .proceed hbusy hc
      simpa [conn, messages, hbusy, hc, after, Server.apply_lookup, Server.apply_sent, Op.onClient, Op.opens,
        perform_sends] using hgo
    | none =>
      have hgone : Conn.Step P s.server.vrx (s.conn fd) (some []) {s.conn fd with
          thread := some (s.after fd sec rest)} := .gone _ (by simp [conn, hbusy]) hc
      simpa [conn, messages, hbusy, hc, Server.apply_lookup, Server.apply_sent, Op.onClient, Op.opens,
        perform_sends, sends_none] using hgone
  · cases h

theorem conn_disconnect {s t : Session K} {fd : ℕ} (h : (machine P).step s (.disconnect fd) = some t) :
    Conn.Step P s.server.vrx (s.conn fd) (s.messages P fd (.disconnect fd)) (t.conn fd) := by
  simp only [machine, step] at h
  split at h
  · next hidle =>
    obtain rfl := Option.some.inj h
    have hend : Conn.Step P s.server.vrx (s.conn fd) (some []) {s.conn fd with thread := none, client := none} :=
      .disconnect hidle
    simpa [conn, messages, Server.apply_lookup, Server.apply_sent, Op.onClient, Op.opens, Op.sends] using hend
  · cases h

theorem conn_broadcast {s t : Session K} {data : List UInt8} {outcome : ℕ → ℕ}
    (h : (machine P).step s (.broadcast data outcome) = some t) (fd : ℕ) :
    Conn.Step P s.server.vrx (s.conn fd) (s.messages P fd (.broadcast data outcome)) (t.conn fd) := by
  obtain rfl := Option.some.inj h
  have hiq : Conn.Step P s.server.vrx (s.conn fd) (some (iqMessages data (s.conn fd).client)) {s.conn fd with
      client := (s.conn fd).client.map ClientState.afterBroadcast,
      sent := (s.conn fd).sent ++ iqSends data (outcome fd) (s.conn fd).client} := .broadcast data (outcome fd)
  simpa [conn, messages, Server.apply_lookup, Server.apply_sent, Op.onClient, Op.opens, Op.sends] using hiq

/-- Every step is one of these on every connection. -/
theorem conn_step {s t : Session K} {e : Event} (h : (machine P).step s e = some t) (fd : ℕ) :
    Conn.Step P s.server.vrx (s.conn fd) (s.messages P fd e) (t.conn fd) := by
  cases hfd : e.touches fd with
  | false =>
    obtain ⟨hconn, hmessages⟩ := conn_untouched P h hfd
    rw [hconn, hmessages]
    exact .other
  | true =>
    cases e with
    | broadcast data outcome => exact conn_broadcast P h fd
    | accept g | command g cmd | proceed g | disconnect g =>
      obtain rfl : fd = g := of_decide_eq_true hfd
      first
        | exact conn_accept P h
        | exact conn_command P h
        | exact conn_proceed P h
        | exact conn_disconnect P h

end Session

end VrxServer.SpyServer
