import VrxServer.SpyServer.Session
import Mathlib.Data.List.Forall2

/-! Everything the server sends on a connection, message by message.

Beside the sessions runs a record of what has been sent on each connection since it was
accepted, as messages without numbers (`Logged`); nothing reads it. The sends themselves
are these messages, numbered from 0 in one count over replies and broadcasts, whichever
thread sends them and whatever the scratch buffer held before; and the replies among
them are those to the commands, in order. A header says the length of its body as long
as the length is a 32-bit number (`log_ok_always_iff`). -/
namespace VrxServer.SpyServer
open Base Config Dsp

/-! ### The messages and their numbers -/

def Message.isIq (m : Message) : Bool := m.messageType == kMsgTypeUint8Iq

/-- The header of the `i`-th message. -/
def Message.header (i : ℕ) (m : Message) : MessageHeader where
  protocolId := kProtocolVersion
  messageType := m.messageType
  streamType := m.streamType
  sequenceNumber := UInt32.ofNat i
  bodySize := UInt32.ofNat m.body.length

/-- The buffer of the `i`-th message. -/
def Message.buffer (i : ℕ) (m : Message) : List UInt8 := (m.header i).bytes ++ m.body

/-- Messages as they go out, numbered from 0. -/
def numbered (ms : List Message) : List (List UInt8) := ms.mapIdx Message.buffer

theorem numbered_concat (ms : List Message) (m : Message) :
    numbered (ms ++ [m]) = numbered ms ++ [m.buffer ms.length] := by
  rw [numbered, List.mapIdx_concat]
  rfl

/-! ### The replies -/

/-- The replies a command gets. -/
def repliesTo (cmd : Command) : List Section :=
  if isHello cmd then [.deviceInfo, .clientSync] else if cmd.1 = CommandType.ping then [.pong] else []

def Section.isReply : Section → Bool
  | .deviceInfo | .clientSync | .pong => true
  | .greet | .streamingMode _ | .streamingEnabled _ | .retune _ => false

/-- The sections of a command that reply are the replies it gets. -/
theorem filter_handleCommand (cmd : Command) :
    (handleCommand cmd.1 cmd.2).filter Section.isReply = repliesTo cmd := by
  obtain ⟨commandType, body⟩ := cmd
  unfold handleCommand repliesTo isHello
  by_cases hhello : commandType = CommandType.hello
  · subst hhello
    by_cases hlen : body.length < 4
    · simp [handleHello, hlen, CommandType.hello, CommandType.ping]
    · simp [handleHello, hlen, Section.isReply, Nat.le_of_not_lt hlen]
  · simp only [hhello, if_false]
    by_cases hset : commandType = CommandType.setSetting
    · subst hset
      have hnone : (handleSetSetting body).filter Section.isReply = [] := by
        unfold handleSetSetting
        split
        · split
          · rfl
          · split
            · rfl
            · split <;> rfl
        · rfl
      simp [hnone, CommandType.hello, CommandType.setSetting, CommandType.ping]
    · simp only [hset, if_false]
      split <;> simp [Section.isReply, hhello]

/-- The receiver differs from `v` in what it is tuned to at most. -/
def Retuned {K : Type} (v w : VirtualReceiver K) : Prop :=
  w = {v with centerFrequencyHz := w.centerFrequencyHz, nco := w.nco}

theorem Retuned.trans {K : Type} {u v w : VirtualReceiver K} (h₁ : Retuned u v) (h₂ : Retuned v w) :
    Retuned u w := by
  unfold Retuned at h₁ h₂ ⊢
  rw [h₁] at h₂
  exact h₂

variable {K : Type} [Field K] [LinearOrder K] [FloorRing K] (P : Platform K)

/-- Retunes apart, no operation changes the receiver. -/
theorem apply_vrx (s : Server K) (op : Op) : Retuned s.vrx (s.apply P op).vrx := by
  have hmodify : ∀ fd f, (s.modifyClient fd f).vrx = s.vrx := by
    intro fd f
    unfold Server.modifyClient
    cases s.clients.lookup fd <;> rfl
  have hsend : ∀ fd mt st b, (s.sendMessage fd mt st b).vrx = s.vrx := by
    intro fd mt st b
    unfold Server.sendMessage
    cases s.clients.lookup fd <;> rfl
  have hsame : ∀ v : VirtualReceiver K, v = s.vrx → Retuned s.vrx v := by
    intro v hv
    rw [hv]
    rfl
  cases op with
  | accept fd => exact rfl
  | removeClient fd => exact rfl
  | sendMessage fd mt st b => exact hsame _ (hsend ..)
  | broadcastIq data outcome => exact hsame _ (Server.broadcastIq_spec s data outcome).1
  | perform fd sec =>
    cases sec with
    | greet | streamingMode | streamingEnabled => exact hsame _ (hmodify ..)
    | deviceInfo | clientSync | pong => exact hsame _ (hsend ..)
    | retune value =>
      show Retuned s.vrx (s.retune P.trig value).vrx
      unfold Server.retune VirtualReceiver.retune
      cases VirtualReceiver.assertWithinSpan s.vrx.widebandCenterHz s.vrx.widebandSampleRateHz (value.toNat : K) <;>
        exact rfl

/-- The message is what a section replies, the receiver being tuned to whatever it is. -/
def IsReply (vrx : VirtualReceiver K) (sec : Section) (m : Message) : Prop :=
  ∃ vrx' body, Retuned vrx vrx' ∧ sec.reply P vrx' = some (m.messageType, body) ∧
    m.streamType = kStreamTypeStatus ∧ m.body = body.bytes

/-! ### The record -/

/-- Sessions and a record of the messages sent on each connection since it was accepted. -/
structure Logged (K : Type) where
  session : Session K
  messages : ℕ → List Message

/-- The messages after a step that sends `new`. -/
def appendTo (ms : List Message) : Option (List Message) → List Message
  | none => []
  | some new => ms ++ new

namespace Logged

def initial (vrx : VirtualReceiver K) : Logged K := ⟨Session.initial vrx, fun _ => []⟩

def step (l : Logged K) (e : Event) : Option (Logged K) :=
  (l.session.step P e).map fun t => {
    session := t
    messages := fun fd => appendTo (l.messages fd) (l.session.messages P fd e)}

def machine : Machine (Logged K) Event := ⟨step P⟩

end Logged

/-! ### What a step adds -/

/-- What holds of a connection and its messages: the sends are the messages, numbered; its
client has the next number; and the replies so far, with those its thread has still to
make, are those to its commands. -/
structure Conn.Logs (vrx : VirtualReceiver K) (c : Conn) (ms : List Message) : Prop where
  alive : c.thread = none ↔ c.client = none
  sent_eq : c.sent.map Sent.buf = numbered ms
  next : ∀ st, c.client = some st → st.sequenceNumber = UInt32.ofNat ms.length
  replies : ∃ made, List.Forall₂ (IsReply P vrx) made (ms.filter fun m => !m.isIq) ∧
    made ++ (c.thread.getD []).filter Section.isReply = c.received.flatMap repliesTo

theorem ofNat_length_concat (ms : List Message) (m : Message) :
    UInt32.ofNat (ms ++ [m]).length = UInt32.ofNat ms.length + 1 := by
  rw [List.length_append, List.length_singleton, UInt32.ofNat_add]
  rfl

/-- A reply, as its section sends it. -/
theorem logs_reply {vrx vrx' : VirtualReceiver K} (hvrx : Retuned vrx vrx') {c : Conn} {ms : List Message}
    (h : c.Logs P vrx ms) {sec : Section} {rest : List Section} {st : ClientState}
    (hbusy : c.thread = some (sec :: rest)) (hst : c.client = some st) :
    Conn.Logs P vrx {c with
      thread := some rest, client := some (sec.onClient st),
      sent := c.sent ++ sec.sends P vrx' c.client} (ms ++ sec.messages P vrx') := by
  obtain ⟨made, hmade, hall⟩ := h.replies
  have hnext := h.next st hst
  rw [hbusy, Option.getD_some] at hall
  cases hr : sec.reply P vrx' with
  | none =>
    have hnot : sec.isReply = false ∧ (sec.onClient st).sequenceNumber = st.sequenceNumber := by
      cases sec with
      | deviceInfo | clientSync | pong => cases hr
      | greet | streamingMode | streamingEnabled | retune => exact ⟨rfl, rfl⟩
    simp only [Section.messages, Section.sends, hr, List.append_nil]
    rw [List.filter_cons_of_neg (by simp [hnot.1])] at hall
    refine ⟨by simp, h.sent_eq, ?_, made, hmade, hall⟩
    intro st' hst'
    obtain rfl := Option.some.inj hst'
    exact hnot.2.trans hnext
  | some r =>
    obtain ⟨messageType, body⟩ := r
    have hyes : sec.isReply = true ∧ (sec.onClient st).sequenceNumber = st.sequenceNumber + 1 ∧
        messageType ≠ kMsgTypeUint8Iq := by
      cases sec with
      | deviceInfo | clientSync | pong =>
        obtain ⟨rfl, -⟩ := Prod.mk.inj (Option.some.inj hr)
        exact ⟨rfl, rfl, by decide⟩
      | greet | streamingMode | streamingEnabled | retune => cases hr
    obtain ⟨hreply, hcount, htype⟩ := hyes
    simp only [Section.messages, Section.sends, hr, hst]
    rw [List.filter_cons_of_pos hreply] at hall
    refine ⟨by simp, ?_, ?_, made ++ [sec], ?_, by simpa using hall⟩
    · rw [List.map_append, h.sent_eq, numbered_concat]
      simp only [replySends, List.map_cons, List.map_nil, hnext]
      rfl
    · intro st' hst'
      obtain rfl := Option.some.inj hst'
      rw [hcount, hnext, ofNat_length_concat]
    · rw [List.filter_append]
      refine List.rel_append hmade ?_
      simp only [Message.isIq, List.filter_cons, List.filter_nil]
      rw [if_pos (by simpa using htype)]
      exact .cons ⟨vrx', body, hvrx, hr, rfl, rfl⟩ .nil

/-- An IQ message, or none. -/
theorem logs_broadcast {vrx : VirtualReceiver K} {c : Conn} {ms : List Message} (h : c.Logs P vrx ms)
    (data : List UInt8) (outcome : ℕ) :
    Conn.Logs P vrx {c with
      client := c.client.map ClientState.afterBroadcast,
      sent := c.sent ++ iqSends data outcome c.client} (ms ++ iqMessages data c.client) := by
  obtain ⟨made, hmade, hall⟩ := h.replies
  have hiq : (ms ++ iqMessages data c.client).filter (fun m => !m.isIq) = ms.filter fun m => !m.isIq := by
    rw [List.filter_append]
    unfold iqMessages
    split
    · split <;> simp [Message.isIq]
    · simp
  refine ⟨by simp [h.alive], ?_, ?_, made, hiq ▸ hmade, hall⟩
  · cases hst : c.client with
    | none => simpa [iqSends, iqMessages] using h.sent_eq
    | some st =>
      simp only [iqSends, iqMessages]
      split
      · rw [List.map_append, h.sent_eq, numbered_concat]
        simp only [List.map_cons, List.map_nil, h.next st hst]
        rfl
      · simpa using h.sent_eq
  · intro st' hst'
    obtain ⟨st, hst, rfl⟩ := Option.map_eq_some_iff.mp hst'
    simp only [hst, ClientState.afterBroadcast, iqMessages]
    split
    · rw [ofNat_length_concat, ← h.next st hst]
    · rw [List.append_nil, ← h.next st hst]

theorem Conn.Step.logs {vrx vrx' : VirtualReceiver K} (hvrx : Retuned vrx vrx') {c c' : Conn} {ms : List Message}
    {new : Option (List Message)} (hstep : Conn.Step P vrx' c new c') (h : c.Logs P vrx ms) :
    c'.Logs P vrx (appendTo ms new) := by
  obtain ⟨made, hmade, hall⟩ := h.replies
  cases hstep with
  | accept hidle =>
    refine ⟨by simp, rfl, ?_, [], .nil, rfl⟩
    intro st hst
    obtain rfl := Option.some.inj hst
    rfl
  | command hidle cmd =>
    simp only [appendTo, List.append_nil]
    refine ⟨?_, h.sent_eq, h.next, made, hmade, ?_⟩
    · rw [← h.alive, hidle]
      simp
    · rw [hidle] at hall
      rw [Option.getD_some, filter_handleCommand, List.flatMap_append, ← hall]
      simp
  | proceed hbusy hst => exact logs_reply P hvrx h hbusy hst
  | gone secs halive hst => exact absurd (h.alive.mpr hst) halive
  | disconnect hidle =>
    simp only [appendTo, List.append_nil]
    refine ⟨by simp, h.sent_eq, by simp, made, hmade, ?_⟩
    rwa [hidle] at hall
  | broadcast data outcome => exact logs_broadcast P h data outcome
  | other =>
    simp only [appendTo, List.append_nil]
    exact h

/-! ### Runs -/

namespace Logged

theorem step_messages {l t : Logged K} {e : Event} (h : (machine P).step l e = some t) (fd : ℕ) :
    t.messages fd = appendTo (l.messages fd) (l.session.messages P fd e) := by
  simp only [machine, step, Option.map_eq_some_iff] at h
  obtain ⟨s, -, rfl⟩ := h
  rfl

/-- What holds in every state of every run. -/
structure Sound (vrx : VirtualReceiver K) (fd : ℕ) (l : Logged K) : Prop where
  retuned : Retuned vrx l.session.server.vrx
  logs : (l.session.conn fd).Logs P vrx (l.messages fd)

/-- Every step runs one operation, or none. -/
theorem session_vrx {s t : Session K} {e : Event} (h : (Session.machine P).step s e = some t) :
    Retuned s.server.vrx t.server.vrx := by
  cases e with
  | accept fd | command fd cmd | proceed fd | disconnect fd =>
    simp only [Session.machine, Session.step] at h
    split at h
    · obtain rfl := Option.some.inj h
      first
        | exact apply_vrx P _ _
        | exact rfl
    · cases h
  | broadcast data outcome =>
    obtain rfl := Option.some.inj h
    exact apply_vrx P _ _

theorem Sound.step {vrx : VirtualReceiver K} {fd : ℕ} (l : Logged K) (e : Event) (t : Logged K)
    (h : Sound P vrx fd l) (hstep : (machine P).step l e = some t) : Sound P vrx fd t := by
  obtain ⟨s, hs, rfl⟩ := Option.map_eq_some_iff.mp hstep
  exact ⟨h.retuned.trans (session_vrx P hs), (Session.conn_step P hs fd).logs P h.retuned h.logs⟩

/-- The log of a connection as a peer reads it: the `i`-th send is the `i`-th message, in a
buffer of the 20 bytes of a header and the bytes the header announces, and numbered `i`; and the
messages that are no IQ, with the replies the connection's thread has still to make, are the
replies to the commands in the order they came. -/
structure LogOk (vrx : VirtualReceiver K) (fd : ℕ) (l : Logged K) : Prop where
  length_eq : (l.session.server.sent fd).length = (l.messages fd).length
  message : ∀ i m, (l.messages fd)[i]? = some m → ∃ a h, (l.session.server.sent fd)[i]? = some a ∧
    a.buf = MessageHeader.bytes h ++ m.body ∧ a.buf.length = 20 + h.bodySize.toNat ∧
    h.sequenceNumber = UInt32.ofNat i ∧ h.bodySize.toNat = m.body.length ∧
    h.messageType = m.messageType ∧ h.streamType = m.streamType
  replies : ∃ made, List.Forall₂ (IsReply P vrx) made ((l.messages fd).filter fun m => !m.isIq) ∧
    made ++ ((l.session.threads fd).getD []).filter Section.isReply = (l.session.received fd).flatMap repliesTo

/-- A broadcast the client gets has fewer than 2^32 bytes. -/
def Fits (fd : ℕ) (l : Logged K) : Event → Prop
  | .broadcast data _ =>
    (∃ c, l.session.server.clients.lookup fd = some c ∧ c.streams = true) → data.length < 4294967296
  | .accept _ | .command _ _ | .proceed _ | .disconnect _ => True

theorem logOk_iff {vrx : VirtualReceiver K} {fd : ℕ} {l : Logged K} (h : Sound P vrx fd l) :
    LogOk P vrx fd l ↔ ∀ m ∈ l.messages fd, m.body.length < 4294967296 := by
  have hsent : (l.session.server.sent fd).map Sent.buf = numbered (l.messages fd) := h.logs.sent_eq
  constructor
  · intro hok m hm
    obtain ⟨i, hi⟩ := List.getElem?_of_mem hm
    obtain ⟨-, header, -, -, -, -, hsize, -⟩ := hok.message i m hi
    rw [← hsize]
    exact header.bodySize.toNat_lt
  · intro hlt
    refine ⟨?_, fun i m hm => ?_, h.logs.replies⟩
    · simpa [numbered] using congrArg List.length hsent
    · have hbuf : (l.session.server.sent fd)[i]?.map Sent.buf = some (m.buffer i) := by
        rw [← List.getElem?_map, hsent, numbered, List.getElem?_mapIdx, hm]
        rfl
      obtain ⟨a, ha, hbuf⟩ := Option.map_eq_some_iff.mp hbuf
      have hsize : (m.header i).bodySize.toNat = m.body.length := by
        show (UInt32.ofNat m.body.length).toNat = _
        rw [UInt32.toNat_ofNat', Nat.mod_eq_of_lt (hlt m (List.mem_of_getElem? hm))]
      refine ⟨a, m.header i, ha, hbuf, ?_, rfl, hsize, rfl, rfl⟩
      rw [hbuf, Message.buffer, List.length_append, MessageHeader.length_bytes, hsize]

/-- What a step adds has a length a header can say exactly when it fits. -/
theorem messages_lt (l : Logged K) (fd : ℕ) (e : Event) :
    (∀ m ∈ (l.session.messages P fd e).getD [], m.body.length < 4294967296) ↔ Fits fd l e := by
  cases e with
  | accept g =>
    refine iff_of_true ?_ trivial
    rw [Session.messages]
    split <;> simp
  | command g cmd | disconnect g => exact iff_of_true (by simp [Session.messages]) trivial
  | proceed g =>
    refine iff_of_true ?_ trivial
    rw [Session.messages]
    split
    · split
      · next sec _ _ _ _ =>
        rw [Option.getD_some, Section.messages]
        split
        · next body _ => simpa using body.lt
        · simp
      · simp
    · simp
  | broadcast data outcome =>
    rw [Session.messages, Option.getD_some, Fits]
    cases l.session.server.clients.lookup fd with
    | none => simp [iqMessages]
    | some c => cases hc : c.streams <;> simp [iqMessages, hc]

/-- **Over a whole run, the log of a connection is as it should be exactly when no broadcast it
gets is longer than a header can say.** -/
theorem log_ok_always_iff (vrx : VirtualReceiver K) (fd : ℕ) (evs : List Event) :
    (machine P).Always (LogOk P vrx fd) (initial vrx) evs ↔ (machine P).Allowed (Fits fd) (initial vrx) evs := by
  have hsound : Sound P vrx fd (initial vrx) := {
    retuned := rfl
    logs := {
      alive := by simp [initial, Session.conn, Session.initial, Server.initial]
      sent_eq := rfl
      next := by simp [initial, Session.conn, Session.initial, Server.initial]
      replies := ⟨[], .nil, rfl⟩ } }
  refine Machine.always_iff_allowed (Sound.step P) (fun l e t hl hok hstep => ?_) hsound
    ((logOk_iff P hsound).mpr (by simp [initial]))
  rw [logOk_iff P (Sound.step P l e t hl hstep), ← messages_lt P, step_messages P hstep]
  rw [logOk_iff P hl] at hok
  cases l.session.messages P fd e with
  | none => simp [appendTo]
  | some ms =>
    rw [appendTo, List.forall_mem_append]
    exact and_iff_right hok

/-- A client that has said Hello and enabled streaming. -/
def streamingSteps : List Event :=
  [.accept 4, .command 4 (0, [164, 6, 0, 2]), .proceed 4, .proceed 4, .proceed 4,
    .command 4 (2, [1, 0, 0, 0, 1, 0, 0, 0]), .proceed 4]

theorem run_streamingSteps : ∃ l, (machine Platform.sample).run (initial VirtualReceiver.sample) streamingSteps = some l ∧
    ∃ c, l.session.server.clients.lookup 4 = some c ∧ c.streams = true := by
  refine ⟨_, rfl, ?_⟩
  exact ⟨_, rfl, by decide⟩

/-- The header of a broadcast of 2^32 bytes says 0. -/
theorem long_broadcast_unsaid : ¬ ∀ (vrx : VirtualReceiver ℚ) (fd : ℕ) (evs : List Event) (l : Logged ℚ),
    (machine Platform.sample).run (initial vrx) evs = some l → LogOk Platform.sample vrx fd l := by
  intro h
  obtain ⟨l, hl, c, hc, hstreams⟩ := run_streamingSteps
  have hdata : ∃ data : List UInt8, data.length = 4294967296 := ⟨List.replicate 4294967296 128, List.length_replicate⟩
  obtain ⟨data, hdata⟩ := hdata
  obtain ⟨t, ht⟩ : ∃ t, (machine Platform.sample).step l (.broadcast data fun _ => 0) = some t := ⟨_, rfl⟩
  have hok := h VirtualReceiver.sample 4 (streamingSteps ++ [.broadcast data fun _ => 0]) t (by
    rw [Machine.run_concat, hl]
    exact ht)
  have hmem : (⟨kMsgTypeUint8Iq, kStreamTypeIq, data⟩ : Message) ∈ t.messages 4 := by
    rw [step_messages Platform.sample ht]
    simp [Session.messages, hc, iqMessages, hstreams, appendTo]
  obtain ⟨i, hi⟩ := List.getElem?_of_mem hmem
  obtain ⟨-, header, -, -, -, -, hsize, -⟩ := hok.message i _ hi
  have := header.bodySize.toNat_lt
  simp only [hdata] at hsize
  omega

end Logged

end VrxServer.SpyServer
