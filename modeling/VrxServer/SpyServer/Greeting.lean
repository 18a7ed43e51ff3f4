import VrxServer.SpyServer.Framing
import VrxServer.SpyServer.Session
import Mathlib.Data.List.TakeWhile

/-! The greeting: DeviceInfo and ClientSync before any IQ.

A client is greeted once it has been sent a DeviceInfo and a ClientSync. The gate opens
with the first section of a Hello, before the greeting goes out. So a client that has
enabled streaming before its Hello can be sent IQ first, and no other client can
(`greeted_first_iff`). -/
namespace VrxServer.SpyServer
open Base Config Dsp

/-! ### The order of the sends -/

def Sent.messageType (a : Sent) : Option UInt32 := readU32 a.buf 4

def HasInfo (sends : List Sent) : Prop := ∃ a ∈ sends, a.messageType = some kMsgTypeDeviceInfo
def HasSync (sends : List Sent) : Prop := ∃ a ∈ sends, a.messageType = some kMsgTypeClientSync

/-- Every IQ message is sent behind a DeviceInfo and a ClientSync. -/
def GreetedFirst (sends : List Sent) : Prop :=
  ∀ pre a, pre ++ [a] <+: sends → a.messageType = some kMsgTypeUint8Iq → HasInfo pre ∧ HasSync pre

theorem HasInfo.append {sends : List Sent} (h : HasInfo sends) (more : List Sent) : HasInfo (sends ++ more) := by
  obtain ⟨a, ha, htype⟩ := h
  exact ⟨a, List.mem_append_left _ ha, htype⟩

theorem HasSync.append {sends : List Sent} (h : HasSync sends) (more : List Sent) : HasSync (sends ++ more) := by
  obtain ⟨a, ha, htype⟩ := h
  exact ⟨a, List.mem_append_left _ ha, htype⟩

theorem greetedFirst_nil : GreetedFirst [] := by
  intro pre a h
  simp at h

theorem greetedFirst_concat {sends : List Sent} {a : Sent} (h : GreetedFirst sends)
    (ha : a.messageType = some kMsgTypeUint8Iq → HasInfo sends ∧ HasSync sends) : GreetedFirst (sends ++ [a]) := by
  intro pre b hpre hb
  rcases List.prefix_concat_iff.mp hpre with heq | hpre
  · obtain ⟨rfl, hab⟩ := List.append_inj' heq rfl
    obtain rfl := List.singleton_inj.mp hab
    exact ha hb
  · exact h pre b hpre hb

/-- A broadcast keeps the order when it sends to greeted clients only. -/
theorem greetedFirst_iqSends {sends : List Sent} (h : GreetedFirst sends) (data : List UInt8) (outcome : ℕ)
    (c : Option ClientState) (hc : ∀ c', c = some c' → c'.streams = true → HasInfo sends ∧ HasSync sends) :
    GreetedFirst (sends ++ iqSends data outcome c) := by
  cases c with
  | none => rwa [iqSends, List.append_nil]
  | some c =>
    rw [iqSends]
    split
    · next hs => exact greetedFirst_concat h fun _ => hc c rfl hs
    · rwa [List.append_nil]

/-- A reply is no IQ message. -/
theorem greetedFirst_replySends {sends : List Sent} (h : GreetedFirst sends) {messageType : UInt32}
    (hne : messageType ≠ kMsgTypeUint8Iq) (streamType : UInt32) (body : Server.Body) (c : Option ClientState) :
    GreetedFirst (sends ++ replySends messageType streamType body c) := by
  cases c with
  | none => rwa [replySends, List.append_nil]
  | some c =>
    refine greetedFirst_concat h fun htype => ?_
    rw [Sent.messageType, readU32_messageType] at htype
    exact absurd (Option.some.inj htype) hne

variable {K : Type} [Field K] [LinearOrder K] [FloorRing K] (P : Platform K)

/-! ### What a run keeps -/

/-- Streaming is not enabled when the first valid Hello comes. -/
def Settled (cmds : List Command) : Prop :=
  cmds.any isHello = true → lastEnabled (cmds.takeWhile fun cmd => !isHello cmd) = false

theorem takeWhile_of_not_any {cmds : List Command} (h : cmds.any isHello = false) (more : List Command) :
    (cmds ++ more).takeWhile (fun cmd => !isHello cmd) = cmds ++ more.takeWhile fun cmd => !isHello cmd := by
  refine List.takeWhile_append_of_pos fun cmd hcmd => ?_
  rw [Bool.not_eq_true', ← Bool.not_eq_true]
  intro hhello
  rw [List.any_eq_true.mpr ⟨cmd, hcmd, hhello⟩] at h
  cases h

theorem Settled.of_append {cmds more : List Command} (h : Settled (cmds ++ more)) : Settled cmds := by
  intro hany
  have hlt : (cmds.takeWhile fun cmd => !isHello cmd).length ≠ cmds.length := by
    intro heq
    obtain ⟨cmd, hmem, hhello⟩ := List.any_eq_true.mp hany
    have hall := List.takeWhile_eq_self_iff.mp (List.Sublist.eq_of_length (List.takeWhile_sublist _) heq)
    have := hall cmd hmem
    simp [hhello] at this
  have htake : (cmds ++ more).takeWhile (fun cmd => !isHello cmd) = cmds.takeWhile fun cmd => !isHello cmd := by
    rw [List.takeWhile_append, if_neg hlt]
  rw [← htake]
  exact h (by rw [List.any_append, hany, Bool.true_or])

def Greeted (sends : List Sent) : Prop := HasInfo sends ∧ HasSync sends

theorem Greeted.append {sends : List Sent} (h : Greeted sends) (more : List Sent) : Greeted (sends ++ more) :=
  ⟨h.1.append more, h.2.append more⟩

/-- Where a connection of settled commands stands, by what its thread has still to run: the
gate is shut or the client is greeted. -/
inductive Phase (g : Gate) (sends : List Sent) : List Section → Prop where
  | idle (h : g.handshakeDone = true → Greeted sends) : Phase g sends []
  | other {sec : Section} (hsec : sec ≠ .greet ∧ sec ≠ .deviceInfo ∧ sec ≠ .clientSync)
      (h : g.handshakeDone = true → Greeted sends) : Phase g sends [sec]
  | greet (hdone : g.handshakeDone = true → Greeted sends)
      (hnew : g.handshakeDone = false → g.streamingEnabled = false) :
      Phase g sends [.greet, .deviceInfo, .clientSync]
  | info (h : Greeted sends ∨ g.streamingEnabled = false) : Phase g sends [.deviceInfo, .clientSync]
  | sync (h : Greeted sends ∨ g.streamingEnabled = false ∧ HasInfo sends) : Phase g sends [.clientSync]

/-- Only a greeted client has its gate open. -/
theorem Phase.greeted {c : ClientState} {sends : List Sent} {secs : List Section}
    (h : Phase c.gate sends secs) (hc : c.streams = true) : Greeted sends := by
  simp only [ClientState.streams, Bool.and_eq_true] at hc
  obtain ⟨⟨hdone, henabled⟩, -⟩ := hc
  have hopen : c.gate.streamingEnabled ≠ false := by
    rw [ClientState.gate, henabled]
    exact Bool.noConfusion
  cases h with
  | idle h => exact h hdone
  | other _ h => exact h hdone
  | greet h _ => exact h hdone
  | info h => exact h.resolve_right hopen
  | sync h => exact h.resolve_right fun h => hopen h.1

theorem Phase.append {g : Gate} {sends : List Sent} {secs : List Section} (h : Phase g sends secs)
    (more : List Sent) : Phase g (sends ++ more) secs := by
  cases h with
  | idle h => exact .idle fun hd => (h hd).append more
  | other hsec h => exact .other hsec fun hd => (h hd).append more
  | greet h hnew => exact .greet (fun hd => (h hd).append more) hnew
  | info h => exact .info (h.imp_left (·.append more))
  | sync h => exact .sync (h.imp (·.append more) fun h => ⟨h.1, h.2.append more⟩)

/-- What holds of the connection at a descriptor. -/
def Session.Holds (fd : ℕ) (s : Session K) : Prop :=
  match s.threads fd, s.server.clients.lookup fd with
  | some secs, some c => secs.foldl Section.onGate c.gate = gateAfter (s.received fd) ∧
      (Settled (s.received fd) → GreetedFirst (s.server.sent fd) ∧ Phase c.gate (s.server.sent fd) secs)
  | none, none => Settled (s.received fd) → GreetedFirst (s.server.sent fd)
  | _, _ => False

/-- What holds of a connection in its terms. -/
def Session.Sound (cmds : List Command) (c : ClientState) (sends : List Sent) (secs : List Section) : Prop :=
  secs.foldl Section.onGate c.gate = gateAfter cmds ∧
    (Settled cmds → GreetedFirst sends ∧ Phase c.gate sends secs)

/-- The same, of the connection itself. -/
def Conn.Holds (c : Conn) : Prop :=
  match c.thread, c.client with
  | some secs, some st => Session.Sound c.received st c.sent secs
  | none, none => Settled c.received → GreetedFirst c.sent
  | _, _ => False

theorem Conn.Holds.sound {c : Conn} {secs : List Section} (h : c.Holds) (hthread : c.thread = some secs) :
    ∃ st, c.client = some st ∧ Session.Sound c.received st c.sent secs := by
  unfold Conn.Holds at h
  rw [hthread] at h
  cases hst : c.client with
  | none => rw [hst] at h; exact h.elim
  | some st => rw [hst] at h; exact ⟨st, rfl, h⟩

theorem Conn.Holds.of_sound {c : Conn} {secs : List Section} {st : ClientState} (hthread : c.thread = some secs)
    (hst : c.client = some st) (h : Session.Sound c.received st c.sent secs) : c.Holds := by
  unfold Conn.Holds
  rwa [hthread, hst]

/-- A command that a settled connection sends is handled in the right phase. -/
theorem phase_command {g : Gate} {sends : List Sent} {cmds : List Command} {cmd : Command}
    (hg : g = gateAfter cmds) (hs : Settled (cmds ++ [cmd])) (h : Phase g sends []) :
    Phase g sends (handleCommand cmd.1 cmd.2) := by
  cases h with
  | idle h =>
    rcases handleCommand_cases cmd with ⟨hhello, hcmd⟩ | ⟨-, hcmd | hcmd | ⟨v, hcmd⟩ | ⟨v, hcmd⟩ | ⟨v, hcmd⟩⟩ <;>
      rw [hcmd]
    · refine .greet h fun hnew => ?_
      obtain ⟨hdone, henabled⟩ := gateAfter_spec cmds
      rw [hg, hdone] at hnew
      rw [hg, henabled]
      have := hs (by simp [hhello])
      rw [takeWhile_of_not_any hnew] at this
      simpa [hhello] using this
    · exact .idle h
    all_goals exact .other (by simp) h

/-- A reply is of the type it was given. -/
theorem messageType_replySends (messageType streamType : UInt32) (body : Server.Body) (c : ClientState) :
    ∃ a ∈ replySends messageType streamType body (some c), a.messageType = some messageType :=
  ⟨_, List.mem_singleton_self _, readU32_messageType _ _⟩

/-- What a section sends keeps the order. -/
theorem greetedFirst_section {sends : List Sent} (h : GreetedFirst sends) (vrx : VirtualReceiver K)
    (c : Option ClientState) (sec : Section) : GreetedFirst (sends ++ sec.sends P vrx c) := by
  cases sec with
  | deviceInfo => exact greetedFirst_replySends h (by decide) _ _ _
  | clientSync => exact greetedFirst_replySends h (by decide) _ _ _
  | pong => exact greetedFirst_replySends h (by decide) _ _ _
  | greet | streamingMode | streamingEnabled | retune => simpa [Section.sends, Section.reply] using h

/-- A section brings its connection to the next phase. -/
theorem phase_proceed {c : ClientState} {sec : Section} {rest : List Section} {sends : List Sent}
    (h : Phase c.gate sends (sec :: rest)) (vrx : VirtualReceiver K) :
    Phase (sec.onClient c).gate (sends ++ sec.sends P vrx (some c)) rest := by
  rw [onClient_gate]
  cases h with
  | other hsec h =>
    refine (Phase.idle fun hdone => h ?_).append _
    cases sec with
    | greet | deviceInfo | clientSync => simp at hsec
    | pong | streamingMode | streamingEnabled | retune => exact hdone
  | greet hdone hnew =>
    refine (Phase.info ?_).append _
    cases hc : c.gate.handshakeDone with
    | true => exact .inl (hdone hc)
    | false => exact .inr (hnew hc)
  | info h =>
    obtain ⟨a, ha, htype⟩ := messageType_replySends kMsgTypeDeviceInfo kStreamTypeStatus
      ⟨(helloDeviceInfo P vrx).bytes, by simp⟩ c
    exact .sync (h.imp (·.append _) fun h => ⟨h, a, List.mem_append_right _ ha, htype⟩)
  | sync h =>
    obtain ⟨a, ha, htype⟩ := messageType_replySends kMsgTypeClientSync kStreamTypeStatus
      ⟨(helloClientSync P vrx).bytes, by simp⟩ c
    exact .idle fun _ => ⟨(h.elim And.left And.right).append _, a, List.mem_append_right _ ha, htype⟩

/-- **Every step keeps what holds of a connection.** -/
theorem Conn.Step.holds {vrx : VirtualReceiver K} {c c' : Conn} {ms : Option (List Message)}
    (hstep : Conn.Step P vrx c ms c') (h : c.Holds) : c'.Holds := by
  cases hstep with
  | accept hidle => exact ⟨rfl, fun _ => ⟨greetedFirst_nil, .idle fun hdone => by cases hdone⟩⟩
  | command hidle cmd =>
    obtain ⟨st, hst, hgate, hphase⟩ := h.sound hidle
    refine .of_sound rfl hst ⟨?_, fun hsettled => ?_⟩
    · rw [gateAfter_concat, ← hgate]
      rfl
    · obtain ⟨hordered, hidle'⟩ := hphase hsettled.of_append
      exact ⟨hordered, phase_command hgate hsettled hidle'⟩
  | proceed hbusy hst =>
    obtain ⟨st, hst', hgate, hphase⟩ := h.sound hbusy
    obtain rfl := Option.some.inj (hst.symm.trans hst')
    refine .of_sound rfl rfl ⟨?_, fun hsettled => ?_⟩
    · rw [onClient_gate]
      exact hgate
    · obtain ⟨hordered, hphase⟩ := hphase hsettled
      rw [hst]
      exact ⟨greetedFirst_section P hordered _ _ _, phase_proceed P hphase vrx⟩
  | gone secs halive hst =>
    obtain ⟨secs, hthread⟩ := Option.ne_none_iff_exists'.mp halive
    obtain ⟨st, hst', -⟩ := h.sound hthread
    rw [hst] at hst'
    cases hst'
  | disconnect hidle =>
    obtain ⟨st, -, -, hphase⟩ := h.sound hidle
    exact fun hsettled => (hphase hsettled).1
  | broadcast data outcome =>
    unfold Conn.Holds at h ⊢
    split at h
    · next secs st hthread hst =>
      obtain ⟨hgate, hphase⟩ := h
      simp only [hthread, hst, Option.map_some]
      refine ⟨by rw [afterBroadcast_gate]; exact hgate, fun hsettled => ?_⟩
      obtain ⟨hordered, hphase⟩ := hphase hsettled
      rw [afterBroadcast_gate]
      refine ⟨greetedFirst_iqSends hordered data _ _ ?_, hphase.append _⟩
      intro st' hst' hstreams
      obtain rfl := Option.some.inj hst'
      exact hphase.greeted hstreams
    · next hthread hst =>
      simp only [hthread, hst, Option.map_none, iqSends, List.append_nil]
      exact h
    · exact h.elim
  | other => exact h

namespace Session

omit [Field K] [LinearOrder K] [FloorRing K] in
theorem holds_iff (fd : ℕ) (s : Session K) : Holds fd s ↔ (s.conn fd).Holds := Iff.rfl

omit [Field K] [LinearOrder K] [FloorRing K] in
theorem Holds.sound {fd : ℕ} {s : Session K} {secs : List Section} (h : Holds fd s)
    (hthreads : s.threads fd = some secs) :
    ∃ c, s.server.clients.lookup fd = some c ∧ Sound (s.received fd) c (s.server.sent fd) secs :=
  Conn.Holds.sound ((holds_iff fd s).mp h) hthreads

theorem holds_reachable {vrx : VirtualReceiver K} {s : Session K} (h : (machine P).Reachable (initial vrx) s)
    (fd : ℕ) : Holds fd s := by
  obtain ⟨evs, hrun⟩ := h
  refine Machine.invariant (fun s e t hs hstep => ?_) hrun fun _ => greetedFirst_nil
  exact (conn_step P hstep fd).holds P hs

/-- In every state a run reaches, a connection that has sent settled commands is greeted
before it is sent IQ. -/
theorem greetedFirst_of_settled {vrx : VirtualReceiver K} {s : Session K}
    (h : (machine P).Reachable (initial vrx) s) (fd : ℕ) (hs : Settled (s.received fd)) :
    GreetedFirst (s.server.sent fd) := by
  have hholds := holds_reachable P h fd
  unfold Holds at hholds
  split at hholds
  · exact (hholds.2 hs).1
  · exact hholds hs
  · exact hholds.elim

/-! ### Unsettled commands -/

/-- A reachable state in which the connection has sent these commands, has no reply
pending and has not been greeted. -/
structure Ungreeted (vrx : VirtualReceiver K) (fd : ℕ) (cmds : List Command) (s : Session K) : Prop where
  reachable : (machine P).Reachable (initial vrx) s
  idle : s.threads fd = some []
  received : s.received fd = cmds
  noInfo : ¬ HasInfo (s.server.sent fd)

theorem ungreeted_nil (vrx : VirtualReceiver K) (fd : ℕ) : ∃ s, Ungreeted P vrx fd [] s := by
  have hstep : (machine P).step (initial vrx) (.accept fd) = some _ := rfl
  refine ⟨_, (Machine.Reachable.refl _ _).tail _ hstep, Function.update_self .., Function.update_self .., ?_⟩
  simp [Server.apply_sent, Op.opens, HasInfo]

/-- A pong is no DeviceInfo. -/
theorem noInfo_perform {s : Server K} {fd : ℕ} {sec : Section} (hsec : sec ≠ .deviceInfo ∧ sec ≠ .clientSync)
    {sends : List Sent} (h : ¬ HasInfo sends) : ¬ HasInfo (sends ++ (Op.perform fd sec).sends P s fd) := by
  intro hp
  obtain ⟨a, ha, htype⟩ := hp
  rcases List.mem_append.mp ha with ha | ha
  · exact h ⟨a, ha, htype⟩
  · cases sec with
    | deviceInfo | clientSync => simp at hsec
    | greet | streamingMode | streamingEnabled | retune => simp [Op.sends, Section.reply] at ha
    | pong =>
      simp only [Op.sends, Section.reply, if_true] at ha
      cases hc : s.clients.lookup fd with
      | none => simp [hc, replySends] at ha
      | some c =>
        rw [hc] at ha
        obtain rfl := List.mem_singleton.mp ha
        rw [Sent.messageType, readU32_messageType] at htype
        exact absurd (Option.some.inj htype) (by decide : kMsgTypePong ≠ kMsgTypeDeviceInfo)

theorem ungreeted_concat {vrx : VirtualReceiver K} {fd : ℕ} {cmds : List Command} {s : Session K}
    (h : Ungreeted P vrx fd cmds s) {cmd : Command} (hcmd : isHello cmd = false) :
    ∃ t, Ungreeted P vrx fd (cmds ++ [cmd]) t := by
  have hstep : (machine P).step s (.command fd cmd) = some {s with
      threads := Function.update s.threads fd (some (handleCommand cmd.1 cmd.2))
      received := Function.update s.received fd (s.received fd ++ [cmd])} := by
    simp [machine, step, h.idle]
  have hreach := h.reachable.tail _ hstep
  have hreceived : Function.update s.received fd (s.received fd ++ [cmd]) fd = cmds ++ [cmd] := by
    rw [Function.update_self, h.received]
  have hone : ∀ sec, handleCommand cmd.1 cmd.2 = [sec] → sec ≠ .greet → sec ≠ .deviceInfo → sec ≠ .clientSync →
      ∃ t, Ungreeted P vrx fd (cmds ++ [cmd]) t := by
    intro sec hsec hgreet hinfo hsync
    rw [hsec] at hreach
    have hproceed : ∀ u : Session K, u.threads fd = some [sec] → (machine P).step u (.proceed fd) = some {u with
        server := u.server.apply P (.perform fd sec)
        threads := Function.update u.threads fd (some [])} := by
      intro u hu
      simp [machine, step, hu, after, hgreet]
    refine ⟨_, hreach.tail _ (hproceed _ (Function.update_self ..)), Function.update_self .., hreceived, ?_⟩
    simp only [Server.apply_sent, Op.opens, Bool.false_eq_true, if_false]
    exact noInfo_perform P ⟨hinfo, hsync⟩ h.noInfo
  rcases handleCommand_cases cmd with ⟨hhello, -⟩ | ⟨-, hsec | hsec | ⟨v, hsec⟩ | ⟨v, hsec⟩ | ⟨v, hsec⟩⟩
  · rw [hcmd] at hhello
    cases hhello
  · exact ⟨_, hreach, by simp [hsec], hreceived, h.noInfo⟩
  all_goals exact hone _ hsec (by simp) (by simp) (by simp)

theorem ungreeted_of_not_hello (vrx : VirtualReceiver K) (fd : ℕ) (cmds : List Command)
    (h : cmds.any isHello = false) : ∃ s, Ungreeted P vrx fd cmds s := by
  induction cmds using List.reverseRecOn with
  | nil => exact ungreeted_nil P vrx fd
  | append_singleton cmds cmd ih =>
    simp only [List.any_append, List.any_cons, List.any_nil, Bool.or_false, Bool.or_eq_false_iff] at h
    obtain ⟨s, hs⟩ := ih h.1
    exact ungreeted_concat P hs h.2

/-- Between the first section of a Hello and its replies, the gate is open where streaming was
enabled before. -/
theorem streams_ungreeted (vrx : VirtualReceiver K) (fd : ℕ) {cmds : List Command} {cmd : Command}
    (hcmd : isHello cmd = true) (hnot : cmds.any isHello = false) (henabled : lastEnabled cmds = true) :
    ∃ s, (machine P).Reachable (initial vrx) s ∧ s.received fd = cmds ++ [cmd] ∧ ¬ HasInfo (s.server.sent fd) ∧
      ∃ c, s.server.clients.lookup fd = some c ∧ c.streams = true := by
  obtain ⟨s, hs⟩ := ungreeted_of_not_hello P vrx fd cmds hnot
  have hsecs : handleCommand cmd.1 cmd.2 = [.greet, .deviceInfo, .clientSync] := by
    rcases handleCommand_cases cmd with ⟨-, h⟩ | ⟨h, -⟩
    · exact h
    · rw [hcmd] at h
      cases h
  obtain ⟨c, hc, -⟩ := (holds_reachable P hs.reachable fd).sound hs.idle
  let s₁ : Session K := {s with
    threads := Function.update s.threads fd (some [.greet, .deviceInfo, .clientSync])
    received := Function.update s.received fd (s.received fd ++ [cmd])}
  let s₂ : Session K := {s₁ with
    server := s₁.server.apply P (.perform fd .greet)
    threads := Function.update s₁.threads fd (some [.deviceInfo, .clientSync])}
  have h₁ : (machine P).step s (.command fd cmd) = some s₁ := by
    simp [machine, step, hs.idle, hsecs, s₁]
  have h₂ : (machine P).step s₁ (.proceed fd) = some s₂ := by
    simp [machine, step, after, s₁, s₂, hc]
  have hreach := (hs.reachable.tail _ h₁).tail _ h₂
  have hreceived : s₂.received fd = cmds ++ [cmd] := by simp [s₂, s₁, hs.received]
  have hsent : s₂.server.sent fd = s.server.sent fd := by
    simp [s₂, s₁, Server.apply_sent, Op.opens, Op.sends, Section.reply]
  obtain ⟨c₂, hc₂, hgate, -⟩ := (holds_reachable P hreach fd).sound
    (show s₂.threads fd = some [.deviceInfo, .clientSync] from Function.update_self ..)
  refine ⟨s₂, hreach, hreceived, hsent.symm ▸ hs.noInfo, c₂, hc₂, ?_⟩
  -- The handshake is done and the mode is IQ, and streaming was enabled before.
  have hopen : c₂.gate = ⟨true, lastEnabled cmds, kStreamTypeIq⟩ := by
    rw [hreceived, gateAfter_concat, hsecs] at hgate
    rw [← (gateAfter_spec cmds).2]
    exact hgate
  obtain ⟨hdone, hon, hmode⟩ := Gate.mk.inj hopen
  rw [ClientState.streams, hdone, hon, hmode, henabled]
  decide

/-- A broadcast that comes there is sent ahead of the greeting. -/
theorem iq_before_greeting (vrx : VirtualReceiver K) (fd : ℕ) {cmds : List Command} {cmd : Command}
    (hcmd : isHello cmd = true) (hnot : cmds.any isHello = false) (henabled : lastEnabled cmds = true) :
    ∃ s, (machine P).Reachable (initial vrx) s ∧ s.received fd = cmds ++ [cmd] ∧
      ¬ GreetedFirst (s.server.sent fd) := by
  obtain ⟨s, hreach, hreceived, hnoInfo, c, hc, hstreams⟩ := streams_ungreeted P vrx fd hcmd hnot henabled
  let data : List UInt8 := [128, 128]
  have hstep : (machine P).step s (.broadcast data fun _ => 22) =
      some {s with server := s.server.apply P (.broadcastIq data fun _ => 22)} := rfl
  refine ⟨_, hreach.tail _ hstep, hreceived, fun hordered => hnoInfo ?_⟩
  have hiq : (s.server.apply P (.broadcastIq data fun _ => 22)).sent fd = s.server.sent fd ++
      [⟨(Server.iqHeader c.sequenceNumber data.length).bytes ++ data, 22⟩] := by
    rw [Server.apply_sent, Op.sends, hc, iqSends, if_pos hstreams]
    rfl
  have htype : Sent.messageType ⟨(Server.iqHeader c.sequenceNumber data.length).bytes ++ data, 22⟩ =
      some kMsgTypeUint8Iq := readU32_messageType _ _
  exact (hordered _ _ (hiq ▸ List.prefix_refl _) htype).1

/-- **For every sequence of commands: whatever the interleaving, a client that has sent no
more than these is greeted before it is sent IQ, exactly when streaming is not enabled by
the time the first valid Hello comes.** -/
theorem greeted_first_iff (vrx : VirtualReceiver K) (fd : ℕ) (cmds : List Command) :
    (∀ s, (machine P).Reachable (initial vrx) s → s.received fd <+: cmds → GreetedFirst (s.server.sent fd)) ↔
      Settled cmds := by
  constructor
  · intro h hany
    obtain ⟨cmd, hfind⟩ := Option.isSome_iff_exists.mp (List.find?_isSome.mpr (List.any_eq_true.mp hany))
    obtain ⟨hhello, pre, post, rfl, hpre⟩ := List.find?_eq_some_iff_append.mp hfind
    have hnot : pre.any isHello = false := by
      rw [List.any_eq_false]
      intro c hc
      simpa using hpre c hc
    rw [takeWhile_of_not_any hnot, List.takeWhile_cons_of_neg (by simp [hhello]), List.append_nil]
    by_contra henabled
    obtain ⟨s, hs, hreceived, hearly⟩ :=
      iq_before_greeting P vrx fd hhello hnot (Bool.not_eq_false _ ▸ henabled)
    exact hearly (h s hs (hreceived ▸ ⟨post, by simp⟩))
  · intro h s hs hp
    obtain ⟨more, hmore⟩ := hp
    exact greetedFirst_of_settled P hs fd (Settled.of_append (hmore ▸ h))

/-- A client that sends StreamingEnabled = 1 and then a Hello can be sent IQ before either reply. -/
theorem iq_before_reply : ¬ ∀ (vrx : VirtualReceiver ℚ) (fd : ℕ) (s : Session ℚ),
    (machine Platform.sample).Reachable (initial vrx) s → GreetedFirst (s.server.sent fd) := by
  intro h
  have hhello : isHello (0, [164, 6, 0, 2]) = true := by decide
  have hnot : List.any [(2, [1, 0, 0, 0, 1, 0, 0, 0])] isHello = false := by decide
  have henabled : lastEnabled [(2, [1, 0, 0, 0, 1, 0, 0, 0])] = true := by decide
  obtain ⟨s, hs, -, hearly⟩ :=
    iq_before_greeting Platform.sample VirtualReceiver.sample 4 hhello hnot henabled
  exact hearly (h VirtualReceiver.sample 4 s hs)

end Session

end VrxServer.SpyServer
