import VrxServer.SpyServer.Session

/-! Which clients a broadcast sends to.

Three flags decide it, which several commands overwrite in different ways. `WantsIq` says
the same of the commands themselves: there has been a valid Hello, streaming is enabled by
the last such setting, and the mode was last set to one with IQ, a Hello counting as such.
In every reachable state a broadcast sends to a registered client exactly when the
commands it has sent, as far as they are processed, ask for it
(`broadcast_attempts_iff`). -/
namespace VrxServer.SpyServer
open Base Config Dsp

/-! ### What the commands ask for -/

/-- The setting and the value of a SetSetting that is long enough to hold both. -/
def settingOf (cmd : Command) : Option (UInt32 × UInt32) :=
  if cmd.1 = CommandType.setSetting then
    match readU32 cmd.2 0, readU32 cmd.2 4 with
    | some setting, some value => some (setting, value)
    | _, _ => none
  else none

/-- The value of a StreamingEnabled setting. -/
def enabledValue (cmd : Command) : Option UInt32 :=
  match settingOf cmd with
  | some (setting, value) => if setting = SettingType.streamingEnabled then some value else none
  | none => none

/-- What sets the mode: a valid Hello, or a StreamingMode setting. -/
inductive ModeEvent where
  | hello
  | mode (value : UInt32)

def ModeEvent.value : ModeEvent → UInt32
  | .hello => kStreamTypeIq
  | .mode value => value

/-- It is a Hello, or has the IQ bit. -/
def ModeEvent.HasIq : ModeEvent → Prop
  | .hello => True
  | .mode value => value &&& kStreamTypeIq ≠ 0

def modeEvent (cmd : Command) : Option ModeEvent :=
  if isHello cmd then some .hello
  else
    match settingOf cmd with
    | some (setting, value) => if setting = SettingType.streamingMode then some (.mode value) else none
    | none => none

/-- These commands ask for IQ. -/
def WantsIq (cmds : List Command) : Prop :=
  (∃ cmd ∈ cmds, isHello cmd = true) ∧
    (∃ value, (cmds.filterMap enabledValue).getLast? = some value ∧ value ≠ 0) ∧
    ∃ e, (cmds.filterMap modeEvent).getLast? = some e ∧ e.HasIq

/-! ### The gate is what they ask for -/

theorem hasIq_iff (e : ModeEvent) : e.HasIq ↔ e.value &&& kStreamTypeIq ≠ 0 := by
  cases e with
  | hello => exact iff_of_true trivial (by decide)
  | mode value => rfl

theorem settingOf_of_ne {cmd : Command} (h : cmd.1 ≠ CommandType.setSetting) : settingOf cmd = none := if_neg h

theorem onGate_handleHello (g : Gate) (body : List UInt8) :
    (handleHello body).foldl Section.onGate g =
      if 4 ≤ body.length then {g with handshakeDone := true, streamingMode := kStreamTypeIq} else g := by
  unfold handleHello
  split
  · next h => rw [if_neg (by omega)]; rfl
  · next h => rw [if_pos (by omega)]; rfl

theorem onGate_handleSetSetting (g : Gate) (body : List UInt8) :
    (handleSetSetting body).foldl Section.onGate g =
      {g with
        streamingEnabled := ((enabledValue (CommandType.setSetting, body)).map (· != 0)).getD g.streamingEnabled
        streamingMode := ((modeEvent (CommandType.setSetting, body)).map ModeEvent.value).getD g.streamingMode} := by
  have hhello : isHello (CommandType.setSetting, body) = false := rfl
  have hset : settingOf (CommandType.setSetting, body) =
      match readU32 body 0, readU32 body 4 with
      | some setting, some value => some (setting, value)
      | _, _ => none := if_pos rfl
  simp only [handleSetSetting, enabledValue, modeEvent, hset, hhello, Bool.false_eq_true, if_false]
  cases readU32 body 0 with
  | none => rfl
  | some setting =>
    cases readU32 body 4 with
    | none => rfl
    | some value =>
      by_cases hmode : setting = SettingType.streamingMode
      · subst hmode
        rfl
      · by_cases henabled : setting = SettingType.streamingEnabled
        · subst henabled
          rfl
        · simp only [if_neg hmode, if_neg henabled]
          split <;> rfl

/-- What handling a command does to the gate. -/
theorem onGate_handleCommand (g : Gate) (cmd : Command) :
    (handleCommand cmd.1 cmd.2).foldl Section.onGate g =
      ⟨g.handshakeDone || isHello cmd, ((enabledValue cmd).map (· != 0)).getD g.streamingEnabled,
        ((modeEvent cmd).map ModeEvent.value).getD g.streamingMode⟩ := by
  obtain ⟨commandType, body⟩ := cmd
  by_cases hset : commandType = CommandType.setSetting
  · subst hset
    refine (onGate_handleSetSetting g body).trans ?_
    rw [show isHello (CommandType.setSetting, body) = false from rfl, Bool.or_false]
  · have hnone : settingOf (commandType, body) = none := settingOf_of_ne hset
    by_cases hhello : commandType = CommandType.hello
    · subst hhello
      refine (onGate_handleHello g body).trans ?_
      by_cases hlen : 4 ≤ body.length <;> simp [enabledValue, modeEvent, hnone, isHello, hlen, ModeEvent.value]
    · have hother : isHello (commandType, body) = false := by simp [isHello, hhello]
      simp only [handleCommand, if_neg hhello, if_neg hset, enabledValue, modeEvent, hnone, hother]
      split <;> simp [Section.onGate]

/-- The gate by the commands: each flag is what the last command to set it made of it. -/
theorem gateAfter_eq (cmds : List Command) :
    gateAfter cmds = ⟨cmds.any isHello, ((cmds.filterMap enabledValue).getLast?.map (· != 0)).getD false,
      ((cmds.filterMap modeEvent).getLast?.map ModeEvent.value).getD 0⟩ := by
  induction cmds using List.reverseRecOn with
  | nil => rfl
  | append_singleton cmds cmd ih =>
    rw [gateAfter_concat, onGate_handleCommand, ih, List.any_append, List.filterMap_append, List.filterMap_append]
    simp only [List.any_cons, List.any_nil, Bool.or_false, List.filterMap_cons, List.filterMap_nil]
    cases enabledValue cmd <;> cases modeEvent cmd <;> simp

/-- **The gate is open exactly when the commands ask for IQ.** -/
theorem streams_iff {c : ClientState} {cmds : List Command} (h : c.gate = gateAfter cmds) :
    c.streams = true ↔ WantsIq cmds := by
  rw [gateAfter_eq] at h
  obtain ⟨hdone, henabled, hmode⟩ := Gate.mk.inj h
  have hiq : (kStreamTypeIq &&& (0 : UInt32)) = 0 := by decide
  simp only [ClientState.streams, hdone, henabled, hmode, Bool.and_eq_true, WantsIq, List.any_eq_true, and_assoc,
    hasIq_iff]
  refine and_congr Iff.rfl (and_congr ?_ ?_)
  · cases (cmds.filterMap enabledValue).getLast? <;> simp
  · cases (cmds.filterMap modeEvent).getLast? with
    | none => simp
    | some e => simp

/-! ### As far as they are processed -/

/-- The commands that have had their effect on the gate. A command's first section has all of
it; a command of which no section has run is not processed yet. -/
def Conn.processed (c : Conn) : List Command :=
  match c.thread, c.received.getLast? with
  | some (sec :: rest), some cmd =>
    if handleCommand cmd.1 cmd.2 = sec :: rest then c.received.dropLast else c.received
  | _, _ => c.received

/-- Where a thread is in its last command, and what the gate is there. -/
inductive Progress (g : Gate) (cmds : List Command) : List Section → Prop where
  | done (h : g = gateAfter cmds) : Progress g cmds []
  | info (h : g = gateAfter cmds) : Progress g cmds [.deviceInfo, .clientSync]
  | sync (h : g = gateAfter cmds) : Progress g cmds [.clientSync]
  | fresh {before : List Command} {cmd : Command} {sec : Section} {rest : List Section}
      (hcmds : cmds = before ++ [cmd]) (hsecs : handleCommand cmd.1 cmd.2 = sec :: rest)
      (h : g = gateAfter before) : Progress g cmds (sec :: rest)

/-- No command begins with the replies of a Hello. -/
theorem handleCommand_ne_replies (cmd : Command) :
    handleCommand cmd.1 cmd.2 ≠ [.deviceInfo, .clientSync] ∧ handleCommand cmd.1 cmd.2 ≠ [.clientSync] := by
  rcases handleCommand_cases cmd with ⟨-, h⟩ | ⟨-, h | h | ⟨v, h⟩ | ⟨v, h⟩ | ⟨v, h⟩⟩ <;> simp [h]

theorem Progress.processed {g : Gate} {c : Conn} {secs : List Section} (h : Progress g c.received secs)
    (hthread : c.thread = some secs) : g = gateAfter c.processed := by
  unfold Conn.processed
  rw [hthread]
  cases h with
  | done h => exact h
  | info h =>
    cases c.received.getLast? with
    | none => exact h
    | some cmd => simpa only [(handleCommand_ne_replies cmd).1, if_false] using h
  | sync h =>
    cases c.received.getLast? with
    | none => exact h
    | some cmd => simpa only [(handleCommand_ne_replies cmd).2, if_false] using h
  | fresh hcmds hsecs h =>
    rw [hcmds, List.getLast?_concat, List.dropLast_concat]
    simpa only [hsecs, if_true] using h

theorem Progress.command {g : Gate} {cmds : List Command} (h : g = gateAfter cmds) (cmd : Command) :
    Progress g (cmds ++ [cmd]) (handleCommand cmd.1 cmd.2) := by
  cases hsecs : handleCommand cmd.1 cmd.2 with
  | nil => exact .done (by rw [gateAfter_concat, hsecs]; exact h)
  | cons sec rest => exact .fresh rfl hsecs h

theorem Progress.proceed {g : Gate} {cmds : List Command} {sec : Section} {rest : List Section}
    (h : Progress g cmds (sec :: rest)) : Progress (sec.onGate g) cmds rest := by
  cases h with
  | info h => exact .sync h
  | sync h => exact .done h
  | @fresh before cmd _ _ hcmds hsecs h =>
    have hgate : gateAfter cmds = rest.foldl Section.onGate (sec.onGate g) := by
      rw [hcmds, gateAfter_concat, hsecs, h, List.foldl_cons]
    rcases handleCommand_cases cmd with ⟨-, hall⟩ | ⟨-, hall | hall | ⟨v, hall⟩ | ⟨v, hall⟩ | ⟨v, hall⟩⟩ <;>
      rw [hsecs] at hall <;> cases hall
    · exact .info hgate.symm
    all_goals exact .done hgate.symm

/-- What holds of a connection: it has a client as long as it has a thread, whose gate is where
the thread is. -/
def Conn.Gated (c : Conn) : Prop :=
  match c.thread, c.client with
  | some secs, some st => Progress st.gate c.received secs
  | none, none => True
  | _, _ => False

theorem Conn.Gated.progress {c : Conn} {secs : List Section} (h : c.Gated) (hthread : c.thread = some secs) :
    ∃ st, c.client = some st ∧ Progress st.gate c.received secs := by
  unfold Conn.Gated at h
  rw [hthread] at h
  cases hst : c.client with
  | none => rw [hst] at h; exact h.elim
  | some st => rw [hst] at h; exact ⟨st, rfl, h⟩

theorem Conn.Gated.of_client {c : Conn} {st : ClientState} (h : c.Gated) (hst : c.client = some st) :
    ∃ secs, c.thread = some secs ∧ Progress st.gate c.received secs := by
  unfold Conn.Gated at h
  rw [hst] at h
  cases hthread : c.thread with
  | none => rw [hthread] at h; exact h.elim
  | some secs => rw [hthread] at h; exact ⟨secs, rfl, h⟩

variable {K : Type} [Field K] [LinearOrder K] [FloorRing K] (P : Platform K)

theorem Conn.Step.gated {vrx : VirtualReceiver K} {c c' : Conn} {ms : Option (List Message)}
    (hstep : Conn.Step P vrx c ms c') (h : c.Gated) : c'.Gated := by
  cases hstep with
  | accept hidle => exact .done rfl
  | command hidle cmd =>
    obtain ⟨st, hst, hp⟩ := h.progress hidle
    unfold Conn.Gated
    simp only [hst]
    cases hp with
    | done hgate => exact .command hgate cmd
  | proceed hbusy hst =>
    obtain ⟨st, hst', hp⟩ := h.progress hbusy
    obtain rfl := Option.some.inj (hst.symm.trans hst')
    unfold Conn.Gated
    simp only [onClient_gate]
    exact hp.proceed
  | gone secs halive hst =>
    obtain ⟨secs, hthread⟩ := Option.ne_none_iff_exists'.mp halive
    obtain ⟨st, hst', -⟩ := h.progress hthread
    rw [hst] at hst'
    cases hst'
  | disconnect hidle => exact trivial
  | broadcast data outcome =>
    unfold Conn.Gated at h ⊢
    split at h
    · next hthread hst =>
      simp only [hthread, hst, Option.map_some, afterBroadcast_gate]
      exact h
    · next hthread hst => simp only [hthread, hst, Option.map_none]
    · exact h.elim
  | other => exact h

namespace Session

theorem gated_reachable {vrx : VirtualReceiver K} {s : Session K} (h : (machine P).Reachable (initial vrx) s)
    (fd : ℕ) : (s.conn fd).Gated := by
  obtain ⟨evs, hrun⟩ := h
  refine Machine.invariant (I := fun s : Session K => (s.conn fd).Gated) (fun s e t hs hstep => ?_) hrun trivial
  exact (conn_step P hstep fd).gated P hs

/-- A broadcast tries to send an IQ message to the client. -/
def Attempts (s : Session K) (fd : ℕ) (data : List UInt8) (outcome : ℕ → ℕ) : Prop :=
  ∃ t a, (machine P).step s (.broadcast data outcome) = some t ∧
    t.server.sent fd = s.server.sent fd ++ [a] ∧ readU32 a.buf 4 = some kMsgTypeUint8Iq

theorem attempts_iff_streams (s : Session K) (fd : ℕ) (data : List UInt8) (outcome : ℕ → ℕ) :
    Attempts P s fd data outcome ↔ ∃ c, (s.conn fd).client = some c ∧ c.streams = true := by
  have hstep : (machine P).step s (.broadcast data outcome) =
      some {s with server := s.server.apply P (.broadcastIq data outcome)} := rfl
  have hsent : (s.server.apply P (.broadcastIq data outcome)).sent fd =
      s.server.sent fd ++ iqSends data (outcome fd) (s.conn fd).client := by
    rw [Server.apply_sent]
    rfl
  constructor
  · intro hp
    obtain ⟨t, a, ht, hgrown, -⟩ := hp
    obtain rfl := Option.some.inj (hstep.symm.trans ht)
    have hiq := List.append_cancel_left (hsent.symm.trans hgrown)
    cases hc : (s.conn fd).client with
    | none => rw [hc] at hiq; cases hiq
    | some c =>
      cases hstreams : c.streams with
      | true => exact ⟨c, rfl, hstreams⟩
      | false => simp [hc, iqSends, hstreams] at hiq
  · intro hp
    obtain ⟨c, hc, hstreams⟩ := hp
    rw [hc, iqSends, if_pos hstreams] at hsent
    exact ⟨_, _, hstep, hsent, readU32_messageType _ _⟩

/-- **A broadcast sends to a registered client exactly when its commands so far ask for it**,
and nothing that another connection does changes that. -/
theorem broadcast_attempts_iff (vrx : VirtualReceiver K) (s : Session K)
    (h : (machine P).Reachable (initial vrx) s) (fd : ℕ) (hfd : fd ∈ s.server.clients.keys)
    (data : List UInt8) (outcome : ℕ → ℕ) :
    (Attempts P s fd data outcome ↔ WantsIq (s.conn fd).processed) ∧
      ∀ e t, e.touches fd = false → (machine P).step s e = some t →
        (Attempts P t fd data outcome ↔ Attempts P s fd data outcome) := by
  refine ⟨?_, fun e t hother hstep => ?_⟩
  · obtain ⟨c, hc⟩ := Option.isSome_iff_exists.mp (AList.lookup_isSome.mpr hfd)
    obtain ⟨secs, hthread, hp⟩ := (gated_reachable P h fd).of_client hc
    rw [attempts_iff_streams, ← streams_iff (hp.processed hthread)]
    constructor
    · intro hex
      obtain ⟨c', hc', hstreams⟩ := hex
      obtain rfl := Option.some.inj (hc.symm.trans hc')
      exact hstreams
    · exact fun hstreams => ⟨c, hc, hstreams⟩
  · rw [attempts_iff_streams, attempts_iff_streams, (conn_untouched P hstep hother).1]

/-- A client that has enabled streaming. -/
def enabledSteps : List Event := [.accept 4, .command 4 (2, [1, 0, 0, 0, 1, 0, 0, 0]), .proceed 4]

theorem run_enabledSteps : ∃ s, (machine Platform.sample).run (initial VirtualReceiver.sample) enabledSteps = some s ∧
    4 ∈ s.server.clients.keys := by
  refine ⟨_, rfl, AList.lookup_isSome.mp ?_⟩
  simp [Server.apply_lookup, Op.onClient]

theorem broadcast_attempts_enabled :
    ∃ s : Session ℚ, (machine Platform.sample).Reachable (initial VirtualReceiver.sample) s ∧
      ((Attempts Platform.sample s 4 [128, 128] (fun _ => 22) ↔ WantsIq (s.conn 4).processed) ∧
        ∀ e t, e.touches 4 = false → (machine Platform.sample).step s e = some t →
          (Attempts Platform.sample t 4 [128, 128] (fun _ => 22) ↔
            Attempts Platform.sample s 4 [128, 128] (fun _ => 22))) := by
  obtain ⟨s, hs, hfd⟩ := run_enabledSteps
  exact ⟨s, ⟨_, hs⟩, broadcast_attempts_iff Platform.sample VirtualReceiver.sample s ⟨_, hs⟩ 4 hfd _ _⟩

end Session

end VrxServer.SpyServer
