import VrxServer.Process.Servers

/-! The process as a descriptor table.

What a process knows of descriptors and connections is a `Table`, and every step of every
thread is one of the table's moves (`step_move`): most of them none at all. So the register
of every server is right about the kernel in every state of every run (`sound_run`). -/
namespace VrxServer.Process
open Base Base.Descriptors SpyServer

/-- How far a stage is. -/
def Stage.standing : Stage → Standing
  | .accepted | .greeted => .accepted
  | .registered => .registered
  | .reading | .handling | .leaving | .announced => .served
  | .unregistered => .unregistered
  | .closed => .closed

theorem standing_closed {stage : Stage} : stage.standing = .closed ↔ stage = .closed := by
  cases stage <;> simp [Stage.standing]

def AcceptLoop.busy : AcceptLoop → Option ℕ
  | .serving c => some c
  | .check | .accepting | .exited => none

variable {ι : Type}

def Connection.view (k : Connection ι) : Conn ι := ⟨k.server, k.fd, k.stage.standing⟩

def Entry.view (e : Entry) : ℕ × ℕ := (e.fd, e.conn)

def table (s : Process ι) : Table ι where
  kernel := s.kernel
  conns c := (s.conns c).map Connection.view
  busy i := (s.servers i).acceptLoop.busy
  register i := (s.servers i).clients.map Entry.view

/-! ### Steps that leave the table alone -/

theorem table_setConn (s : Process ι) (c : ℕ) {f : Connection ι → Connection ι} (hf : ∀ k, (f k).view = k.view) :
    (s.setConn c f).table = s.table := by
  have hconns : ∀ d, ((s.setConn c f).conns d).map Connection.view = (s.conns d).map Connection.view := by
    intro d
    rw [setConn_conns]
    split
    · rw [Option.map_map]
      exact congrArg (fun g => (s.conns d).map g) (funext hf)
    · rfl
  simp only [table, hconns]
  rfl

theorem table_send (fd : ℕ) (s : Process ι) (buf : List UInt8) : (send fd s buf).table = s.table := by
  unfold send
  split
  · exact table_setConn s _ fun _ => rfl
  · rfl

theorem table_sends (fd : ℕ) (bufs : List (List UInt8)) (s : Process ι) : (bufs.foldl (send fd) s).table = s.table := by
  induction bufs generalizing s with
  | nil => rfl
  | cons buf bufs ih => rw [List.foldl_cons, ih, table_send]

theorem table_shutdownFd (s : Process ι) (fd : ℕ) : (s.shutdownFd fd).table = s.table := by
  unfold shutdownFd
  split
  · exact table_setConn s _ fun _ => rfl
  · rfl

variable [DecidableEq ι]

theorem table_setServer (s : Process ι) (i : ι) (f : Server → Server) :
    (s.setServer i f).table = {s.table with
      busy := Function.update s.table.busy i (f (s.servers i)).acceptLoop.busy
      register := Function.update s.table.register i ((f (s.servers i)).clients.map Entry.view)} := by
  have hbusy : (s.setServer i f).table.busy = Function.update s.table.busy i (f (s.servers i)).acceptLoop.busy := by
    funext j
    rw [Function.update_apply]
    show ((s.setServer i f).servers j).acceptLoop.busy = _
    rw [setServer_servers]
    split
    · next hj => rw [hj]
    · rfl
  have hregister : (s.setServer i f).table.register =
      Function.update s.table.register i ((f (s.servers i)).clients.map Entry.view) := by
    funext j
    rw [Function.update_apply]
    show ((s.setServer i f).servers j).clients.map Entry.view = _
    rw [setServer_servers]
    split
    · next hj => rw [hj]
    · rfl
  rw [← hbusy, ← hregister]
  rfl

theorem table_setServer_stay (s : Process ι) (i : ι) {f : Server → Server}
    (hbusy : (f (s.servers i)).acceptLoop.busy = (s.servers i).acceptLoop.busy)
    (hclients : (f (s.servers i)).clients.map Entry.view = (s.servers i).clients.map Entry.view) :
    (s.setServer i f).table = s.table := by
  rw [table_setServer, hbusy, hclients]
  show ({s.table with
    busy := Function.update s.table.busy i (s.table.busy i)
    register := Function.update s.table.register i (s.table.register i)} : Table ι) = _
  rw [Function.update_eq_self, Function.update_eq_self]

/-- A broadcast changes what clients have been sent and how they are numbered. -/
theorem table_broadcastIq (s : Process ι) (i : ι) (data : List UInt8) : (s.broadcastIq i data).table = s.table := by
  have hloop : ∀ (clients : List Entry) (u : Process ι),
      (clients.foldl (fun s e => (e.client.offered data).foldl (send e.fd) s) u).table = u.table := by
    intro clients
    induction clients with
    | nil => exact fun _ => rfl
    | cons e clients ih =>
      intro u
      rw [List.foldl_cons, ih, table_sends]
  rw [broadcastIq, table_setServer_stay _ _ rfl, hloop]
  rw [List.map_map]
  rfl

/-! ### Connections that go on -/

omit [DecidableEq ι] in
theorem table_goTo {s : Process ι} {c : ℕ} {k : Connection ι} (hk : s.conns c = some k) (stage : Stage) :
    (s.goTo c stage).table = s.table.stand c k.view stage.standing := by
  have hconns : (s.goTo c stage).table.conns =
      Function.update s.table.conns c (some {k.view with standing := stage.standing}) := by
    funext d
    rw [Function.update_apply]
    show ((s.goTo c stage).conns d).map Connection.view = _
    rw [goTo, setConn_conns]
    split
    · next hd =>
      rw [hd, hk]
      rfl
    · rfl
  rw [Table.stand, ← hconns]
  rfl

omit [DecidableEq ι] in
theorem table_goTo_stay {s : Process ι} {c : ℕ} {k : Connection ι} (hk : s.conns c = some k) {stage : Stage}
    (hstage : k.stage.standing = stage.standing) : (s.goTo c stage).table = s.table := by
  rw [table_goTo hk, ← hstage]
  have hsame : s.table.conns c = some k.view := by
    show (s.conns c).map Connection.view = _
    rw [hk, Option.map_some]
  show ({s.table with conns := Function.update s.table.conns c (some k.view)} : Table ι) = _
  rw [← hsame, Function.update_eq_self]

/-! ### Registering -/

theorem mem_assign_perm {e : Entry} {clients : List Entry} (he : e.fd ∉ clients.map Entry.fd) :
    (assign e clients).Perm (e :: clients) := by
  induction clients with
  | nil => exact List.Perm.refl _
  | cons x clients ih =>
    rw [List.map_cons, List.mem_cons, not_or] at he
    unfold assign
    split
    · exact List.Perm.refl _
    · rw [if_neg he.1]
      exact ((ih he.2).cons x).trans (List.Perm.swap ..)

theorem register_perm (kind : Kind) {e : Entry} {clients : List Entry} (he : e.fd ∉ clients.map Entry.fd) :
    (kind.register clients e).Perm (e :: clients) := by
  cases kind with
  | rtlTcp => exact List.perm_append_singleton e clients
  | spyServer => exact mem_assign_perm he

/-! ### Every step is a move -/

variable (kind : ι → Kind) {s t : Process ι}

omit [DecidableEq ι] in
theorem table_conns {c : ℕ} {k : Connection ι} (hk : s.conns c = some k) : s.table.conns c = some k.view :=
  congrArg (fun o => o.map Connection.view) hk

omit [DecidableEq ι] in
theorem table_busy {i : ι} {loop : AcceptLoop} (hloop : (s.servers i).acceptLoop = loop) :
    s.table.busy i = loop.busy :=
  congrArg AcceptLoop.busy hloop

theorem move_stay (h : t.table = s.table) : s.table.Move t.table := by
  rw [h]
  exact .stay

/-- A thread that goes on without leaving its standing. -/
theorem move_goTo {c : ℕ} {a b : Stage} (hab : a.standing = b.standing)
    (h : (s.connAt c a).map (fun _ => s.goTo c b) = some t) : s.table.Move t.table := by
  obtain ⟨k, hk, rfl⟩ := Option.map_eq_some_iff.mp h
  obtain ⟨hconn, hstage⟩ := connAt_eq_some.mp hk
  exact move_stay (table_goTo_stay hconn (hstage ▸ hab))

theorem move_accept {i : ι} {fd c : ℕ} (h : (machine kind).step s (.accept i fd c) = some t) :
    s.table.Move t.table := by
  simp only [machine, step] at h
  split at h
  · next hcond =>
    obtain ⟨hloop, -, hfd, hc⟩ := hcond
    obtain rfl := Option.some.inj h
    have hmove := Table.Move.accept (T := s.table) i fd c hfd (congrArg (fun o => o.map Connection.view) hc)
      (table_busy hloop)
    have hconns : (fun d => (Function.update s.conns c (some ⟨i, fd, .accepted, [], false, false⟩) d).map
        Connection.view) = Function.update s.table.conns c (some ⟨i, fd, .accepted⟩) :=
      Function.comp_update (Option.map Connection.view) s.conns c _
    rw [table_setServer]
    show s.table.Move ⟨_, _, _, Function.update s.table.register i (s.table.register i)⟩
    rw [Function.update_eq_self]
    rw [← hconns] at hmove
    exact hmove
  · cases h

omit [DecidableEq ι] in
/-- The connection is still there, and where it was. -/
theorem conns_of_table (h : t.table = s.table) {c : ℕ} {k : Connection ι} (hk : s.conns c = some k) :
    ∃ l, t.conns c = some l ∧ l.view = k.view := by
  have hview : (t.conns c).map Connection.view = some k.view :=
    (congrArg (fun T : Table ι => T.conns c) h).trans (table_conns hk)
  exact Option.map_eq_some_iff.mp hview

theorem move_greet {i : ι} (h : (machine kind).step s (.greet i) = some t) : s.table.Move t.table := by
  obtain ⟨⟨c, k⟩, hk, rfl⟩ := Option.map_eq_some_iff.mp h
  obtain ⟨-, hconn, hstage⟩ := servingAt_eq_some.mp hk
  have hsent : ((kind i).greeting.foldl (send k.fd) s).table = s.table := table_sends _ _ s
  obtain ⟨l, hl, hview⟩ := conns_of_table hsent hconn
  have hstanding : l.stage.standing = Stage.standing .greeted := by
    have hlk : l.stage.standing = k.stage.standing := congrArg Conn.standing hview
    rw [hlk, hstage]
    rfl
  exact move_stay ((table_goTo_stay hl hstanding).trans hsent)

omit [DecidableEq ι] in
/-- The connection an accept loop is at is one of its server. -/
theorem serving_server (hs : s.table.Sound) {i : ι} {c : ℕ} {k : Connection ι}
    (hloop : (s.servers i).acceptLoop = .serving c) (hk : s.conns c = some k) : k.server = i := by
  obtain ⟨v, hv, howner⟩ := hs.busy_known (table_busy hloop)
  obtain rfl := Option.some.inj ((table_conns hk).symm.trans hv)
  exact howner

theorem move_register (hs : s.table.Sound) {i : ι} (h : (machine kind).step s (.register i) = some t) :
    s.table.Move t.table := by
  obtain ⟨⟨c, k⟩, hk, rfl⟩ := Option.map_eq_some_iff.mp h
  obtain ⟨hloop, hconn, hstage⟩ := servingAt_eq_some.mp hk
  obtain rfl := serving_server hs hloop hconn
  have hmove := Table.Move.register c k.view
    (((kind k.server).register (s.servers k.server).clients ⟨k.fd, c, (kind k.server).client⟩).map Entry.view)
    (table_conns hconn) (congrArg Stage.standing hstage) (by
      intro hfd
      refine (register_perm (kind k.server) ?_).map Entry.view
      intro hmem
      apply hfd
      show k.fd ∈ ((s.servers k.server).clients.map Entry.view).map Prod.fst
      rw [List.map_map]
      exact hmem)
  rw [table_setServer]
  show s.table.Move ⟨_, _, Function.update s.table.busy k.server (s.table.busy k.server), _⟩
  rw [Function.update_eq_self, table_goTo hconn]
  exact hmove

theorem move_spawn (hs : s.table.Sound) {i : ι} (h : (machine kind).step s (.spawn i) = some t) :
    s.table.Move t.table := by
  obtain ⟨⟨c, k⟩, hk, rfl⟩ := Option.map_eq_some_iff.mp h
  obtain ⟨hloop, hconn, hstage⟩ := servingAt_eq_some.mp hk
  obtain rfl := serving_server hs hloop hconn
  have hmove := Table.Move.spawn c k.view (table_conns hconn) (congrArg Stage.standing hstage)
  rw [table_setServer]
  show s.table.Move ⟨_, _, _, Function.update s.table.register k.server (s.table.register k.server)⟩
  rw [Function.update_eq_self, table_goTo hconn]
  exact hmove

theorem move_handle {c : ℕ} {sec : Section} (h : (machine kind).step s (.handle c sec) = some t) :
    s.table.Move t.table := by
  obtain ⟨k, hk, rfl⟩ := Option.map_eq_some_iff.mp h
  apply move_stay
  rw [table_setServer_stay _ _ rfl, table_setConn]
  · exact fun _ => rfl
  · rw [List.map_map]
    refine List.map_congr_left fun e _ => ?_
    show Entry.view (if e.fd = k.fd then _ else _) = _
    split <;> rfl

theorem move_removeClient {c : ℕ} (h : (machine kind).step s (.removeClient c) = some t) :
    s.table.Move t.table := by
  obtain ⟨k, hk, rfl⟩ := Option.map_eq_some_iff.mp h
  obtain ⟨hconn, hstage⟩ := connAt_eq_some.mp hk
  have hmove := Table.Move.unregister c k.view (table_conns hconn) (congrArg Stage.standing hstage)
  have hfilter : ((s.servers k.server).clients.filter fun e => e.fd ≠ k.fd).map Entry.view =
      (s.table.register k.server).filter fun e => e.1 ≠ k.fd := by
    show _ = List.filter _ ((s.servers k.server).clients.map Entry.view)
    rw [List.filter_map]
    rfl
  rw [table_setServer]
  show s.table.Move ⟨_, _, Function.update s.table.busy k.server (s.table.busy k.server),
    Function.update s.table.register k.server (((s.servers k.server).clients.filter fun e => e.fd ≠ k.fd).map Entry.view)⟩
  rw [Function.update_eq_self, table_goTo hconn, hfilter]
  exact hmove

theorem move_close {c : ℕ} (h : (machine kind).step s (.close c) = some t) : s.table.Move t.table := by
  obtain ⟨k, hk, rfl⟩ := Option.map_eq_some_iff.mp h
  obtain ⟨hconn, hstage⟩ := connAt_eq_some.mp hk
  have hmove := Table.Move.close c k.view (table_conns hconn) (congrArg Stage.standing hstage)
  show s.table.Move {(s.goTo c .closed).table with kernel := Function.update s.kernel k.fd none}
  rw [table_goTo hconn]
  exact hmove

theorem move_shutdown {i : ι} (h : (machine kind).step s (.shutdown i) = some t) : s.table.Move t.table := by
  simp only [machine, step] at h
  split at h
  · obtain rfl := Option.some.inj h
    exact move_stay ((table_setServer_stay _ _ rfl rfl).trans (table_shutdownFd s _))
  · cases h

/-- **Every step is a move of the table.** -/
theorem step_move (hs : s.table.Sound) {l : Label ι} (h : (machine kind).step s l = some t) :
    s.table.Move t.table := by
  cases l with
  | openOther fd =>
    simp only [machine, step] at h
    split at h
    · next hfd =>
      obtain rfl := Option.some.inj h
      exact .openOther fd hfd
    · cases h
  | closeOther fd =>
    simp only [machine, step] at h
    split at h
    · next hfd =>
      obtain rfl := Option.some.inj h
      exact .closeOther fd hfd
    · cases h
  | check i =>
    simp only [machine, step] at h
    split at h
    · next hloop =>
      obtain rfl := Option.some.inj h
      refine move_stay (table_setServer_stay _ _ ?_ rfl)
      rw [hloop]
      show AcceptLoop.busy (if _ then _ else _) = _
      split <;> rfl
    · cases h
  | acceptFails i =>
    simp only [machine, step] at h
    split at h
    · next hloop =>
      obtain rfl := Option.some.inj h
      refine move_stay (table_setServer_stay _ _ ?_ rfl)
      rw [hloop]
      rfl
    · cases h
  | accept i fd c => exact move_accept kind h
  | greet i => exact move_greet kind h
  | register i => exact move_register kind hs h
  | spawn i => exact move_spawn kind hs h
  | recv c => exact move_goTo (a := .reading) (b := .handling) rfl h
  | recvEnds c => exact move_goTo (a := .reading) (b := .leaving) rfl h
  | handle c sec => exact move_handle kind h
  | handled c => exact move_goTo (a := .handling) (b := .reading) rfl h
  | reject c => exact move_goTo (a := .handling) (b := .leaving) rfl (reject_step kind h)
  | announce c => exact move_goTo (a := .leaving) (b := .announced) rfl h
  | removeClient c => exact move_removeClient kind h
  | close c => exact move_close kind h
  | broadcastIq i data =>
    obtain rfl := Option.some.inj h
    exact move_stay (table_broadcastIq s i data)
  | shutdown i => exact move_shutdown kind h
  | stop i | closeListener i | join i | snapshot i | stopReturns i | destroy i =>
    simp only [machine, step] at h
    split at h
    · obtain rfl := Option.some.inj h
      exact move_stay (table_setServer_stay _ _ rfl rfl)
    · cases h

theorem sound_step (s : Process ι) (l : Label ι) (t : Process ι) (hs : s.table.Sound)
    (h : (machine kind).step s l = some t) : t.table.Sound := hs.move (step_move kind hs h)

omit [DecidableEq ι] in
theorem sound_initial : (initial : Process ι).table.Sound := Table.Sound.empty

/-- The registers are right about the kernel in every state of every run. -/
theorem sound_run {ls : List (Label ι)} (h : (machine kind).run initial ls = some s) : s.table.Sound :=
  Machine.invariant (sound_step kind) h sound_initial

end VrxServer.Process
