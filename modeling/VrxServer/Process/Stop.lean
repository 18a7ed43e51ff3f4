import VrxServer.Process.Registry

/-! Stopping a server.

`stop` joins the accept thread, so that no connection is added any more, and copies the
registered numbers under the lock; it shuts them down after the lock is released. Every
connection of the server that its own thread has not unregistered by then is reached
(`stop_shuts_down`). Two things the copied numbers do not give: a thread may be between
unregistering and closing when `stop` returns, and a number may be another server's by
the time it is shut down. -/
namespace VrxServer.Process
open Base Base.Descriptors SpyServer

variable {ι : Type}

/-! ### What lasts -/

/-- A connection stays one of its server under its number, and stays shut down. -/
def Grows (s t : Process ι) : Prop :=
  ∀ c k, s.conns c = some k → ∃ l, t.conns c = some l ∧ l.server = k.server ∧ l.fd = k.fd ∧
    (k.shut = true → l.shut = true)

namespace Grows
variable {s t u : Process ι}

theorem of_conns (h : t.conns = s.conns) : Grows s t := fun _ k hk => ⟨k, by rw [h]; exact hk, rfl, rfl, id⟩

theorem trans (h : Grows s t) (h' : Grows t u) : Grows s u := by
  intro c k hk
  obtain ⟨l, hl, hserver, hfd, hshut⟩ := h c k hk
  obtain ⟨m, hm, hserver', hfd', hshut'⟩ := h' c l hl
  exact ⟨m, hm, hserver'.trans hserver, hfd'.trans hfd, fun hk => hshut' (hshut hk)⟩

theorem setConn (s : Process ι) (c : ℕ) {f : Connection ι → Connection ι}
    (hf : ∀ k, (f k).server = k.server ∧ (f k).fd = k.fd ∧ (k.shut = true → (f k).shut = true)) :
    Grows s (s.setConn c f) := by
  intro d k hk
  rw [setConn_conns]
  split
  · exact ⟨f k, by rw [hk, Option.map_some], hf k⟩
  · exact ⟨k, hk, rfl, rfl, id⟩

theorem goTo (s : Process ι) (c : ℕ) (stage : Stage) : Grows s (s.goTo c stage) :=
  setConn s c fun _ => ⟨rfl, rfl, id⟩

theorem sends (fd : ℕ) (bufs : List (List UInt8)) (s : Process ι) : Grows s (bufs.foldl (send fd) s) := by
  induction bufs generalizing s with
  | nil => exact of_conns rfl
  | cons buf bufs ih =>
    have hsend : Grows s (send fd s buf) := by
      unfold send
      split
      · exact setConn s _ fun _ => ⟨rfl, rfl, id⟩
      · exact of_conns rfl
    exact hsend.trans (ih _)

theorem shutdownFd (s : Process ι) (fd : ℕ) : Grows s (s.shutdownFd fd) := by
  unfold Process.shutdownFd
  split
  · exact setConn s _ fun _ => ⟨rfl, rfl, fun _ => rfl⟩
  · exact of_conns rfl

end Grows

variable [DecidableEq ι] (kind : ι → Kind) {s t : Process ι}

theorem grows_accept {i : ι} {fd c : ℕ} (h : (machine kind).step s (.accept i fd c) = some t) : Grows s t := by
  simp only [machine, step] at h
  split at h
  · next hcond =>
    obtain ⟨-, -, -, hc⟩ := hcond
    obtain rfl := Option.some.inj h
    intro d k hk
    have hne : d ≠ c := by
      intro hd
      rw [hd, hc] at hk
      cases hk
    exact ⟨k, (Function.update_of_ne hne _ _).trans hk, rfl, rfl, id⟩
  · cases h

theorem grows_broadcastIq (s : Process ι) (i : ι) (data : List UInt8) : Grows s (s.broadcastIq i data) := by
  have hloop : ∀ (clients : List Entry) (u : Process ι),
      Grows u (clients.foldl (fun s e => (e.client.offered data).foldl (send e.fd) s) u) := by
    intro clients
    induction clients with
    | nil => exact fun _ => Grows.of_conns rfl
    | cons e clients ih => exact fun u => (Grows.sends e.fd _ u).trans (ih _)
  exact (hloop _ s).trans (Grows.of_conns rfl)

/-- Every step lets it last. -/
theorem step_grows {l : Label ι} (h : (machine kind).step s l = some t) : Grows s t := by
  cases l with
  | accept i fd c => exact grows_accept kind h
  | greet i =>
    obtain ⟨⟨c, k⟩, -, rfl⟩ := Option.map_eq_some_iff.mp h
    exact (Grows.sends k.fd _ s).trans (Grows.goTo _ c _)
  | register i | spawn i =>
    obtain ⟨⟨c, k⟩, -, rfl⟩ := Option.map_eq_some_iff.mp h
    exact (Grows.goTo s c _).trans (Grows.of_conns rfl)
  | reject c =>
    obtain ⟨k, -, rfl⟩ := Option.map_eq_some_iff.mp (reject_step kind h)
    exact Grows.goTo s c _
  | recv c | recvEnds c | handled c | announce c | removeClient c | close c =>
    obtain ⟨k, -, rfl⟩ := Option.map_eq_some_iff.mp h
    exact (Grows.goTo s c _).trans (Grows.of_conns rfl)
  | handle c sec =>
    obtain ⟨k, -, rfl⟩ := Option.map_eq_some_iff.mp h
    exact (Grows.setConn s c (f := fun k => {k with handled := true}) fun _ => ⟨rfl, rfl, id⟩).trans (Grows.of_conns rfl)
  | broadcastIq i data =>
    obtain rfl := Option.some.inj h
    exact grows_broadcastIq s i data
  | shutdown i =>
    simp only [machine, step] at h
    split at h
    · obtain rfl := Option.some.inj h
      exact (Grows.shutdownFd s _).trans (Grows.of_conns rfl)
    · cases h
  | openOther fd | closeOther fd | check i | acceptFails i | stop i | closeListener i | join i | snapshot i
  | stopReturns i | destroy i =>
    simp only [machine, step] at h
    split at h
    · obtain rfl := Option.some.inj h
      exact Grows.of_conns rfl
    · cases h

/-! ### What a step does to a shutdown -/

/-- The descriptors still to be shut down, once they are known. -/
def Stopping.pending : Stopping → Option (List ℕ)
  | .shutting fds => some fds
  | .stopped | .destroyed => some []
  | .idle | .begun | .joining | .joined => none

/-- **What a step can do to a server's shutdown.** -/
inductive StopStep (s t : Process ι) (l : Label ι) (i : ι) : Prop where
  | calm (hstopping : (t.servers i).stopping = (s.servers i).stopping)
      (hloop : (s.servers i).acceptLoop = .exited → (t.servers i).acceptLoop = .exited)
  | early (hstopping : (t.servers i).stopping = .begun ∨ (t.servers i).stopping = .joining)
  | join (hstopping : (t.servers i).stopping = .joined) (hloop : (t.servers i).acceptLoop = .exited)
  | snapshot (hjoined : (s.servers i).stopping = .joined)
      (hstopping : (t.servers i).stopping = .shutting ((s.servers i).clients.map Entry.fd))
      (hloop : (t.servers i).acceptLoop = (s.servers i).acceptLoop) (hconns : t.conns = s.conns)
  | shutdown (fd : ℕ) (fds : List ℕ) (hshutting : (s.servers i).stopping = .shutting (fd :: fds))
      (hstopping : (t.servers i).stopping = .shutting fds)
      (hloop : (t.servers i).acceptLoop = (s.servers i).acceptLoop) (hconns : t.conns = (s.shutdownFd fd).conns)
  | returns (hshutting : (s.servers i).stopping = .shutting []) (hstopping : (t.servers i).stopping = .stopped)
      (hloop : (t.servers i).acceptLoop = (s.servers i).acceptLoop)
  | destroy (hl : l = .destroy i) (hstopped : (s.servers i).stopping = .stopped)
      (hstopping : (t.servers i).stopping = .destroyed)
      (hloop : (t.servers i).acceptLoop = (s.servers i).acceptLoop) (hconns : t.conns = s.conns)

namespace StopStep
variable {l : Label ι}

omit [DecidableEq ι] in
theorem of_servers (h : t.servers = s.servers) (i : ι) : StopStep s t l i := by
  refine .calm ?_ ?_
  · rw [h]
  · rw [h]
    exact id

/-- A change to a server that is not about its shutdown. -/
theorem setServer {u : Process ι} (hu : u.servers = s.servers) (j : ι) {f : Server → Server}
    (hstopping : ∀ v, (f v).stopping = v.stopping)
    (hloop : (s.servers j).acceptLoop = .exited → (f (s.servers j)).acceptLoop = .exited) (i : ι) :
    StopStep s (u.setServer j f) l i := by
  refine .calm ?_ ?_ <;> rw [setServer_servers, hu]
  · split
    · exact hstopping _
    · rfl
  · split
    · next hi =>
      subst hi
      exact hloop
    · exact id

/-- A step of an accept loop that is not past its last. -/
theorem accepting {u : Process ι} (hu : u.servers = s.servers) {j : ι} {f : Server → Server}
    (hstopping : ∀ v, (f v).stopping = v.stopping) (hloop : (s.servers j).acceptLoop ≠ .exited) (i : ι) :
    StopStep s (u.setServer j f) l i := setServer hu j hstopping (fun hexited => absurd hexited hloop) i

/-- A change to what a server keeps for its clients. -/
theorem clients {u : Process ι} (hu : u.servers = s.servers) {j : ι} {f : Server → Server}
    (hstopping : ∀ v, (f v).stopping = v.stopping) (hloop : ∀ v, (f v).acceptLoop = v.acceptLoop) (i : ι) :
    StopStep s (u.setServer j f) l i := setServer hu j hstopping (fun hexited => (hloop _).trans hexited) i

/-- A change to another server. -/
theorem other {u : Process ι} (hu : u.servers = s.servers) {i j : ι} (hij : i ≠ j) (f : Server → Server) :
    StopStep s (u.setServer j f) l i := by
  refine .calm ?_ ?_ <;> rw [setServer_servers, if_neg hij, hu]
  exact id

/-- A step of `stop` or of the destructor, which is about its own server. -/
theorem own {j : ι} {f : Server → Server} {i : ι} (h : i = j → StopStep s (s.setServer i f) l i) :
    StopStep s (s.setServer j f) l i := by
  by_cases hij : i = j
  · subst hij
    exact h rfl
  · exact .other rfl hij f

end StopStep

omit [DecidableEq ι] in
theorem shutdownFd_servers (s : Process ι) (fd : ℕ) : (s.shutdownFd fd).servers = s.servers := by
  unfold shutdownFd
  split <;> rfl

theorem stop_step_join {j : ι} (h : (machine kind).step s (.join j) = some t) (i : ι) :
    StopStep s t (.join j) i := by
  simp only [machine, step] at h
  split at h
  · next hcond =>
    obtain rfl := Option.some.inj h
    refine .own fun hij => .join ?_ ?_
    · simp
    · simpa [hij] using hcond.2
  · cases h

theorem stop_step_snapshot {j : ι} (h : (machine kind).step s (.snapshot j) = some t) (i : ι) :
    StopStep s t (.snapshot j) i := by
  simp only [machine, step] at h
  split at h
  · next hjoined =>
    obtain rfl := Option.some.inj h
    refine .own fun hij => .snapshot ?_ ?_ ?_ rfl
    · rw [hij]
      exact hjoined
    · simp
    · simp
  · cases h

theorem stop_step_shutdown {j : ι} (h : (machine kind).step s (.shutdown j) = some t) (i : ι) :
    StopStep s t (.shutdown j) i := by
  simp only [machine, step] at h
  split at h
  · next fd fds hshutting =>
    obtain rfl := Option.some.inj h
    by_cases hij : i = j
    · subst hij
      refine .shutdown fd fds hshutting ?_ ?_ rfl
      · simp
      · simp [shutdownFd_servers]
    · exact .other (shutdownFd_servers s fd) hij _
  · cases h

theorem stop_step_returns {j : ι} (h : (machine kind).step s (.stopReturns j) = some t) (i : ι) :
    StopStep s t (.stopReturns j) i := by
  simp only [machine, step] at h
  split at h
  · next hshutting =>
    obtain rfl := Option.some.inj h
    refine .own fun hij => .returns ?_ ?_ ?_
    · rw [hij]
      exact hshutting
    · simp
    · simp
  · cases h

theorem stop_step_destroy {j : ι} (h : (machine kind).step s (.destroy j) = some t) (i : ι) :
    StopStep s t (.destroy j) i := by
  simp only [machine, step] at h
  split at h
  · next hstopped =>
    obtain rfl := Option.some.inj h
    refine .own fun hij => .destroy (by rw [hij]) ?_ ?_ ?_ rfl
    · rw [hij]
      exact hstopped
    · simp
    · simp
  · cases h

theorem stop_step {l : Label ι} (h : (machine kind).step s l = some t) (i : ι) : StopStep s t l i := by
  cases l with
  | openOther fd | closeOther fd =>
    simp only [machine, step] at h
    split at h
    · obtain rfl := Option.some.inj h
      refine .of_servers ?_ i
      rfl
    · cases h
  | check j | acceptFails j =>
    simp only [machine, step] at h
    split at h
    · next hloop =>
      obtain rfl := Option.some.inj h
      refine .accepting ?_ ?_ (by simp [hloop]) i
      · rfl
      · exact fun _ => rfl
    · cases h
  | accept j fd c =>
    simp only [machine, step] at h
    split at h
    · next hcond =>
      obtain rfl := Option.some.inj h
      refine .accepting ?_ ?_ (by simp [hcond.1]) i
      · rfl
      · exact fun _ => rfl
    · cases h
  | greet j =>
    obtain ⟨⟨c, k⟩, -, rfl⟩ := Option.map_eq_some_iff.mp h
    refine .of_servers ?_ i
    exact sends_servers k.fd _ s
  | register j =>
    obtain ⟨⟨c, k⟩, -, rfl⟩ := Option.map_eq_some_iff.mp h
    refine .clients ?_ ?_ ?_ i
    · rfl
    · exact fun _ => rfl
    · exact fun _ => rfl
  | spawn j =>
    obtain ⟨⟨c, k⟩, hk, rfl⟩ := Option.map_eq_some_iff.mp h
    refine .accepting ?_ ?_ (by simp [(servingAt_eq_some.mp hk).1]) i
    · rfl
    · exact fun _ => rfl
  | reject c =>
    obtain ⟨k, -, rfl⟩ := Option.map_eq_some_iff.mp (reject_step kind h)
    refine .of_servers ?_ i
    rfl
  | recv c | recvEnds c | handled c | announce c | close c =>
    obtain ⟨k, -, rfl⟩ := Option.map_eq_some_iff.mp h
    refine .of_servers ?_ i
    rfl
  | handle c sec | removeClient c =>
    obtain ⟨k, -, rfl⟩ := Option.map_eq_some_iff.mp h
    refine .clients ?_ ?_ ?_ i
    · rfl
    · exact fun _ => rfl
    · exact fun _ => rfl
  | broadcastIq j data =>
    obtain rfl := Option.some.inj h
    refine .clients ?_ ?_ ?_ i
    · exact sendLoop_servers data _ s
    · exact fun _ => rfl
    · exact fun _ => rfl
  | stop j | closeListener j =>
    simp only [machine, step] at h
    split at h
    · obtain rfl := Option.some.inj h
      refine .own fun _ => .early ?_
      simp
    · cases h
  | join j => exact stop_step_join kind h i
  | snapshot j => exact stop_step_snapshot kind h i
  | shutdown j => exact stop_step_shutdown kind h i
  | stopReturns j => exact stop_step_returns kind h i
  | destroy j => exact stop_step_destroy kind h i

/-! ### Nobody is missed -/

/-- All that is still to be shut down are numbers of the server's own connections, and its
registered connections are still to be shut down or have been. -/
def Covers (s : Process ι) (i : ι) (fds : List ℕ) : Prop :=
  (∀ fd ∈ fds, ∃ c k, s.conns c = some k ∧ k.server = i ∧ k.fd = fd) ∧
    ∀ c k, s.conns c = some k → k.server = i → k.stage.standing.enrolled = true → k.fd ∈ fds ∨ k.shut = true

/-- Once the accept thread is joined no connection is added, and none is lost. -/
structure Stops (s : Process ι) (i : ι) : Prop where
  exited : (s.servers i).stopping = .joined ∨ (s.servers i).stopping.pending.isSome = true →
    (s.servers i).acceptLoop = .exited
  covers : ∀ fds, (s.servers i).stopping.pending = some fds → Covers s i fds

omit [DecidableEq ι] in
/-- The accept loop of the connection's server is past its last connection. -/
theorem idle_of_exited {i : ι} {k : Connection ι} (hserver : k.server = i)
    (hexited : (s.servers i).acceptLoop = .exited) : s.table.busy k.view.owner = none := by
  obtain rfl := hserver
  exact table_busy hexited

theorem Covers.step (hs : s.table.Sound) {l : Label ι} (hstep : (machine kind).step s l = some t) {i : ι}
    {fds : List ℕ} (hexited : (s.servers i).acceptLoop = .exited) (h : Covers s i fds) : Covers t i fds := by
  obtain ⟨hknown, hcovered⟩ := h
  have hgrows := step_grows kind hstep
  refine ⟨?_, ?_⟩
  · intro fd hfd
    obtain ⟨c, k, hk, hserver, hkfd⟩ := hknown fd hfd
    obtain ⟨l, hl, hserver', hfd', -⟩ := hgrows c k hk
    exact ⟨c, l, hl, hserver'.trans hserver, hfd'.trans hkfd⟩
  · intro c k hk hserver henrolled
    obtain ⟨v, hv, howner, hfd, hbefore⟩ :=
      hs.enrolled_back (step_move kind hs hstep) (table_conns hk) henrolled (idle_of_exited hserver hexited)
    obtain ⟨k', hk', rfl⟩ := Option.map_eq_some_iff.mp hv
    obtain ⟨l, hl, -, -, hshut⟩ := hgrows c k' hk'
    obtain rfl := Option.some.inj (hk.symm.trans hl)
    have hkfd : k'.fd = k.fd := hfd
    rw [← hkfd]
    exact (hcovered c k' hk' (howner.trans hserver) hbefore).imp id hshut

omit [DecidableEq ι] in
/-- The snapshot covers all that is registered when it is taken. -/
theorem Covers.snapshot (hs : s.table.Sound) (i : ι) : Covers s i ((s.servers i).clients.map Entry.fd) := by
  refine ⟨?_, ?_⟩
  · intro fd hfd
    obtain ⟨e, he, rfl⟩ := List.mem_map.mp hfd
    obtain ⟨k, hk, hserver, hkfd, -⟩ := registered_conn hs he
    exact ⟨e.conn, k, hk, hserver, hkfd⟩
  · intro c k hk hserver henrolled
    left
    have hregistered : (k.fd, c) ∈ s.table.register k.server := (hs.enrolled (table_conns hk)).mpr henrolled
    obtain ⟨e, he, heq⟩ := List.mem_map.mp hregistered
    rw [hserver] at he
    exact List.mem_map.mpr ⟨e, he, congrArg Prod.fst heq⟩

omit [DecidableEq ι] in
/-- One round of the loop: who had that number open is shut down. -/
theorem Covers.shutdown (hs : s.table.Sound) {i : ι} {fd : ℕ} {fds : List ℕ} (h : Covers s i (fd :: fds))
    (hconns : t.conns = (s.shutdownFd fd).conns) : Covers t i fds := by
  obtain ⟨hknown, hcovered⟩ := h
  refine ⟨?_, ?_⟩
  · intro g hg
    obtain ⟨c, k, hk, hserver, hkfd⟩ := hknown g (List.mem_cons_of_mem fd hg)
    obtain ⟨l, hl, hserver', hfd', -⟩ := Grows.shutdownFd s fd c k hk
    exact ⟨c, l, by rw [hconns]; exact hl, hserver'.trans hserver, hfd'.trans hkfd⟩
  · intro c l hl hserver henrolled
    rw [hconns] at hl
    have hrest : s.conns c = some l → s.kernel fd ≠ some (.connection c) → l.fd ∈ fds ∨ l.shut = true := by
      intro hk hother
      refine (hcovered c l hk hserver henrolled).imp ?_ id
      intro hmem
      refine (List.mem_cons.mp hmem).resolve_left ?_
      intro hfd
      have hopen : s.kernel l.fd = some (.connection c) :=
        (hs.opened (table_conns hk)).mpr fun hclosed => by
          have hstanding : l.stage.standing = .closed := hclosed
          rw [hstanding] at henrolled
          cases henrolled
      rw [hfd] at hopen
      exact hother hopen
    unfold shutdownFd at hl
    split at hl
    · next d hd =>
      rw [setConn_conns] at hl
      split at hl
      · obtain ⟨k, hk, rfl⟩ := Option.map_eq_some_iff.mp hl
        exact .inr rfl
      · next hcd => exact hrest hl fun hc => hcd (File.connection.inj (Option.some.inj (hc.symm.trans hd)))
    · next hnone => exact hrest hl fun hc => hnone c hc

namespace Stops
variable {i : ι} {fds : List ℕ}

omit [DecidableEq ι] in
theorem exited_of_pending (h : Stops s i) (hpending : (s.servers i).stopping.pending = some fds) :
    (s.servers i).acceptLoop = .exited := h.exited (.inr (by rw [hpending]; rfl))

omit [DecidableEq ι] in
theorem of_pending (hpending : (s.servers i).stopping.pending = some fds)
    (hexited : (s.servers i).acceptLoop = .exited) (hcovers : Covers s i fds) : Stops s i := by
  refine ⟨fun _ => hexited, ?_⟩
  intro gs hgs
  obtain rfl := Option.some.inj (hpending.symm.trans hgs)
  exact hcovers

end Stops

theorem stops_step (hs : s.table.Sound) {l : Label ι} (hstep : (machine kind).step s l = some t) {i : ι}
    (h : Stops s i) : Stops t i := by
  cases stop_step kind hstep i with
  | calm hstopping hloop =>
    refine ⟨?_, ?_⟩
    · rw [hstopping]
      exact fun hjoined => hloop (h.exited hjoined)
    · rw [hstopping]
      exact fun fds hfds => (h.covers fds hfds).step kind hs hstep (h.exited_of_pending hfds)
  | early hstopping =>
    rcases hstopping with hstopping | hstopping <;> constructor <;> simp [hstopping, Stopping.pending]
  | join hstopping hloop => exact ⟨fun _ => hloop, by simp [hstopping, Stopping.pending]⟩
  | snapshot hjoined hstopping hloop hconns =>
    refine .of_pending (by rw [hstopping]; rfl) (hloop.trans (h.exited (.inl hjoined))) ?_
    obtain ⟨hknown, hcovered⟩ := Covers.snapshot hs i
    rw [← hconns] at hknown hcovered
    exact ⟨hknown, hcovered⟩
  | shutdown fd fds hshutting hstopping hloop hconns =>
    have hpending : (s.servers i).stopping.pending = some (fd :: fds) := by rw [hshutting]; rfl
    refine .of_pending (by rw [hstopping]; rfl) (hloop.trans (h.exited_of_pending hpending)) ?_
    exact (h.covers (fd :: fds) hpending).shutdown hs hconns
  | returns hshutting hstopping hloop =>
    have hpending : (s.servers i).stopping.pending = some [] := by rw [hshutting]; rfl
    have hexited := h.exited_of_pending hpending
    refine .of_pending (by rw [hstopping]; rfl) (hloop.trans hexited) ?_
    exact (h.covers [] hpending).step kind hs hstep hexited
  | destroy _ hstopped hstopping hloop _ =>
    have hpending : (s.servers i).stopping.pending = some [] := by rw [hstopped]; rfl
    have hexited := h.exited_of_pending hpending
    refine .of_pending (by rw [hstopping]; rfl) (hloop.trans hexited) ?_
    exact (h.covers [] hpending).step kind hs hstep hexited

/-- Every server's shutdown is on its way or past, in every state of every run. -/
theorem stops_run {ls : List (Label ι)} (h : (machine kind).run initial ls = some s) (i : ι) : Stops s i := by
  have hboth : s.table.Sound ∧ Stops s i := by
    refine Machine.invariant (I := fun s => s.table.Sound ∧ Stops s i) ?_ h ⟨sound_initial, ?_, ?_⟩
    · intro s l t hs hstep
      exact ⟨sound_step kind s l t hs.1 hstep, stops_step kind hs.1 hstep hs.2⟩
    · simp [initial, Stopping.pending]
    · simp [initial, Stopping.pending]
  exact hboth.2

/-! ### What a stop reaches -/

/-- `stop` has returned. -/
def Stopping.returned : Stopping → Bool
  | .stopped | .destroyed => true
  | .idle | .begun | .joining | .joined | .shutting _ => false

/-- By the time `stop` returns, every connection the server ever accepted has been taken off
its register by its own thread, which closes it next or has done so, or has been shut down. -/
def Reached (s : Process ι) : Prop :=
  ∀ i, (s.servers i).stopping.returned = true → ∀ c k, s.conns c = some k → k.server = i →
    k.stage = .unregistered ∨ k.stage = .closed ∨ k.shut = true

/-- `stop` copies the numbers of open connections of its own, and shuts down no others; a
connection that is still open when its number's turn comes is the one shut down. -/
def ShutsOwn (s : Process ι) (l : Label ι) : Prop :=
  ∀ i, (l = .snapshot i → ∀ fd ∈ (s.servers i).clients.map Entry.fd,
      ∃ c k, s.conns c = some k ∧ k.server = i ∧ k.fd = fd ∧ s.kernel fd = some (.connection c)) ∧
    ∀ fd fds, l = .shutdown i → (s.servers i).stopping = .shutting (fd :: fds) →
      ∃ c k, s.conns c = some k ∧ k.server = i ∧ k.fd = fd ∧ (k.stage = .closed ∨ s.kernel fd = some (.connection c))

omit [DecidableEq ι] in
theorem Stops.reached (hs : s.table.Sound) (h : ∀ i, Stops s i) : Reached s := by
  intro i hreturned c k hk hserver
  have hpending : (s.servers i).stopping.pending = some [] := by
    cases hstopping : (s.servers i).stopping with
    | stopped | destroyed => rfl
    | idle | begun | joining | joined | shutting fds =>
      rw [hstopping] at hreturned
      cases hreturned
  have hexited := (h i).exited_of_pending hpending
  have henrolled : k.stage.standing.enrolled = true → k.shut = true := fun henrolled =>
    (((h i).covers [] hpending).2 c k hk hserver henrolled).resolve_left List.not_mem_nil
  have haccepting : k.stage.standing.accepting = false :=
    hs.not_accepting (table_conns hk) (idle_of_exited hserver hexited)
  cases hstage : k.stage with
  | unregistered => exact .inl rfl
  | closed => exact .inr (.inl rfl)
  | reading | handling | leaving | announced => exact .inr (.inr (henrolled (by rw [hstage]; rfl)))
  | accepted | greeted | registered =>
    rw [hstage] at haccepting
    cases haccepting

omit [DecidableEq ι] in
theorem Stops.shutsOwn (hs : s.table.Sound) (h : ∀ i, Stops s i) (l : Label ι) : ShutsOwn s l := by
  refine fun i => ⟨fun _ fd hfd => ?_, fun fd fds _ hshutting => ?_⟩
  · obtain ⟨e, he, rfl⟩ := List.mem_map.mp hfd
    obtain ⟨k, hk, hserver, hkfd, -⟩ := registered_conn hs he
    exact ⟨e.conn, k, hk, hserver, hkfd, registered_denotes hs he⟩
  · obtain ⟨c, k, hk, hserver, hkfd⟩ :=
      ((h i).covers (fd :: fds) (by rw [hshutting]; rfl)).1 fd List.mem_cons_self
    refine ⟨c, k, hk, hserver, hkfd, ?_⟩
    by_cases hclosed : k.stage = .closed
    · exact .inl hclosed
    · right
      rw [← hkfd]
      exact (hs.opened (table_conns hk)).mpr fun hstanding => hclosed (standing_closed.mp hstanding)

/-- **A stop reaches all its connections** that their threads have not unregistered, and
takes up no number but theirs. -/
theorem stop_shuts_down (ls : List (Label ι)) :
    (machine kind).Always Reached initial ls ∧ (machine kind).Allowed ShutsOwn initial ls :=
  ⟨fun _ _ _ hrun => Stops.reached (sound_run kind hrun) (stops_run kind hrun),
    fun _ l _ _ _ hrun _ => Stops.shutsOwn (sound_run kind hrun) (stops_run kind hrun) l⟩

/-- A client that disconnects while its rtl_tcp server is stopped, up to its `close`. -/
def lateClose : List (Label Kind) :=
  [.check .rtlTcp, .accept .rtlTcp 5 0, .greet .rtlTcp, .register .rtlTcp, .spawn .rtlTcp, .check .rtlTcp,
    .recvEnds 0, .announce 0, .removeClient 0, .stop .rtlTcp, .closeListener .rtlTcp, .acceptFails .rtlTcp,
    .check .rtlTcp, .join .rtlTcp, .snapshot .rtlTcp, .stopReturns .rtlTcp]

/-- One that disconnects after the snapshot, its number going to a SpyServer client. -/
def recycled : List (Label Kind) :=
  [.check .rtlTcp, .accept .rtlTcp 5 0, .greet .rtlTcp, .register .rtlTcp, .spawn .rtlTcp, .check .rtlTcp,
    .stop .rtlTcp, .closeListener .rtlTcp, .acceptFails .rtlTcp, .check .rtlTcp, .join .rtlTcp, .snapshot .rtlTcp,
    .recvEnds 0, .announce 0, .removeClient 0, .close 0, .check .spyServer, .accept .spyServer 5 1]

/-- When a stop returns, a thread may not have closed its connection yet; and when a number's
turn comes, another server may have been given it. -/
theorem stop_not_exact :
    (¬ ∀ ls, (machine (id : Kind → Kind)).Always (fun s => ∀ i, (s.servers i).stopping.returned = true →
      ∀ c k, s.conns c = some k → k.server = i → k.stage = .closed ∨ k.shut = true) initial ls) ∧
    ¬ ∀ ls, (machine (id : Kind → Kind)).Allowed (fun s l => ∀ i fd fds, l = .shutdown i →
      (s.servers i).stopping = .shutting (fd :: fds) → ∀ c k, s.kernel fd = some (.connection c) →
        s.conns c = some k → k.server = i) initial ls := by
  refine ⟨fun h => ?_, fun h => ?_⟩
  · have hend := h lateClose lateClose _ (List.prefix_refl _) rfl .rtlTcp rfl 0 _ rfl rfl
    exact absurd hend (by decide)
  · have hlast := h (recycled ++ [.shutdown .rtlTcp]) recycled (.shutdown .rtlTcp) _ _ (List.prefix_refl _) rfl rfl
      .rtlTcp 5 [] rfl rfl 1 _ rfl rfl
    cases hlast

end VrxServer.Process
