import VrxServer.Process.Stop

/-! Threads and the life of their server.

The accept thread is joined; the read loops are detached, and a stop only wakes them. Each
goes on to its last uses of the server object by itself, whether or not the destructor has
returned by then. A server is safe to destroy exactly when no client is registered with it
any more (`no_access_after_destroy`), which nothing in the shutdown waits for. -/
namespace VrxServer.Process
open Base Base.Descriptors SpyServer

variable {ι : Type}

/-- The connection whose read loop uses its server in the step: a command's handling, what
it prints, and `removeClient`. -/
def Label.accesses : Label ι → Option ℕ
  | .handle c _ | .reject c | .announce c | .removeClient c => some c
  | _ => none

/-- No read loop uses a server that has been destroyed. -/
def NoAccess (s : Process ι) (l : Label ι) : Prop :=
  ∀ c k, l.accesses = some c → s.conns c = some k → (s.servers k.server).stopping ≠ .destroyed

/-- A server is only destroyed when no client is registered with it. -/
def DestroyedEmpty (s : Process ι) (l : Label ι) : Prop := ∀ i, l = .destroy i → (s.servers i).clients = []

/-- The read loops of the server have made their last use of it. -/
def Quiet (s : Process ι) (i : ι) : Prop :=
  ∀ c k, s.conns c = some k → k.server = i → k.stage.standing ≠ .served

variable {s t : Process ι}

/-- Once no connection is added, the read loops are done when the register is empty. -/
theorem quiet_iff (hs : s.table.Sound) {i : ι} (hexited : (s.servers i).acceptLoop = .exited) :
    Quiet s i ↔ (s.servers i).clients = [] := by
  constructor
  · intro hquiet
    refine List.eq_nil_iff_forall_not_mem.mpr fun e he => ?_
    obtain ⟨k, hk, hserver, -, -⟩ := registered_conn hs he
    have henrolled := ((hs.register_iff (e := e.view) (table_conns hk) i).mp (mem_table_register he)).2.2
    have haccepting := hs.not_accepting (table_conns hk) (idle_of_exited hserver hexited)
    refine hquiet e.conn k hk hserver ?_
    show k.view.standing = .served
    cases hstanding : k.view.standing with
    | served => rfl
    | registered =>
      rw [hstanding] at haccepting
      cases haccepting
    | accepted | unregistered | closed =>
      rw [hstanding] at henrolled
      cases henrolled
  · intro hempty c k hk hserver hserved
    have hregistered := (hs.enrolled (table_conns hk)).mpr (by
      show k.stage.standing.enrolled = true
      rw [hserved]
      rfl)
    obtain ⟨e, he, -⟩ := List.mem_map.mp hregistered
    have hclients : (s.servers k.server).clients = [] := hserver ▸ hempty
    rw [show k.view.owner = k.server from rfl, hclients] at he
    cases he

variable [DecidableEq ι] (kind : ι → Kind)

/-- Whose thread uses its server is in its read loop. -/
theorem served_of_accesses {l : Label ι} {c : ℕ} {k : Connection ι} (hl : l.accesses = some c)
    (h : (machine kind).step s l = some t) (hk : s.conns c = some k) : k.stage.standing = .served := by
  have hstage : ∀ {stage : Stage} {o : Option (Process ι)} {f : Connection ι → Process ι},
      (s.connAt c stage).map f = o → o = some t → k.stage = stage := by
    intro stage o f ho hsome
    rw [hsome] at ho
    obtain ⟨m, hm, -⟩ := Option.map_eq_some_iff.mp ho
    obtain ⟨hconn, hstage⟩ := connAt_eq_some.mp hm
    obtain rfl := Option.some.inj (hk.symm.trans hconn)
    exact hstage
  cases l with
  | reject d =>
    obtain rfl := Option.some.inj hl
    rw [hstage rfl (reject_step kind h)]
    rfl
  | handle d _ | announce d | removeClient d =>
    obtain rfl := Option.some.inj hl
    rw [hstage rfl h]
    rfl
  | _ => cases hl

/-- A destroyed server has no thread left that uses it. -/
def Abandoned (s : Process ι) : Prop := ∀ i, (s.servers i).stopping = .destroyed → Quiet s i

theorem abandoned_step (hs : s.table.Sound) (hstops : ∀ i, Stops s i) (h : Abandoned s) {l : Label ι}
    (hempty : DestroyedEmpty s l) (hstep : (machine kind).step s l = some t) : Abandoned t := by
  intro i hdestroyed
  cases stop_step kind hstep i with
  | calm hstopping hloop =>
    intro c k hk hserver hserved
    rw [hstopping] at hdestroyed
    have hexited := (hstops i).exited (.inr (by rw [hdestroyed]; rfl))
    obtain ⟨v, hv, howner, hbefore⟩ :=
      hs.served_back (step_move kind hs hstep) (table_conns hk) hserved (idle_of_exited hserver hexited)
    obtain ⟨k', hk', rfl⟩ := Option.map_eq_some_iff.mp hv
    exact h i hdestroyed c k' hk' (howner.trans hserver) hbefore
  | destroy hl hstopped hstopping hloop hconns =>
    have hexited := (hstops i).exited (.inr (by rw [hstopped]; rfl))
    intro c k hk
    rw [hconns] at hk
    exact (quiet_iff hs hexited).mpr (hempty i hl) c k hk
  | early hstopping =>
    rw [hdestroyed] at hstopping
    rcases hstopping with hstopping | hstopping <;> cases hstopping
  | join hstopping _ | snapshot _ hstopping _ _ | shutdown _ _ _ hstopping _ _ | returns _ hstopping _ =>
    rw [hdestroyed] at hstopping
    cases hstopping

/-- Destroyed when nobody is registered, a server is not used again. -/
theorem noAccess_of_empty {ls : List (Label ι)} (h : (machine kind).Allowed DestroyedEmpty initial ls) :
    (machine kind).Allowed NoAccess initial ls := by
  have halways : (machine kind).Always (fun s => (s.table.Sound ∧ ∀ i, Stops s i) ∧ Abandoned s) initial ls := by
    refine Machine.always_of_allowed (C := DestroyedEmpty) ?_ ⟨⟨sound_initial, stops_run kind (Machine.run_nil _ _)⟩, ?_⟩ h
    · intro s l t hs hempty hstep
      obtain ⟨⟨hsound, hstops⟩, habandoned⟩ := hs
      exact ⟨⟨sound_step kind s l t hsound hstep, fun i => stops_step kind hsound hstep (hstops i)⟩,
        abandoned_step kind hsound hstops habandoned hempty hstep⟩
    · intro i hdestroyed
      cases hdestroyed
  intro done l t u hdone hrun hstep c k hl hk hdestroyed
  obtain ⟨-, habandoned⟩ := halways done t ((List.prefix_append done [l]).trans hdone) hrun
  exact habandoned k.server hdestroyed c k hk rfl (served_of_accesses kind hl hstep hk)

/-! ### Threads that are not waited for -/

theorem access_destroyed {ls : List (Label ι)} {l : Label ι} {c : ℕ} {k : Connection ι} {u : Process ι}
    (hrun : (machine kind).run initial ls = some s) (hk : s.conns c = some k)
    (hdestroyed : (s.servers k.server).stopping = .destroyed) (hl : l.accesses = some c)
    (hstep : (machine kind).step s l = some u) : ¬ (machine kind).Allowed NoAccess initial (ls ++ [l]) :=
  fun h => h ls l s u (List.prefix_refl _) hrun hstep c k hl hk hdestroyed

/-- A thread that is still in its read loop goes on to use its server. -/
theorem served_accesses {ls : List (Label ι)} {c : ℕ} {k : Connection ι}
    (hrun : (machine kind).run initial ls = some s) (hk : s.conns c = some k)
    (hdestroyed : (s.servers k.server).stopping = .destroyed) (hserved : k.stage.standing = .served) :
    ∃ ms, ¬ (machine kind).Allowed NoAccess initial (ls ++ ms) := by
  have hat : ∀ {stage : Stage}, k.stage = stage → s.connAt c stage = some k := fun hstage =>
    connAt_eq_some.mpr ⟨hk, hstage⟩
  cases hstage : k.stage with
  | handling =>
    exact ⟨[.handle c .pong], access_destroyed kind hrun hk hdestroyed rfl
      (Option.map_eq_some_iff.mpr ⟨k, hat hstage, rfl⟩)⟩
  | leaving =>
    exact ⟨[.announce c], access_destroyed kind hrun hk hdestroyed rfl
      (Option.map_eq_some_iff.mpr ⟨k, hat hstage, rfl⟩)⟩
  | announced =>
    exact ⟨[.removeClient c], access_destroyed kind hrun hk hdestroyed rfl
      (Option.map_eq_some_iff.mpr ⟨k, hat hstage, rfl⟩)⟩
  | reading =>
    have hends : (machine kind).run initial (ls ++ [.recvEnds c]) = some (s.goTo c .leaving) := by
      rw [Machine.run_concat, hrun]
      exact Option.map_eq_some_iff.mpr ⟨k, hat hstage, rfl⟩
    have hk' : (s.goTo c .leaving).conns c = some {k with stage := .leaving} := by
      rw [goTo, setConn_conns, if_pos rfl, hk, Option.map_some]
    refine ⟨[.recvEnds c, .announce c], ?_⟩
    have hbad := access_destroyed kind hends hk' hdestroyed (l := .announce c) rfl
      (Option.map_eq_some_iff.mpr ⟨_, connAt_eq_some.mpr ⟨hk', rfl⟩, rfl⟩)
    rwa [List.append_assoc] at hbad
  | accepted | greeted | registered | unregistered | closed =>
    rw [hstage] at hserved
    cases hserved

/-- A client that disconnects, and whose thread is done before its server is stopped. -/
def departed : List (Label Kind) :=
  [.check .rtlTcp, .accept .rtlTcp 5 0, .greet .rtlTcp, .register .rtlTcp, .spawn .rtlTcp, .check .rtlTcp,
    .recvEnds 0, .announce 0, .removeClient 0, .close 0, .stop .rtlTcp, .closeListener .rtlTcp, .acceptFails .rtlTcp,
    .check .rtlTcp, .join .rtlTcp, .snapshot .rtlTcp, .stopReturns .rtlTcp]

theorem departed_empty : (machine (id : Kind → Kind)).Allowed DestroyedEmpty initial
    (departed ++ [.destroy .rtlTcp]) := by
  refine Machine.allowed_concat (Machine.allowed_of_forall ?_) ?_
  · intro l hl s i hi
    subst hi
    simp [departed] at hl
  · intro t hrun i hi
    cases hi
    have hclients : ((machine (id : Kind → Kind)).run initial departed).map (fun t => (t.servers .rtlTcp).clients) =
        some [] := rfl
    rw [hrun] at hclients
    exact Option.some.inj hclients

/-- A client is connected and idle when its server is stopped and destroyed: only then does
its thread come out of `recv`. -/
def outlived : List (Label Kind) :=
  [.check .rtlTcp, .accept .rtlTcp 5 0, .greet .rtlTcp, .register .rtlTcp, .spawn .rtlTcp, .check .rtlTcp,
    .stop .rtlTcp, .closeListener .rtlTcp, .acceptFails .rtlTcp, .check .rtlTcp, .join .rtlTcp, .snapshot .rtlTcp,
    .shutdown .rtlTcp, .stopReturns .rtlTcp, .destroy .rtlTcp, .recvEnds 0]

end VrxServer.Process
