import VrxServer.Process.Table

/-! Registries and recycled descriptors.

A number may be handed out again as soon as it is closed, and threads act on numbers. That a
number on a register is its own connection's comes from the table; from it follow what a
client thread and a broadcast find there (`registries_sound`): a thread leaving takes no
other connection off the register, a broadcast meets each connection once, and what is
kept for a connection and sent on it starts with the connection. -/
namespace VrxServer.Process
open Base Base.Descriptors SpyServer

variable {ι : Type}

/-! ### Sends -/

theorem setConn_id (s : Process ι) (c : ℕ) : s.setConn c id = s := by
  unfold setConn
  rw [Option.map_id, id, Function.update_eq_self]

theorem setConn_setConn (s : Process ι) (c : ℕ) (f g : Connection ι → Connection ι) :
    (s.setConn c f).setConn c g = s.setConn c (g ∘ f) := by
  have hconns : Function.update (Function.update s.conns c ((s.conns c).map f)) c
      ((Function.update s.conns c ((s.conns c).map f) c).map g) = Function.update s.conns c ((s.conns c).map (g ∘ f)) := by
    rw [Function.update_idem, Function.update_self, Option.map_map]
  unfold setConn
  rw [hconns]

def Connection.sendAll (bufs : List (List UInt8)) (k : Connection ι) : Connection ι := {k with sent := k.sent ++ bufs}

/-- What is sent to a connection's descriptor is sent on the connection. -/
theorem sends_eq {fd c : ℕ} (bufs : List (List UInt8)) {s : Process ι} (hfd : s.kernel fd = some (.connection c)) :
    bufs.foldl (send fd) s = s.setConn c (Connection.sendAll bufs) := by
  induction bufs generalizing s with
  | nil =>
    have hid : (Connection.sendAll [] : Connection ι → Connection ι) = id := by
      funext k
      rw [Connection.sendAll, List.append_nil, id]
    rw [hid, setConn_id]
    rfl
  | cons buf bufs ih =>
    have hsend : send fd s buf = s.setConn c (Connection.sendAll [buf]) := by
      rw [send, hfd]
      rfl
    have hcomp : (Connection.sendAll bufs : Connection ι → Connection ι) ∘ Connection.sendAll [buf] =
        Connection.sendAll (buf :: bufs) := by
      funext k
      simp [Connection.sendAll]
    have hfd' : (s.setConn c (Connection.sendAll [buf])).kernel fd = some (.connection c) := hfd
    rw [List.foldl_cons, hsend, ih hfd', setConn_setConn, hcomp]

/-- What a broadcast sends on a connection. -/
def offers (data : List UInt8) (c : ℕ) (clients : List Entry) : List (List UInt8) :=
  (clients.filter fun e => e.conn = c).flatMap fun e => e.client.offered data

/-- The loop of a broadcast over clients whose descriptors are theirs. -/
theorem sendLoop_conns (data : List UInt8) {clients : List Entry} {s : Process ι}
    (hclients : ∀ e ∈ clients, s.kernel e.fd = some (.connection e.conn)) (c : ℕ) :
    (clients.foldl (fun s e => (e.client.offered data).foldl (send e.fd) s) s).conns c =
      (s.conns c).map (Connection.sendAll (offers data c clients)) := by
  induction clients generalizing s with
  | nil =>
    cases h : s.conns c <;> simp [offers, Connection.sendAll, h]
  | cons e clients ih =>
    rw [List.foldl_cons, sends_eq _ (hclients e List.mem_cons_self), ih, setConn_conns]
    · by_cases hc : c = e.conn
      · subst hc
        rw [if_pos rfl, Option.map_map]
        congr 1
        funext k
        simp [Connection.sendAll, offers]
      · rw [if_neg hc]
        simp [offers, Ne.symm hc]
    · exact fun d hd => hclients d (List.mem_cons_of_mem e hd)

/-! ### What is on a register -/

variable {s t : Process ι}

theorem mem_table_register {i : ι} {e : Entry} (he : e ∈ (s.servers i).clients) : e.view ∈ s.table.register i :=
  List.mem_map_of_mem he

theorem registered_denotes (hs : s.table.Sound) {i : ι} {e : Entry} (he : e ∈ (s.servers i).clients) :
    s.kernel e.fd = some (.connection e.conn) := hs.registered_denotes (mem_table_register he)

/-- A registered connection is its server's, has the number it is registered under, and is
past the greeting. -/
theorem registered_conn (hs : s.table.Sound) {i : ι} {e : Entry} (he : e ∈ (s.servers i).clients) :
    ∃ k, s.conns e.conn = some k ∧ k.server = i ∧ k.fd = e.fd ∧ k.stage ≠ .accepted := by
  obtain ⟨v, hv, howner, hfd⟩ := hs.register_known (mem_table_register he)
  obtain ⟨k, hk, rfl⟩ := Option.map_eq_some_iff.mp hv
  refine ⟨k, hk, howner, hfd, ?_⟩
  have henrolled := ((hs.register_iff (e := e.view) hv i).mp (mem_table_register he)).2.2
  intro hstage
  have hstanding : k.view.standing = .accepted := congrArg Stage.standing hstage
  rw [hstanding] at henrolled
  cases henrolled

theorem distinct_fds (hs : s.table.Sound) (i : ι) : ((s.servers i).clients.map Entry.fd).Nodup := by
  have hnodup := hs.distinct i
  simp only [table, List.map_map] at hnodup
  exact hnodup

theorem distinct_conns (hs : s.table.Sound) (i : ι) : ((s.servers i).clients.map Entry.conn).Nodup := by
  refine List.pairwise_map.mpr ((List.pairwise_map.mp (distinct_fds hs i)).imp_of_mem ?_)
  intro e f he hf hfd hconn
  obtain ⟨k, hk, -, hke, -⟩ := registered_conn hs he
  obtain ⟨l, hl, -, hlf, -⟩ := registered_conn hs hf
  rw [hconn] at hk
  obtain rfl := Option.some.inj (hk.symm.trans hl)
  exact hfd (hke.symm.trans hlf)

theorem length_offered (data : List UInt8) (client : Client) : (client.offered data).length ≤ 1 := by
  cases client with
  | rtlTcp => exact le_refl 1
  | spyServer state =>
    simp only [Client.offered]
    split <;> simp

/-- A broadcast offers a connection its chunk at most once. -/
theorem length_offers (data : List UInt8) (c : ℕ) {clients : List Entry} (h : (clients.map Entry.conn).Nodup) :
    (offers data c clients).length ≤ 1 := by
  have hcount : (clients.filter fun e => e.conn = c).length ≤ 1 := by
    have hle := List.nodup_iff_count_le_one.mp h c
    rw [List.count, List.countP_map, List.countP_eq_length_filter] at hle
    exact hle
  unfold offers
  generalize clients.filter (fun e => e.conn = c) = own at hcount
  cases own with
  | nil => exact Nat.zero_le 1
  | cons e own =>
    have hown : own = [] := List.length_eq_zero_iff.mp (by simpa using hcount)
    subst hown
    simpa using length_offered data e.client

/-! ### How a connection starts -/

/-- Nothing is sent on a connection before its greeting. -/
def Connection.Greeted (kind : ι → Kind) (k : Connection ι) : Prop :=
  (k.stage = .accepted ∧ k.sent = []) ∨ (k.stage ≠ .accepted ∧ (kind k.server).greeting <+: k.sent)

/-- What is kept for a connection none of whose commands has been handled is what is kept
for a new one. -/
structure Started (kind : ι → Kind) (s : Process ι) : Prop where
  client : ∀ {i e k}, e ∈ (s.servers i).clients → s.conns e.conn = some k → k.handled = false →
    e.client = (kind i).client
  sent : ∀ {c k}, s.conns c = some k → k.Greeted kind

variable (kind : ι → Kind)

namespace Started
variable {kind}

theorem setConn (h : Started kind s) {c : ℕ} {f : Connection ι → Connection ι}
    (hhandled : ∀ k, k.handled = true → (f k).handled = true)
    (hsent : ∀ k, s.conns c = some k → k.Greeted kind → (f k).Greeted kind) : Started kind (s.setConn c f) where
  client := by
    intro i e k he hk hnew
    rw [setConn_conns] at hk
    split at hk
    · obtain ⟨l, hl, rfl⟩ := Option.map_eq_some_iff.mp hk
      refine h.client he hl (Bool.eq_false_iff.mpr ?_)
      intro hl'
      rw [hhandled l hl'] at hnew
      cases hnew
    · exact h.client he hk hnew
  sent := by
    intro d k hk
    rw [setConn_conns] at hk
    split at hk
    · next hd =>
      obtain ⟨l, hl, rfl⟩ := Option.map_eq_some_iff.mp hk
      exact hsent l (hd ▸ hl) (h.sent hl)
    · exact h.sent hk

/-- A thread goes on behind the greeting. -/
theorem goTo (h : Started kind s) {c : ℕ} {k : Connection ι} (hk : s.conns c = some k) {a b : Stage}
    (hstage : k.stage = a) (ha : a ≠ .accepted) (hb : b ≠ .accepted) : Started kind (s.goTo c b) := by
  refine h.setConn (fun _ hl => hl) ?_
  intro l hl hgreeted
  obtain rfl := Option.some.inj (hk.symm.trans hl)
  cases hgreeted with
  | inl hnew => exact absurd (hstage.symm.trans hnew.1) ha
  | inr hgreeted => exact .inr ⟨hb, hgreeted.2⟩

variable [DecidableEq ι]

theorem setServer (h : Started kind s) {i : ι} {f : Server → Server}
    (hclients : ∀ e ∈ (f (s.servers i)).clients, ∀ k, s.conns e.conn = some k → k.handled = false →
      e.client = (kind i).client) : Started kind (s.setServer i f) where
  client := by
    intro j e k he hk hnew
    rw [setServer_servers] at he
    split at he
    · next hj =>
      subst hj
      exact hclients e he k hk hnew
    · exact h.client he hk hnew
  sent := fun hk => h.sent hk

/-- No client is added, and none is changed. -/
theorem setServer_subset (h : Started kind s) {i : ι} {f : Server → Server}
    (hclients : (f (s.servers i)).clients ⊆ (s.servers i).clients) : Started kind (s.setServer i f) :=
  h.setServer fun _ he _ hk hnew => h.client (hclients he) hk hnew

end Started

theorem mem_assign {e x : Entry} {clients : List Entry} (h : x ∈ assign e clients) : x = e ∨ x ∈ clients := by
  induction clients with
  | nil => exact .inl (List.mem_singleton.mp h)
  | cons y clients ih =>
    unfold assign at h
    split at h
    · exact List.mem_cons.mp h
    · split at h
      · exact (List.mem_cons.mp h).imp_right (List.mem_cons_of_mem y)
      · cases List.mem_cons.mp h with
        | inl hy => exact .inr (hy ▸ List.mem_cons_self)
        | inr hrest => exact (ih hrest).imp_right (List.mem_cons_of_mem y)

theorem mem_register {k : Kind} {e x : Entry} {clients : List Entry} (h : x ∈ k.register clients e) :
    x = e ∨ x ∈ clients := by
  cases k with
  | rtlTcp =>
    cases List.mem_append.mp h with
    | inl hx => exact .inr hx
    | inr hx => exact .inl (List.mem_singleton.mp hx)
  | spyServer => exact mem_assign h

/-- A broadcast does not touch what is kept for a client that has asked for nothing. -/
theorem client_afterBroadcast (k : Kind) : k.client.afterBroadcast = k.client := by
  cases k <;> rfl

variable [DecidableEq ι]

theorem broadcastIq_conns (hs : s.table.Sound) (i : ι) (data : List UInt8) (c : ℕ) :
    (s.broadcastIq i data).conns c =
      (s.conns c).map (Connection.sendAll (offers data c (s.servers i).clients)) := by
  rw [broadcastIq, setServer_conns]
  exact sendLoop_conns data (fun e he => registered_denotes hs he) c

omit [DecidableEq ι] in
theorem sends_servers (fd : ℕ) (bufs : List (List UInt8)) (s : Process ι) :
    (bufs.foldl (send fd) s).servers = s.servers := by
  induction bufs generalizing s with
  | nil => rfl
  | cons buf bufs ih =>
    rw [List.foldl_cons, ih]
    unfold send
    split <;> rfl

omit [DecidableEq ι] in
theorem sendLoop_servers (data : List UInt8) (clients : List Entry) (s : Process ι) :
    (clients.foldl (fun s e => (e.client.offered data).foldl (send e.fd) s) s).servers = s.servers := by
  induction clients generalizing s with
  | nil => rfl
  | cons e clients ih => rw [List.foldl_cons, ih, sends_servers]

theorem broadcastIq_clients (s : Process ι) (i j : ι) (data : List UInt8) :
    ((s.broadcastIq i data).servers j).clients =
      if j = i then (s.servers j).clients.map fun e => {e with client := e.client.afterBroadcast}
      else (s.servers j).clients := by
  rw [broadcastIq, setServer_servers, sendLoop_servers]
  split <;> rfl

namespace Started
variable {kind}

theorem broadcast (hs : s.table.Sound) (h : Started kind s) (i : ι) (data : List UInt8) :
    Started kind (s.broadcastIq i data) where
  client := by
    intro j e k he hk hnew
    rw [broadcastIq_conns hs] at hk
    obtain ⟨l, hl, rfl⟩ := Option.map_eq_some_iff.mp hk
    rw [broadcastIq_clients] at he
    split at he
    · obtain ⟨f, hf, rfl⟩ := List.mem_map.mp he
      show f.client.afterBroadcast = _
      rw [h.client hf hl hnew, client_afterBroadcast]
    · exact h.client he hl hnew
  sent := by
    intro c k hk
    rw [broadcastIq_conns hs] at hk
    obtain ⟨l, hl, rfl⟩ := Option.map_eq_some_iff.mp hk
    cases h.sent hl with
    | inl hnew =>
      -- Who has not been greeted is not registered either.
      have hnone : offers data c (s.servers i).clients = [] := by
        have hown : ((s.servers i).clients.filter fun e => e.conn = c) = [] := by
          refine List.filter_eq_nil_iff.mpr fun e he hc => ?_
          obtain ⟨m, hm, -, -, hstage⟩ := registered_conn hs he
          rw [of_decide_eq_true hc, hl] at hm
          obtain rfl := Option.some.inj hm
          exact hstage hnew.1
        rw [offers, hown]
        rfl
      refine .inl ⟨hnew.1, ?_⟩
      rw [hnone]
      exact (List.append_nil _).trans hnew.2
    | inr hgreeted => exact .inr ⟨hgreeted.1, hgreeted.2.trans (List.prefix_append ..)⟩

theorem accept (hs : s.table.Sound) (h : Started kind s) {i : ι} {fd c : ℕ}
    (hstep : (machine kind).step s (.accept i fd c) = some t) : Started kind t := by
  simp only [machine, step] at hstep
  split at hstep
  · next hcond =>
    obtain ⟨-, -, -, hc⟩ := hcond
    obtain rfl := Option.some.inj hstep
    have hnew : Started kind {s with
        kernel := Function.update s.kernel fd (some (.connection c))
        conns := Function.update s.conns c (some ⟨i, fd, .accepted, [], false, false⟩)} := by
      constructor
      · intro j e k he hk hfresh
        have hne : e.conn ≠ c := by
          intro hec
          obtain ⟨l, hl, -⟩ := registered_conn hs he
          rw [hec, hc] at hl
          cases hl
        exact h.client he ((Function.update_of_ne hne _ _).symm.trans hk) hfresh
      · intro d k hk
        have hd : Function.update s.conns c (some ⟨i, fd, .accepted, [], false, false⟩) d = some k := hk
        rw [Function.update_apply] at hd
        split at hd
        · obtain rfl := Option.some.inj hd
          exact .inl ⟨rfl, rfl⟩
        · exact h.sent hd
    exact hnew.setServer_subset fun _ he => he
  · cases hstep

theorem greet (hs : s.table.Sound) (h : Started kind s) {i : ι}
    (hstep : (machine kind).step s (.greet i) = some t) : Started kind t := by
  obtain ⟨⟨c, k⟩, hk, rfl⟩ := Option.map_eq_some_iff.mp hstep
  obtain ⟨hloop, hconn, hstage⟩ := servingAt_eq_some.mp hk
  obtain rfl := serving_server hs hloop hconn
  have hopen : s.kernel k.fd = some (.connection c) :=
    (hs.opened (table_conns hconn)).mpr (by simp [Connection.view, hstage, Stage.standing])
  show Started kind (((kind k.server).greeting.foldl (send k.fd) s).goTo c .greeted)
  rw [sends_eq _ hopen, Process.goTo, setConn_setConn]
  refine h.setConn (fun _ hl => hl) ?_
  intro l hl hgreeted
  obtain rfl := Option.some.inj (hconn.symm.trans hl)
  cases hgreeted with
  | inl hnew =>
    refine .inr ⟨by simp, ?_⟩
    show (kind k.server).greeting <+: k.sent ++ (kind k.server).greeting
    rw [hnew.2]
    exact List.prefix_refl _
  | inr hlate => exact absurd hstage hlate.1

theorem register (h : Started kind s) {i : ι}
    (hstep : (machine kind).step s (.register i) = some t) : Started kind t := by
  obtain ⟨⟨c, k⟩, hk, rfl⟩ := Option.map_eq_some_iff.mp hstep
  obtain ⟨-, hconn, hstage⟩ := servingAt_eq_some.mp hk
  have hgo : Started kind (s.goTo c .registered) := h.goTo hconn hstage (by simp) (by simp)
  refine hgo.setServer fun e he l hl hnew => ?_
  cases mem_register he with
  | inl heq => rw [heq]
  | inr hold => exact hgo.client hold hl hnew

theorem spawn (h : Started kind s) {i : ι} (hstep : (machine kind).step s (.spawn i) = some t) : Started kind t := by
  obtain ⟨⟨c, k⟩, hk, rfl⟩ := Option.map_eq_some_iff.mp hstep
  obtain ⟨-, hconn, hstage⟩ := servingAt_eq_some.mp hk
  have hgo : Started kind (s.goTo c .reading) := h.goTo hconn hstage (by simp) (by simp)
  exact hgo.setServer_subset fun _ he => he

omit [DecidableEq ι] in
theorem goTo_step (h : Started kind s) {c : ℕ} {a b : Stage} (ha : a ≠ .accepted) (hb : b ≠ .accepted)
    (hstep : (s.connAt c a).map (fun _ => s.goTo c b) = some t) : Started kind t := by
  obtain ⟨k, hk, rfl⟩ := Option.map_eq_some_iff.mp hstep
  obtain ⟨hconn, hstage⟩ := connAt_eq_some.mp hk
  exact h.goTo hconn hstage ha hb

theorem handle (hs : s.table.Sound) (h : Started kind s) {c : ℕ} {sec : Section}
    (hstep : (machine kind).step s (.handle c sec) = some t) : Started kind t := by
  obtain ⟨k, hk, rfl⟩ := Option.map_eq_some_iff.mp hstep
  obtain ⟨hconn, hstage⟩ := connAt_eq_some.mp hk
  have hset : Started kind (s.setConn c fun k => {k with handled := true}) :=
    h.setConn (fun _ _ => rfl) fun _ _ hl => hl
  refine hset.setServer fun e he l hl hnew => ?_
  obtain ⟨f, hf, rfl⟩ := List.mem_map.mp he
  by_cases hfd : f.fd = k.fd
  · have hown : f.conn = c := hs.registered_eq (mem_table_register hf) (table_conns hconn)
      (by simp [Connection.view, hstage, Stage.standing]) hfd
    simp only [hfd, if_true, setConn_conns, hown, hconn] at hl
    obtain rfl := Option.some.inj hl
    cases hnew
  · simp only [hfd, if_false] at hl ⊢
    exact hset.client hf hl hnew

theorem removeClient (h : Started kind s) {c : ℕ} (hstep : (machine kind).step s (.removeClient c) = some t) :
    Started kind t := by
  obtain ⟨k, hk, rfl⟩ := Option.map_eq_some_iff.mp hstep
  obtain ⟨hconn, hstage⟩ := connAt_eq_some.mp hk
  have hgo : Started kind (s.goTo c .unregistered) := h.goTo hconn hstage (by simp) (by simp)
  exact hgo.setServer_subset List.filter_sublist.subset

theorem shutdown (h : Started kind s) {i : ι} (hstep : (machine kind).step s (.shutdown i) = some t) :
    Started kind t := by
  simp only [machine, step] at hstep
  split at hstep
  · next fd fds hstopping =>
    obtain rfl := Option.some.inj hstep
    have hshut : Started kind (s.shutdownFd fd) := by
      unfold shutdownFd
      split
      · exact h.setConn (fun _ hk => hk) fun _ _ hk => hk
      · exact h
    exact hshut.setServer_subset fun _ he => he
  · cases hstep

theorem step (hs : s.table.Sound) (h : Started kind s) {l : Label ι} (hstep : (machine kind).step s l = some t) :
    Started kind t := by
  cases l with
  | accept i fd c => exact h.accept hs hstep
  | greet i => exact h.greet hs hstep
  | register i => exact h.register hstep
  | spawn i => exact h.spawn hstep
  | recv c => exact h.goTo_step (a := .reading) (b := .handling) (by simp) (by simp) hstep
  | recvEnds c => exact h.goTo_step (a := .reading) (b := .leaving) (by simp) (by simp) hstep
  | handle c sec => exact h.handle hs hstep
  | handled c => exact h.goTo_step (a := .handling) (b := .reading) (by simp) (by simp) hstep
  | reject c => exact h.goTo_step (a := .handling) (b := .leaving) (by simp) (by simp) (reject_step kind hstep)
  | announce c => exact h.goTo_step (a := .leaving) (b := .announced) (by simp) (by simp) hstep
  | removeClient c => exact h.removeClient hstep
  | close c =>
    obtain ⟨k, hk, rfl⟩ := Option.map_eq_some_iff.mp hstep
    obtain ⟨hconn, hstage⟩ := connAt_eq_some.mp hk
    have hgo : Started kind (s.goTo c .closed) := h.goTo hconn hstage (by simp) (by simp)
    exact ⟨hgo.client, hgo.sent⟩
  | broadcastIq i data =>
    obtain rfl := Option.some.inj hstep
    exact h.broadcast hs i data
  | shutdown i => exact h.shutdown hstep
  | openOther fd | closeOther fd =>
    simp only [machine, Process.step] at hstep
    split at hstep
    · obtain rfl := Option.some.inj hstep
      exact ⟨h.client, h.sent⟩
    · cases hstep
  | check i | acceptFails i | stop i | closeListener i | join i | snapshot i | stopReturns i | destroy i =>
    simp only [machine, Process.step] at hstep
    split at hstep
    · obtain rfl := Option.some.inj hstep
      exact h.setServer_subset fun _ he => he
    · cases hstep

end Started

/-! ### Every state and every step -/

/-- The registers are right, and what they keep starts with the connection. -/
structure RegistriesSound (s : Process ι) : Prop where
  /-- A registered descriptor is open and denotes the connection it was registered for. -/
  denotes : ∀ i, ∀ e ∈ (s.servers i).clients, s.kernel e.fd = some (.connection e.conn)
  own : ∀ i, ∀ e ∈ (s.servers i).clients, ∃ k, s.conns e.conn = some k ∧ k.server = i ∧ k.fd = e.fd
  once : ∀ i, ((s.servers i).clients.map Entry.fd).Nodup
  /-- Until a command of its own is handled, a connection has the state of a new one. -/
  fresh : ∀ i, ∀ e ∈ (s.servers i).clients, ∀ k, s.conns e.conn = some k → k.handled = false →
    e.client = (kind i).client
  header : ∀ c k, s.conns c = some k → kind k.server = .rtlTcp →
    k.stage = .accepted ∧ k.sent = [] ∨ k.sent.head? = some RtlTcp.buildDongleInfoHeader

/-- A broadcast offers each connection its chunk at most once, and a connection's cleanup
takes no other off a register. -/
def StepSound (s : Process ι) (l : Label ι) : Prop :=
  ∀ t, (machine kind).step s l = some t →
    match l with
    | .broadcastIq _ _ => ∀ c k, s.conns c = some k →
      ∃ bufs : List (List UInt8), t.conns c = some (k.sendAll bufs) ∧ bufs.length ≤ 1
    | .removeClient c => ∀ i, ∀ e ∈ (s.servers i).clients, e ∈ (t.servers i).clients ∨ e.conn = c
    | _ => True

def Settled (s : Process ι) : Prop := s.table.Sound ∧ Started kind s

theorem settled_step (s : Process ι) (l : Label ι) (t : Process ι) (h : Settled kind s)
    (hstep : (machine kind).step s l = some t) : Settled kind t :=
  ⟨sound_step kind s l t h.1 hstep, h.2.step h.1 hstep⟩

theorem settled_run {ls : List (Label ι)} (h : (machine kind).run initial ls = some s) : Settled kind s := by
  refine Machine.invariant (settled_step kind) h ⟨sound_initial, ?_, ?_⟩
  · intro i e k he
    cases he
  · intro c k hk
    cases hk

variable {kind}

omit [DecidableEq ι] in
theorem Settled.registriesSound (h : Settled kind s) : RegistriesSound kind s where
  denotes _ _ he := registered_denotes h.1 he
  own i e he := by
    obtain ⟨k, hk, hserver, hfd, -⟩ := registered_conn h.1 he
    exact ⟨k, hk, hserver, hfd⟩
  once i := distinct_fds h.1 i
  fresh _ _ he _ hk hnew := h.2.client he hk hnew
  header c k hk hkind := by
    cases h.2.sent hk with
    | inl hnew => exact .inl hnew
    | inr hgreeted =>
      obtain ⟨rest, hrest⟩ := hgreeted.2
      rw [hkind] at hrest
      right
      rw [← hrest]
      rfl

theorem Settled.stepSound (h : Settled kind s) (l : Label ι) : StepSound kind s l := by
  intro t hstep
  split
  · next i data =>
    obtain rfl := Option.some.inj hstep
    intro c k hk
    refine ⟨offers data c (s.servers i).clients, ?_, length_offers data c (distinct_conns h.1 i)⟩
    rw [broadcastIq_conns h.1, hk, Option.map_some]
  · next c =>
    obtain ⟨k, hk, rfl⟩ := Option.map_eq_some_iff.mp hstep
    obtain ⟨hconn, hstage⟩ := connAt_eq_some.mp hk
    intro i e he
    by_cases hfd : e.fd = k.fd
    · right
      exact h.1.registered_eq (mem_table_register he) (table_conns hconn)
        (by simp [Connection.view, hstage, Stage.standing]) hfd
    · left
      rw [setServer_servers]
      split
      · exact List.mem_filter.mpr ⟨he, by simpa using hfd⟩
      · exact he
  · trivial

variable (kind)

/-- **In every run of a process with any servers**, the registers are right about the kernel
and about their own connections, and no step mixes two connections up. -/
theorem registries_sound (ls : List (Label ι)) :
    (machine kind).Always (RegistriesSound kind) initial ls ∧ (machine kind).Allowed (StepSound kind) initial ls :=
  ⟨fun _ _ _ hrun => (settled_run kind hrun).registriesSound,
    fun _ l _ _ _ hrun _ => (settled_run kind hrun).stepSound l⟩

end VrxServer.Process
