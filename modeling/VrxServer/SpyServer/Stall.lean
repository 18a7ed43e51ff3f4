import VrxServer.SpyServer.Session

/-! Who can hold up the streaming thread.

Every socket has a send buffer of bounded size. A broadcast does not wait for room in it; a
reply does, and it waits with `clientsMutex_` held. So a run is free of stalls exactly when
every reply it starts finds room for all of its message (`unstalled_iff`): otherwise the
peer that does not read keeps the lock, and with it every broadcast. -/
namespace VrxServer.SpyServer
open Base Config Dsp

/-- Sessions over sockets with send buffers. -/
structure Sockets (K : Type) where
  session : Session K
  /-- The bytes in each send buffer. -/
  fill : ℕ → ℕ
  /-- The client thread in a blocking send, and the bytes it has still to hand over. It
  holds the lock meanwhile; no other section waits with it. -/
  sending : Option (ℕ × ℕ)

inductive Action where
  /-- A step of the sessions that is no reply. -/
  | session (e : Event)
  /-- A thread takes the lock for its reply, and its send begins. -/
  | lock (fd : ℕ)
  /-- The kernel takes bytes of it into the send buffer. -/
  | copy (fd n : ℕ)
  | unlock (fd : ℕ)
  /-- The peer reads. -/
  | drain (fd n : ℕ)

variable {K : Type} [Field K] [LinearOrder K] [FloorRing K] (P : Platform K) (capacity : ℕ → ℕ)

namespace Sockets

def initial (vrx : VirtualReceiver K) : Sockets K := ⟨Session.initial vrx, fun _ => 0, none⟩

def room (s : Sockets K) (fd : ℕ) : ℕ := capacity fd - s.fill fd

/-- The thread of this descriptor is in a blocking send. -/
def inSend (s : Sockets K) (fd : ℕ) : Bool := s.sending.any fun p => p.1 == fd

/-- How long the reply is that the thread comes to next. -/
def nextReply (s : Sockets K) (fd : ℕ) : Option ℕ :=
  match s.session.threads fd, s.session.server.clients.lookup fd with
  | some (sec :: _), some _ => (sec.reply P s.session.server.vrx).map fun r => 20 + r.2.bytes.length
  | _, _ => none

/-- A section that takes no lock. -/
def nextRetunes (s : Sockets K) (fd : ℕ) : Bool :=
  match s.session.threads fd with
  | some (.retune _ :: _) => true
  | _ => false

/-- The event can happen: its thread is in no send, its next section is no reply, and the
lock is free if it is taken. -/
def ready (s : Sockets K) : Event → Bool
  | .accept _ | .disconnect _ | .broadcast _ _ => s.sending.isNone
  | .command fd _ => !s.inSend fd
  | .proceed fd => (s.nextReply P fd).isNone && if s.nextRetunes fd then !s.inSend fd else s.sending.isNone

/-- The event as it is with bounded buffers: a broadcast is accepted up to the room there is. -/
def bounded (s : Sockets K) : Event → Event
  | .broadcast data outcome => .broadcast data fun fd => min (outcome fd) (s.room capacity fd)
  | e => e

/-- What an event adds to a send buffer; an accepted connection starts with an empty one. -/
def filled (s : Sockets K) (fd : ℕ) : Event → ℕ
  | .accept g => if fd = g then 0 else s.fill fd
  | .broadcast data outcome =>
    s.fill fd + ((iqSends data (outcome fd) (s.session.server.clients.lookup fd)).map Sent.accepted).sum
  | _ => s.fill fd

def step (s : Sockets K) : Action → Option (Sockets K)
  | .session e =>
    if s.ready P e then
      (s.session.step P (s.bounded capacity e)).map fun session =>
        ⟨session, fun fd => s.filled fd (s.bounded capacity e), s.sending⟩
    else none
  | .lock fd =>
    match s.sending, s.nextReply P fd with
    | none, some n => (s.session.step P (.proceed fd)).map fun session => ⟨session, s.fill, some (fd, n)⟩
    | _, _ => none
  | .copy fd n =>
    match s.sending with
    | some (g, r) =>
      if g = fd ∧ 0 < n ∧ n ≤ r ∧ n ≤ s.room capacity fd then
        some {s with fill := Function.update s.fill fd (s.fill fd + n), sending := some (fd, r - n)}
      else none
    | none => none
  | .unlock fd => if s.sending = some (fd, 0) then some {s with sending := none} else none
  | .drain fd n =>
    if n ≤ s.fill fd then some {s with fill := Function.update s.fill fd (s.fill fd - n)} else none

def machine : Machine (Sockets K) Action := ⟨step P capacity⟩

/-- A client thread holds the lock and waits for its peer to read. -/
def Stalled (s : Sockets K) : Prop := ∃ fd r, s.sending = some (fd, r) ∧ 0 < r ∧ s.room capacity fd = 0

/-- Without a peer reading, it comes to that. -/
def CanStall (s : Sockets K) : Prop :=
  ∃ t actions, (∀ a ∈ actions, ∃ fd n, a = .copy fd n) ∧ (machine P capacity).run s actions = some t ∧
    t.Stalled capacity

/-- A reply starts with room for its whole message. -/
def Roomy (s : Sockets K) : Action → Prop
  | .lock fd => ∀ n, s.nextReply P fd = some n → n ≤ s.room capacity fd
  | _ => True

/-- The send that is going on fits. -/
def Fits (s : Sockets K) : Prop := ∀ fd r, s.sending = some (fd, r) → r ≤ s.room capacity fd

/-- A copy moves bytes from the send into the buffer. -/
theorem step_copy {s t : Sockets K} {fd n : ℕ} (h : (machine P capacity).step s (.copy fd n) = some t) :
    ∃ r, s.sending = some (fd, r) ∧ n ≤ r ∧ t.sending = some (fd, r - n) ∧
      t.room capacity fd = s.room capacity fd - n := by
  simp only [machine, step] at h
  split at h
  · next g r hsending =>
    split at h
    · next hcond =>
      obtain ⟨rfl, hpos, hr, hroom⟩ := hcond
      obtain rfl := Option.some.inj h
      refine ⟨r, hsending, hr, rfl, ?_⟩
      simp only [room, Function.update_self]
      omega
    · cases h
  · cases h

theorem fits_copy {s t : Sockets K} {fd n : ℕ} (h : s.Fits capacity)
    (hstep : (machine P capacity).step s (.copy fd n) = some t) : t.Fits capacity := by
  obtain ⟨r, hsending, hn, hsending', hroom⟩ := step_copy P capacity hstep
  intro g r' hg
  rw [hsending', Option.some.injEq, Prod.mk.injEq] at hg
  obtain ⟨rfl, rfl⟩ := hg
  have := h _ _ hsending
  omega

theorem fits_copies {s t : Sockets K} {actions : List Action} (hcopies : ∀ a ∈ actions, ∃ fd n, a = .copy fd n)
    (hrun : (machine P capacity).run s actions = some t) (h : s.Fits capacity) : t.Fits capacity := by
  induction actions generalizing s with
  | nil => exact Option.some.inj hrun ▸ h
  | cons a actions ih =>
    obtain ⟨u, hu, ht⟩ := Option.bind_eq_some_iff.mp hrun
    obtain ⟨fd, n, rfl⟩ := hcopies a List.mem_cons_self
    exact ih (fun b hb => hcopies b (List.mem_cons_of_mem _ hb)) ht (fits_copy P capacity h hu)

/-- A send that does not fit fills the buffer, and then waits. -/
theorem canStall_of_tight {s : Sockets K} {fd r : ℕ} (hsending : s.sending = some (fd, r))
    (htight : s.room capacity fd < r) : s.CanStall P capacity := by
  rcases Nat.eq_zero_or_pos (s.room capacity fd) with hzero | hpos
  · exact ⟨s, [], by simp, rfl, fd, r, hsending, by omega, hzero⟩
  · have hstep : (machine P capacity).step s (.copy fd (s.room capacity fd)) = some {s with
        fill := Function.update s.fill fd (s.fill fd + s.room capacity fd)
        sending := some (fd, r - s.room capacity fd)} := by
      simp only [machine, step, hsending]
      exact if_pos ⟨trivial, hpos, htight.le, le_refl _⟩
    refine ⟨_, [.copy fd (s.room capacity fd)], by simp, by rw [Machine.run_cons, hstep]; rfl, ?_⟩
    refine ⟨fd, r - s.room capacity fd, rfl, by omega, ?_⟩
    simp only [room, Function.update_self]
    omega

theorem not_canStall_iff (s : Sockets K) : ¬ s.CanStall P capacity ↔ s.Fits capacity := by
  constructor
  · intro h fd r hsending
    by_contra htight
    exact h (canStall_of_tight P capacity hsending (by omega))
  · intro h hp
    obtain ⟨t, actions, hcopies, hrun, fd, r, hsending, hpos, hroom⟩ := hp
    have := fits_copies P capacity hcopies hrun h fd r hsending
    omega

/-- A session event lets a send that is going on be, and adds nothing to its buffer. -/
theorem fits_session {s t : Sockets K} {e : Event} (h : s.Fits capacity)
    (hstep : (machine P capacity).step s (.session e) = some t) : t.Fits capacity := by
  simp only [machine, step] at hstep
  split at hstep
  · next hready =>
    obtain ⟨session, -, rfl⟩ := Option.map_eq_some_iff.mp hstep
    intro fd r hsending
    have hbusy : s.sending.isNone = false := by
      rw [show s.sending = some (fd, r) from hsending]
      rfl
    cases e with
    | command g cmd => exact h fd r hsending
    | proceed g => exact h fd r hsending
    | accept g | disconnect g | broadcast data outcome =>
      rw [ready, hbusy] at hready
      cases hready
  · cases hstep

/-- A reply that gets the lock fits exactly when there is room for it. -/
theorem fits_lock {s t : Sockets K} {fd : ℕ} (hstep : (machine P capacity).step s (.lock fd) = some t) :
    t.Fits capacity ↔ s.Roomy P capacity (.lock fd) := by
  simp only [machine, step] at hstep
  split at hstep
  · next n hfree hn =>
    obtain ⟨session, -, rfl⟩ := Option.map_eq_some_iff.mp hstep
    simp only [Fits, Roomy, hn, Option.some.injEq, Prod.mk.injEq]
    constructor
    · intro hfits _ hp
      obtain rfl := hp
      exact hfits fd _ ⟨rfl, rfl⟩
    · intro hroomy g r hp
      obtain ⟨rfl, rfl⟩ := hp
      exact hroomy _ rfl
  · cases hstep

/-- A peer that reads makes room. -/
theorem fits_drain {s t : Sockets K} {fd n : ℕ} (h : s.Fits capacity)
    (hstep : (machine P capacity).step s (.drain fd n) = some t) : t.Fits capacity := by
  simp only [machine, step] at hstep
  split at hstep
  · next hn =>
    obtain rfl := Option.some.inj hstep
    intro g r hg
    refine (h g r hg).trans ?_
    simp only [room, Function.update_apply]
    split
    · next hgf =>
      subst hgf
      omega
    · exact le_refl _
  · cases hstep

theorem fits_step (s : Sockets K) (a : Action) (t : Sockets K) (h : s.Fits capacity)
    (hstep : (machine P capacity).step s a = some t) : t.Fits capacity ↔ s.Roomy P capacity a := by
  cases a with
  | session e => exact iff_of_true (fits_session P capacity h hstep) trivial
  | copy fd n => exact iff_of_true (fits_copy P capacity h hstep) trivial
  | lock fd => exact fits_lock P capacity hstep
  | drain fd n => exact iff_of_true (fits_drain P capacity h hstep) trivial
  | unlock fd =>
    refine iff_of_true ?_ trivial
    simp only [machine, step] at hstep
    split at hstep
    · obtain rfl := Option.some.inj hstep
      exact fun g r hg => nomatch hg
    · cases hstep

/-- In every state the send that is going on fits, exactly if every reply starts with room. -/
theorem fits_iff_roomy (vrx : VirtualReceiver K) (actions : List Action) :
    (machine P capacity).Always (Fits capacity) (initial vrx) actions ↔
      (machine P capacity).Allowed (Roomy P capacity) (initial vrx) actions :=
  Machine.always_iff_allowed (I := fun _ => True) (fun _ _ _ _ _ => trivial)
    (fun s a t _ h hstep => fits_step P capacity s a t h hstep) trivial fun _ _ h => nomatch h

omit [Field K] [LinearOrder K] [FloorRing K] in
theorem Fits.not_stalled {s : Sockets K} (h : s.Fits capacity) : ¬ s.Stalled capacity := by
  rintro ⟨fd, r, hsending, hpos, hroom⟩
  have := h fd r hsending
  omega

/-- No state of a run whose replies all start with room is a stall. There are runs without room
for a reply that have no stall either, where the peer reads in time; they could have had one. -/
theorem never_stalled (vrx : VirtualReceiver K) (actions : List Action)
    (h : (machine P capacity).Allowed (Roomy P capacity) (initial vrx) actions) :
    (machine P capacity).Always (fun s => ¬ s.Stalled capacity) (initial vrx) actions :=
  ((fits_iff_roomy P capacity vrx actions).mpr h).mono fun _ => Fits.not_stalled capacity

/-- **A run is free of stalls exactly when every reply of it starts with room for its whole
message**, however many clients there are and whatever they send. -/
theorem unstalled_iff (vrx : VirtualReceiver K) (actions : List Action) :
    (machine P capacity).Always (fun s => ¬ s.CanStall P capacity) (initial vrx) actions ↔
      (machine P capacity).Allowed (fun s a => s.Roomy P capacity a) (initial vrx) actions := by
  simp only [not_canStall_iff]
  exact fits_iff_roomy P capacity vrx actions

/-- Two pings from a client that reads nothing, with room for one and a half replies. -/
def twoPings : List Action :=
  [.session (.accept 4), .session (.command 4 (3, [])), .lock 4, .copy 4 20, .unlock 4,
    .session (.command 4 (3, [])), .lock 4, .copy 4 10]

theorem pings_stall : ¬ ∀ (capacity : ℕ → ℕ) (vrx : VirtualReceiver ℚ) (s : Sockets ℚ),
    (machine Platform.sample capacity).Reachable (initial vrx) s → ¬ s.Stalled capacity := by
  intro h
  have hreach : (machine Platform.sample fun _ => 30).Reachable (initial VirtualReceiver.sample) _ :=
    ⟨twoPings, rfl⟩
  exact h _ _ _ hreach ⟨4, 10, rfl, by decide, by decide⟩

end Sockets

end VrxServer.SpyServer
