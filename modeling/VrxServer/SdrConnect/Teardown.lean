import VrxServer.Base.Run
import Mathlib.Logic.Function.Basic

/-! The end of the SDRconnect connection.

Two threads have the upstream socket in hand: the read thread closes it and writes -1 to
`fd_` when its loop ends, and the thread that calls `close` looks at `fd_` three times, to see
if there is a socket, to send a Close frame and to shut it down. The last two looks and the
calls they are for are steps of their own, and the frame can take more than one call. The kernel
gives a number out again as soon as it is closed. Whatever the order, the socket is closed once
and not left open (`closed_once`). A call of `close` can meet another descriptor, though: exactly
if it has the upstream's number, looked up before the read thread wrote its -1, and somebody else
has opened that number again (`aimed_iff`). -/
namespace VrxServer.SdrConnect
open Base

/-- What an open descriptor denotes. -/
inductive File where
  | upstream
  | other
  deriving DecidableEq

inductive Reader where
  /-- `connect` threw behind the handshake, so that no thread was started. -/
  | absent
  | reading
  /-- Out of the loop. -/
  | closing
  /-- About to write -1. -/
  | forgetting
  | finished
  deriving DecidableEq

/-- Where the thread is that owns the client. -/
inductive Closer where
  | idle (joined : Bool)
  | checked
  /-- In `sendAll`, which has been given this number. -/
  | sending (fd : Option ℕ)
  | announced
  /-- About to shut this number down. -/
  | shutting (fd : Option ℕ)
  | joining
  | destroyed
  deriving DecidableEq

inductive SocketCall where
  | pong
  | closeFrame
  | shutdown
  | close
  deriving DecidableEq

/-- The descriptors, the client's `fd_`, and the calls made on it with what each was about. -/
structure Link where
  kernel : ℕ → Option File
  fd_ : Option ℕ
  reader : Reader
  closer : Closer
  calls : List (SocketCall × Option File)

inductive LinkEvent where
  /-- Other descriptors of the process. -/
  | openOther (fd : ℕ)
  | closeOther (fd : ℕ)
  /-- The read thread. -/
  | pong
  | loopEnds
  | readerCloses
  | readerForgets
  /-- The owner: `close`, which the destructor calls too. -/
  | check
  /-- `fd_` is read, for the frame or for the shutdown. -/
  | load
  /-- A call of `send`, the frame's last or not. -/
  | sendClose (last : Bool)
  | shutdown
  | join
  | destroy

/-- The calls that `close` makes. -/
def LinkEvent.ofClose : LinkEvent → Bool
  | .sendClose _ | .shutdown => true
  | _ => false

namespace Link

/-- What `fd_` denotes, nothing where it is -1 or a closed number. -/
def target (s : Link) : Option File := s.fd_.bind s.kernel

/-- A call on this number. -/
def call (s : Link) (c : SocketCall) (fd : Option ℕ) : Link := {s with calls := s.calls ++ [(c, fd.bind s.kernel)]}

/-- `::close(fd_)`. -/
def closeFd (s : Link) : Link :=
  {s.call .close s.fd_ with kernel := s.fd_.elim s.kernel fun fd => Function.update s.kernel fd none}

def step (s : Link) : LinkEvent → Option Link
  | .openOther fd =>
    if s.kernel fd = none then some {s with kernel := Function.update s.kernel fd (some .other)} else none
  | .closeOther fd =>
    if s.kernel fd = some .other then some {s with kernel := Function.update s.kernel fd none} else none
  | .pong => if s.reader = .reading then some (s.call .pong s.fd_) else none
  | .loopEnds => if s.reader = .reading then some {s with reader := .closing} else none
  | .readerCloses => if s.reader = .closing then some {s.closeFd with reader := .forgetting} else none
  | .readerForgets => if s.reader = .forgetting then some {s with fd_ := none, reader := .finished} else none
  | .check =>
    match s.closer with
    | .idle _ => some {s with closer := if s.fd_ = none then .joining else .checked}
    | _ => none
  | .load =>
    match s.closer with
    | .checked => some {s with closer := .sending s.fd_}
    | .announced => some {s with closer := .shutting s.fd_}
    | _ => none
  | .sendClose last =>
    match s.closer with
    | .sending fd => some {s.call .closeFrame fd with closer := if last then .announced else .sending fd}
    | _ => none
  | .shutdown =>
    match s.closer with
    | .shutting fd => some {s.call .shutdown fd with closer := .joining}
    | _ => none
  | .join =>
    if s.closer = .joining ∧ (s.reader = .absent ∨ s.reader = .finished) then some {s with closer := .idle true} else none
  | .destroy =>
    if s.closer = .idle true then some {(if s.fd_ = none then s else s.closeFd) with closer := .destroyed} else none

def machine : Machine Link LinkEvent := ⟨step⟩

/-- The client as `connect` leaves it: with a socket, or without one and then without a thread. -/
structure Starts (s : Link) : Prop where
  kernel : ∀ fd, s.kernel fd = some .upstream ↔ s.fd_ = some fd
  reader : s.reader = .reading ∧ s.fd_ ≠ none ∨ s.reader = .absent
  closer : s.closer = .idle false
  calls : s.calls = []

/-! ### The socket is closed once -/

/-- The socket is still open. -/
def live (s : Link) : Bool :=
  match s.reader with
  | .absent => s.closer != .destroyed
  | .reading | .closing => true
  | .forgetting | .finished => false

/-- What the calls of `::close` were about. -/
def closes (s : Link) : List (Option File) :=
  s.calls.filterMap fun c => if c.1 = .close then some c.2 else none

/-- How far the socket is, if `fd` was its number. -/
structure Sound (fd : Option ℕ) (s : Link) : Prop where
  kernel : ∀ n, s.kernel n = some .upstream ↔ fd = some n ∧ s.live = true
  fd_eq : s.fd_ = if s.reader = .finished then none else fd
  started : s.reader ≠ .absent → fd ≠ none
  joined : s.closer = .idle true ∨ s.closer = .destroyed → s.reader = .absent ∨ s.reader = .finished
  closes : s.closes = if fd ≠ none ∧ s.live = false then [some .upstream] else []
  pongs : ∀ file, (SocketCall.pong, file) ∈ s.calls → file = some .upstream

theorem Starts.sound {s : Link} (h : s.Starts) : s.Sound s.fd_ := by
  have hlive : s.live = true := by
    rcases h.reader with ⟨hreader, -⟩ | hreader <;> simp [live, hreader, h.closer]
  refine ⟨?_, ?_, ?_, ?_, ?_, ?_⟩
  · intro n
    rw [h.kernel n, hlive, and_iff_left rfl]
  · rcases h.reader with ⟨hreader, -⟩ | hreader <;> simp [hreader]
  · rcases h.reader with ⟨-, hfd⟩ | hreader
    · exact fun _ => hfd
    · exact fun hne => absurd hreader hne
  · rw [h.closer]
    exact fun hp => hp.elim nofun nofun
  · rw [closes, h.calls, hlive]
    simp
  · rw [h.calls]
    exact fun _ hmem => nomatch hmem

theorem closes_call (s : Link) (c : SocketCall) (fd : Option ℕ) :
    (s.call c fd).closes = s.closes ++ if c = .close then [fd.bind s.kernel] else [] := by
  rw [closes, call, List.filterMap_append, ← closes]
  by_cases hc : c = .close <;> simp [hc]

namespace Sound
variable {fd : Option ℕ} {s t : Link}

/-- As long as the socket is open, the client's calls are about it. -/
theorem target_eq (h : s.Sound fd) (hlive : s.live = true) (hfd : fd ≠ none) : s.target = some .upstream := by
  obtain ⟨n, rfl⟩ := Option.ne_none_iff_exists'.mp hfd
  have hreader : s.reader ≠ .finished := by
    intro hfinished
    simp [live, hfinished] at hlive
  rw [target, h.fd_eq, if_neg hreader]
  exact (h.kernel n).mpr ⟨rfl, hlive⟩

/-- Other descriptors come and go. -/
theorem other (h : s.Sound fd) {kernel : ℕ → Option File}
    (hkernel : ∀ n, kernel n = some .upstream ↔ s.kernel n = some .upstream) : ({s with kernel := kernel} : Link).Sound fd :=
  ⟨fun n => (hkernel n).trans (h.kernel n), h.fd_eq, h.started, h.joined, h.closes, h.pongs⟩

/-- A step of a thread with which the socket stays open, or closed. -/
theorem go (h : s.Sound fd) {fd_ : Option ℕ} {reader : Reader} {closer : Closer}
    (hlive : ({s with fd_ := fd_, reader := reader, closer := closer} : Link).live = s.live)
    (hfd_ : fd_ = if reader = .finished then none else fd) (hstarted : reader ≠ .absent → fd ≠ none)
    (hjoined : closer = .idle true ∨ closer = .destroyed → reader = .absent ∨ reader = .finished) :
    ({s with fd_ := fd_, reader := reader, closer := closer} : Link).Sound fd := by
  refine ⟨?_, hfd_, hstarted, hjoined, ?_, h.pongs⟩
  · rw [hlive]
    exact h.kernel
  · rw [hlive]
    exact h.closes

/-- A step of the owner's, short of destroying the client. -/
theorem owner (h : s.Sound fd) {closer : Closer} (hs : s.closer ≠ .destroyed) (hdestroyed : closer ≠ .destroyed)
    (hjoined : closer = .idle true → s.reader = .absent ∨ s.reader = .finished) :
    ({s with closer := closer} : Link).Sound fd := by
  apply h.go _ h.fd_eq h.started
  · rintro (hidle | hgone)
    · exact hjoined hidle
    · exact absurd hgone hdestroyed
  · unfold live
    cases s.reader with
    | absent => exact (bne_iff_ne.mpr hdestroyed).trans (bne_iff_ne.mpr hs).symm
    | reading | closing | forgetting | finished => rfl

/-- A call that closes nothing. -/
theorem call (h : s.Sound fd) {c : SocketCall} {n : Option ℕ} (hc : c ≠ .close)
    (hpong : c = .pong → n.bind s.kernel = some .upstream) : (s.call c n).Sound fd := by
  refine ⟨h.kernel, h.fd_eq, h.started, h.joined, ?_, ?_⟩
  · rw [closes_call, if_neg hc, List.append_nil]
    exact h.closes
  · intro file hmem
    rcases List.mem_append.mp hmem with hmem | hmem
    · exact h.pongs file hmem
    · obtain ⟨hpong', rfl⟩ := Prod.mk.inj (List.mem_singleton.mp hmem)
      exact hpong hpong'.symm

/-- The step in which the socket is closed. -/
theorem closeFd (h : s.Sound fd) (hlive : s.live = true) (hfd : fd ≠ none) {reader : Reader} {closer : Closer}
    (hgone : ({s.closeFd with reader := reader, closer := closer} : Link).live = false)
    (hreader : reader ≠ .finished) (hjoined : closer = .idle true ∨ closer = .destroyed → reader = .absent) :
    ({s.closeFd with reader := reader, closer := closer} : Link).Sound fd := by
  have htarget := h.target_eq hlive hfd
  obtain ⟨n, rfl⟩ := Option.ne_none_iff_exists'.mp hfd
  have hfd_ : s.fd_ = some n := by
    rw [h.fd_eq, if_neg]
    intro hfinished
    simp [live, hfinished] at hlive
  refine ⟨?_, ?_, ?_, ?_, ?_, ?_⟩
  · intro m
    rw [hgone]
    show (s.fd_.elim s.kernel fun fd => Function.update s.kernel fd none) m = _ ↔ _
    rw [hfd_, Option.elim_some]
    by_cases hm : m = n
    · simp [hm]
    · simp [hm, h.kernel m, Ne.symm hm]
  · rw [if_neg hreader]
    exact hfd_
  · exact fun _ => hfd
  · exact fun hp => .inl (hjoined hp)
  · rw [hgone]
    show (s.call .close s.fd_).closes = _
    rw [closes_call, h.closes, hlive, ← target, htarget]
    simp
  · intro file hmem
    rcases List.mem_append.mp hmem with hmem | hmem
    · exact h.pongs file hmem
    · cases List.mem_singleton.mp hmem

/-- A socket that is still there when the threads are joined had no read thread. -/
theorem absent_of_fd (h : s.Sound fd) (hidle : s.closer = .idle true) (hfd : s.fd_ ≠ none) : s.reader = .absent := by
  apply (h.joined (.inl hidle)).resolve_right
  intro hfinished
  exact hfd (by simpa [hfinished] using h.fd_eq)

theorem step (h : s.Sound fd) {event : LinkEvent} (hstep : machine.step s event = some t) : t.Sound fd := by
  cases event with
  | openOther n =>
    simp only [machine, Link.step] at hstep
    split at hstep
    · next hfree =>
      obtain rfl := Option.some.inj hstep
      apply h.other
      intro m
      by_cases hm : m = n <;> simp [hm, hfree]
    · cases hstep
  | closeOther n =>
    simp only [machine, Link.step] at hstep
    split at hstep
    · next hother =>
      obtain rfl := Option.some.inj hstep
      apply h.other
      intro m
      by_cases hm : m = n <;> simp [hm, hother]
    · cases hstep
  | pong =>
    simp only [machine, Link.step] at hstep
    split at hstep
    · next hreading =>
      obtain rfl := Option.some.inj hstep
      have hlive : s.live = true := by simp [live, hreading]
      exact h.call nofun fun _ => h.target_eq hlive (h.started (by simp [hreading]))
    · cases hstep
  | loopEnds =>
    simp only [machine, Link.step] at hstep
    split at hstep
    · next hreading =>
      obtain rfl := Option.some.inj hstep
      have hfd : fd ≠ none := h.started (by simp [hreading])
      apply h.go _ _ (fun _ => hfd)
      · intro hp
        have hjoined := h.joined hp
        simp [hreading] at hjoined
      · simp [live, hreading]
      · simpa [hreading] using h.fd_eq
    · cases hstep
  | readerCloses =>
    simp only [machine, Link.step] at hstep
    split at hstep
    · next hclosing =>
      obtain rfl := Option.some.inj hstep
      have hlive : s.live = true := by simp [live, hclosing]
      apply h.closeFd hlive (h.started (by simp [hclosing])) rfl (by decide)
      intro hp
      have hjoined := h.joined hp
      simp [hclosing] at hjoined
    · cases hstep
  | readerForgets =>
    simp only [machine, Link.step] at hstep
    split at hstep
    · next hforgetting =>
      obtain rfl := Option.some.inj hstep
      exact h.go (by simp [live, hforgetting]) rfl (fun _ => h.started (by simp [hforgetting])) fun _ => .inr rfl
    · cases hstep
  | check =>
    simp only [machine, Link.step] at hstep
    split at hstep
    · next joined hidle =>
      obtain rfl := Option.some.inj hstep
      apply h.owner
      · simp [hidle]
      · split <;> simp
      · split <;> simp
    · cases hstep
  | load =>
    simp only [machine, Link.step] at hstep
    split at hstep
    · next hchecked =>
      obtain rfl := Option.some.inj hstep
      exact h.owner (by simp [hchecked]) nofun nofun
    · next hannounced =>
      obtain rfl := Option.some.inj hstep
      exact h.owner (by simp [hannounced]) nofun nofun
    · cases hstep
  | sendClose last =>
    simp only [machine, Link.step] at hstep
    split at hstep
    · next n hsending =>
      obtain rfl := Option.some.inj hstep
      have hcall : (s.call .closeFrame n).Sound fd := h.call nofun nofun
      apply hcall.owner (by simp [Link.call, hsending])
      · cases last <;> simp
      · cases last <;> simp
    · cases hstep
  | shutdown =>
    simp only [machine, Link.step] at hstep
    split at hstep
    · next n hshutting =>
      obtain rfl := Option.some.inj hstep
      have hcall : (s.call .shutdown n).Sound fd := h.call nofun nofun
      exact hcall.owner (by simp [Link.call, hshutting]) nofun nofun
    · cases hstep
  | join =>
    simp only [machine, Link.step] at hstep
    split at hstep
    · next hjoin =>
      obtain rfl := Option.some.inj hstep
      exact h.owner (by simp [hjoin.1]) nofun fun _ => hjoin.2
    · cases hstep
  | destroy =>
    simp only [machine, Link.step] at hstep
    split at hstep
    · next hidle =>
      obtain rfl := Option.some.inj hstep
      have hjoined := h.joined (.inl hidle)
      by_cases hnone : s.fd_ = none
      · rw [if_pos hnone]
        rcases hjoined with habsent | hfinished
        · -- there never was a socket
          have hfd : fd = none := by simpa [habsent, hnone, eq_comm] using h.fd_eq
          have hkernel := h.kernel
          have hcloses : s.closes = [] := by simpa [hfd] using h.closes
          rw [hfd] at hkernel ⊢
          exact ⟨by simpa using hkernel, by simp [hnone], fun hne => absurd habsent hne, fun _ => .inl habsent,
            hcloses.trans (by simp), h.pongs⟩
        · exact h.go (by simp [live, hfinished]) h.fd_eq h.started fun _ => .inr hfinished
      · rw [if_neg hnone]
        have habsent := h.absent_of_fd hidle hnone
        have hfd : fd ≠ none := by
          have hfd_ := h.fd_eq
          simp only [habsent, reduceCtorEq, if_false] at hfd_
          rwa [hfd_] at hnone
        have hlive : s.live = true := by simp [live, habsent, hidle]
        have hclosed : ({s.closeFd with reader := .absent, closer := .destroyed} : Link).Sound fd :=
          h.closeFd hlive hfd rfl (by decide) fun _ => rfl
        rwa [← habsent] at hclosed
    · cases hstep

end Sound

theorem closes_of_mem {s : Link} {file : Option File} (h : (SocketCall.close, file) ∈ s.calls) : file ∈ s.closes :=
  List.mem_filterMap.mpr ⟨_, h, by simp⟩

/-- **The socket is closed once**, by the read thread or by the destructor, and once the client is
destroyed it is not open; Pongs and closes are about no other descriptor, whatever else the
process opens and closes. -/
theorem closed_once (s₀ : Link) (h : s₀.Starts) (events : List LinkEvent) (s : Link)
    (hrun : machine.run s₀ events = some s) :
    (∀ c file, (c, file) ∈ s.calls → c = .pong ∨ c = .close → file = some .upstream) ∧ s.closes.length ≤ 1 ∧
      (s.closer = .destroyed → (∀ fd, s.kernel fd ≠ some .upstream) ∧
        s.closes = if s₀.fd_ = none then [] else [some .upstream]) := by
  have hsound : s.Sound s₀.fd_ := Machine.invariant (fun _ _ _ hs hstep => hs.step hstep) hrun h.sound
  refine ⟨?_, ?_, ?_⟩
  · rintro c file hmem (rfl | rfl)
    · exact hsound.pongs file hmem
    · have hclose := closes_of_mem hmem
      rw [hsound.closes] at hclose
      split at hclose
      · exact List.mem_singleton.mp hclose
      · cases hclose
  · rw [hsound.closes]
    split <;> simp
  · intro hdestroyed
    have hlive : s.live = false := by
      rcases hsound.joined (.inr hdestroyed) with habsent | hfinished
      · simp [live, habsent, hdestroyed]
      · simp [live, hfinished]
    constructor
    · intro fd hfd
      have hopen := ((hsound.kernel fd).mp hfd).2
      rw [hlive] at hopen
      cases hopen
    · rw [hsound.closes, hlive]
      by_cases hfd : s₀.fd_ = none <;> simp [hfd]

/-- A client that has connected, at the descriptor 5. -/
def connected : Link := ⟨fun fd => if fd = 5 then some .upstream else none, some 5, .reading, .idle false, []⟩

theorem starts_connected : connected.Starts := by
  refine ⟨fun fd => ?_, .inl ⟨rfl, nofun⟩, rfl, rfl⟩
  by_cases hfd : fd = 5
  · simp [connected, hfd]
  · simp [connected, hfd, Ne.symm hfd]

/-- The server ends the connection, and its number is taken before the client is closed and destroyed. -/
theorem closed_once_reused : ∃ s, machine.run connected
    [.loopEnds, .readerCloses, .openOther 5, .readerForgets, .check, .join, .destroy] = some s ∧ s.closes = [some .upstream] := by
  have hrun : ∃ s, machine.run connected
      [.loopEnds, .readerCloses, .openOther 5, .readerForgets, .check, .join, .destroy] = some s ∧
        s.closer = .destroyed := ⟨_, rfl, rfl⟩
  obtain ⟨s, hs, hdestroyed⟩ := hrun
  obtain ⟨-, -, hend⟩ := closed_once connected starts_connected _ s hs
  exact ⟨s, hs, (hend hdestroyed).2⟩

/-! ### What the Close frame and the shutdown are about -/

/-- No call was about another's descriptor. -/
def Aimed (s : Link) : Prop := ∀ c file, (c, file) ∈ s.calls → file ≠ some .other

/-- Whether -1 has been written, and whether `close` has in hand what `fd_` was before. -/
structure Seen where
  forgotten : Bool
  held : Bool

def Seen.next (v : Seen) : LinkEvent → Seen
  | .readerForgets => {v with forgotten := true}
  | .load => {v with held := !v.forgotten}
  | _ => v

def seen (events : List LinkEvent) : Seen := events.foldl Seen.next ⟨false, false⟩

def takes (n : ℕ) (taken : Bool) : LinkEvent → Bool
  | .openOther fd => taken || fd == n
  | .closeOther fd => taken && fd != n
  | _ => taken

/-- Somebody else has this number open, going by what was opened and closed. -/
def taken (n : ℕ) (events : List LinkEvent) : Bool := events.foldl (takes n) false

/-- A call of `close` was made with `fd_` as it was before the -1, while somebody else had that number open. -/
def Strays (n : ℕ) (events : List LinkEvent) : Prop :=
  ∃ done event, done ++ [event] <+: events ∧ event.ofClose = true ∧ (seen done).held = true ∧ taken n done = true

theorem seen_concat (events : List LinkEvent) (event : LinkEvent) :
    seen (events ++ [event]) = (seen events).next event := by
  rw [seen, List.foldl_append, ← seen]
  rfl

theorem taken_concat (n : ℕ) (events : List LinkEvent) (event : LinkEvent) :
    taken n (events ++ [event]) = takes n (taken n events) event := by
  rw [taken, List.foldl_append, ← taken]
  rfl

theorem strays_concat (n : ℕ) (events : List LinkEvent) (event : LinkEvent) :
    Strays n (events ++ [event]) ↔
      Strays n events ∨ event.ofClose = true ∧ (seen events).held = true ∧ taken n events = true := by
  constructor
  · rintro ⟨done, call, hdone, hstrays⟩
    rcases List.prefix_concat_iff.mp hdone with heq | hdone
    · obtain ⟨rfl, hcall⟩ := List.append_inj' heq rfl
      obtain rfl := List.head_eq_of_cons_eq hcall
      exact .inr hstrays
    · exact .inl ⟨done, call, hdone, hstrays⟩
  · rintro (⟨done, call, hdone, hstrays⟩ | hstrays)
    · exact ⟨done, call, hdone.trans (List.prefix_append _ _), hstrays⟩
    · exact ⟨events, event, List.prefix_refl _, hstrays⟩

/-- What a run has come to, by its events, if `fd` was the socket's number. -/
structure Follows (fd : Option ℕ) (events : List LinkEvent) (s : Link) : Prop where
  fd_ : s.fd_ = if (seen events).forgotten then none else fd
  inHand : ∀ n, s.closer = .sending n ∨ s.closer = .shutting n → n = if (seen events).held then fd else none
  open_ : ∀ n, fd = some n → (s.kernel n = some .other ↔ taken n events = true)

namespace Follows
variable {fd : Option ℕ} {events : List LinkEvent} {s t : Link}

/-- A step that reads no number, and opens or closes none of somebody else's. -/
theorem go (h : Follows fd events s) {event : LinkEvent} (hseen : (seen events).next event = seen events)
    (htakes : ∀ n, takes n (taken n events) event = taken n events) (hfd : t.fd_ = s.fd_)
    (hkernel : ∀ n, fd = some n → (t.kernel n = some .other ↔ s.kernel n = some .other))
    (hcloser : ∀ n, t.closer = .sending n ∨ t.closer = .shutting n → s.closer = .sending n ∨ s.closer = .shutting n) :
    Follows fd (events ++ [event]) t := by
  refine ⟨?_, ?_, ?_⟩
  · rw [seen_concat, hseen, hfd]
    exact h.fd_
  · intro n hn
    rw [seen_concat, hseen]
    exact h.inHand n (hcloser n hn)
  · intro n hn
    rw [taken_concat, htakes, hkernel n hn]
    exact h.open_ n hn

/-- The number is nobody else's before the socket is closed, nor right after. -/
theorem other_closeFd (hsound : s.Sound fd) (hlive : s.live = true) (n : ℕ) (hn : fd = some n) :
    s.closeFd.kernel n = some .other ↔ s.kernel n = some .other := by
  have hopen : s.kernel n = some .upstream := (hsound.kernel n).mpr ⟨hn, hlive⟩
  have hreader : s.reader ≠ .finished := by
    intro hfinished
    simp [live, hfinished] at hlive
  have hfd_ : s.fd_ = some n := by rw [hsound.fd_eq, if_neg hreader, hn]
  rw [hopen, closeFd, hfd_]
  simp

theorem step (h : Follows fd events s) (hsound : s.Sound fd) {event : LinkEvent}
    (hstep : machine.step s event = some t) : Follows fd (events ++ [event]) t := by
  cases event with
  | openOther m =>
    simp only [machine, Link.step] at hstep
    split at hstep
    · obtain rfl := Option.some.inj hstep
      refine ⟨?_, ?_, ?_⟩
      · rw [seen_concat]
        exact h.fd_
      · rw [seen_concat]
        exact h.inHand
      · intro n hn
        rw [taken_concat, takes, Bool.or_eq_true, ← h.open_ n hn, beq_iff_eq]
        by_cases hm : m = n
        · simp [hm]
        · simp [hm, Ne.symm hm]
    · cases hstep
  | closeOther m =>
    simp only [machine, Link.step] at hstep
    split at hstep
    · obtain rfl := Option.some.inj hstep
      refine ⟨?_, ?_, ?_⟩
      · rw [seen_concat]
        exact h.fd_
      · rw [seen_concat]
        exact h.inHand
      · intro n hn
        rw [taken_concat, takes, Bool.and_eq_true, ← h.open_ n hn, bne_iff_ne]
        by_cases hm : m = n
        · simp [hm]
        · simp [hm, Ne.symm hm]
    · cases hstep
  | pong | loopEnds =>
    simp only [machine, Link.step] at hstep
    split at hstep
    · obtain rfl := Option.some.inj hstep
      exact h.go rfl (fun _ => rfl) rfl (fun _ _ => Iff.rfl) fun _ hn => hn
    · cases hstep
  | readerCloses =>
    simp only [machine, Link.step] at hstep
    split at hstep
    · next hclosing =>
      obtain rfl := Option.some.inj hstep
      exact h.go rfl (fun _ => rfl) rfl (other_closeFd hsound (by simp [live, hclosing])) fun _ hn => hn
    · cases hstep
  | readerForgets =>
    simp only [machine, Link.step] at hstep
    split at hstep
    · obtain rfl := Option.some.inj hstep
      refine ⟨?_, ?_, ?_⟩
      · rw [seen_concat]
        rfl
      · rw [seen_concat]
        exact h.inHand
      · intro n hn
        rw [taken_concat]
        exact h.open_ n hn
    · cases hstep
  | check =>
    simp only [machine, Link.step] at hstep
    split at hstep
    · obtain rfl := Option.some.inj hstep
      refine h.go rfl (fun _ => rfl) rfl (fun _ _ => Iff.rfl) fun n hn => ?_
      split at hn <;> simp at hn
    · cases hstep
  | load =>
    have hload : ∀ closer : Closer, (∀ n, closer = .sending n ∨ closer = .shutting n → n = s.fd_) →
        Follows fd (events ++ [.load]) {s with closer := closer} := by
      intro closer hcloser
      refine ⟨?_, ?_, ?_⟩
      · rw [seen_concat]
        exact h.fd_
      · intro n hn
        rw [seen_concat, hcloser n hn, h.fd_, Seen.next]
        cases (seen events).forgotten <;> rfl
      · intro n hn
        rw [taken_concat]
        exact h.open_ n hn
    simp only [machine, Link.step] at hstep
    split at hstep
    · obtain rfl := Option.some.inj hstep
      exact hload _ fun n hn => by simpa [eq_comm] using hn
    · obtain rfl := Option.some.inj hstep
      exact hload _ fun n hn => by simpa [eq_comm] using hn
    · cases hstep
  | sendClose last =>
    simp only [machine, Link.step] at hstep
    split at hstep
    · next n hsending =>
      obtain rfl := Option.some.inj hstep
      refine h.go rfl (fun _ => rfl) rfl (fun _ _ => Iff.rfl) fun m hm => ?_
      cases last with
      | true => simp at hm
      | false => exact .inl (hsending.trans (by simpa using hm))
    · cases hstep
  | shutdown =>
    simp only [machine, Link.step] at hstep
    split at hstep
    · obtain rfl := Option.some.inj hstep
      exact h.go rfl (fun _ => rfl) rfl (fun _ _ => Iff.rfl) fun _ hn => by simp at hn
    · cases hstep
  | join =>
    simp only [machine, Link.step] at hstep
    split at hstep
    · obtain rfl := Option.some.inj hstep
      exact h.go rfl (fun _ => rfl) rfl (fun _ _ => Iff.rfl) fun _ hn => by simp at hn
    · cases hstep
  | destroy =>
    simp only [machine, Link.step] at hstep
    split at hstep
    · next hidle =>
      obtain rfl := Option.some.inj hstep
      split
      · exact h.go rfl (fun _ => rfl) rfl (fun _ _ => Iff.rfl) fun _ hn => by simp at hn
      · next hfd =>
        have hlive : s.live = true := by simp [live, hsound.absent_of_fd hidle hfd, hidle]
        exact h.go rfl (fun _ => rfl) rfl (other_closeFd hsound hlive) fun _ hn => by simp at hn
    · cases hstep

end Follows

section Aimed
variable {fd : Option ℕ} {s t : Link} {event : LinkEvent}

theorem aimed_call {c : SocketCall} {file : Option File} (h : t.calls = s.calls ++ [(c, file)]) :
    t.Aimed ↔ s.Aimed ∧ file ≠ some .other := by
  simp only [Aimed, h, List.mem_append, List.mem_singleton, Prod.mk.injEq]
  constructor
  · exact fun ht => ⟨fun d g hd => ht d g (.inl hd), ht c file (.inr ⟨rfl, rfl⟩)⟩
  · rintro ⟨hs, hfile⟩ d g (hd | ⟨-, rfl⟩)
    · exact hs d g hd
    · exact hfile

/-- A call made while the socket is open is about the socket. -/
theorem aimed_live (hsound : s.Sound fd) (hlive : s.live = true) (hfd : fd ≠ none) {c : SocketCall}
    (h : t.calls = (s.call c s.fd_).calls) : t.Aimed ↔ s.Aimed := by
  have htarget : s.fd_.bind s.kernel = some .upstream := hsound.target_eq hlive hfd
  rw [aimed_call h, htarget]
  exact and_iff_left nofun

/-- No other calls stray. -/
theorem aimed_other (hsound : s.Sound fd) (hevent : event.ofClose = false) (hstep : machine.step s event = some t) :
    t.Aimed ↔ s.Aimed := by
  cases event with
  | sendClose last => cases hevent
  | shutdown => cases hevent
  | pong =>
    simp only [machine, step] at hstep
    split at hstep
    · next hreading =>
      obtain rfl := Option.some.inj hstep
      exact aimed_live hsound (by simp [live, hreading]) (hsound.started (by simp [hreading])) rfl
    · cases hstep
  | readerCloses =>
    simp only [machine, step] at hstep
    split at hstep
    · next hclosing =>
      obtain rfl := Option.some.inj hstep
      exact aimed_live hsound (by simp [live, hclosing]) (hsound.started (by simp [hclosing])) rfl
    · cases hstep
  | destroy =>
    simp only [machine, step] at hstep
    split at hstep
    · next hidle =>
      obtain rfl := Option.some.inj hstep
      split
      · exact Iff.rfl
      · next hfd =>
        have habsent := hsound.absent_of_fd hidle hfd
        have hsocket : fd ≠ none := by simpa [hsound.fd_eq, habsent] using hfd
        exact aimed_live hsound (by simp [live, habsent, hidle]) hsocket rfl
    · cases hstep
  | openOther | closeOther | loopEnds | readerForgets | check | join =>
    simp only [machine, step] at hstep
    split at hstep
    · obtain rfl := Option.some.inj hstep
      exact Iff.rfl
    · cases hstep
  | load =>
    simp only [machine, step] at hstep
    split at hstep
    · obtain rfl := Option.some.inj hstep
      exact Iff.rfl
    · obtain rfl := Option.some.inj hstep
      exact Iff.rfl
    · cases hstep

/-- A call of `close` is about what the number it has in hand denotes. -/
theorem calls_ofClose (hevent : event.ofClose = true) (hstep : machine.step s event = some t) :
    ∃ c n, (s.closer = .sending n ∨ s.closer = .shutting n) ∧ t.calls = s.calls ++ [(c, n.bind s.kernel)] := by
  cases event with
  | sendClose last =>
    simp only [machine, step] at hstep
    split at hstep
    · next n hsending =>
      obtain rfl := Option.some.inj hstep
      exact ⟨_, n, .inl hsending, rfl⟩
    · cases hstep
  | shutdown =>
    simp only [machine, step] at hstep
    split at hstep
    · next n hshutting =>
      obtain rfl := Option.some.inj hstep
      exact ⟨_, n, .inr hshutting, rfl⟩
    · cases hstep
  | _ => cases hevent

/-- It strays exactly if that number was read before the -1 and is somebody else's by now. -/
theorem aimed_ofClose {events : List LinkEvent} (h : Follows fd events s) (hevent : event.ofClose = true)
    (hstep : machine.step s event = some t) :
    t.Aimed ↔ s.Aimed ∧ ∀ n, fd = some n → ¬ ((seen events).held = true ∧ taken n events = true) := by
  obtain ⟨c, m, hcloser, hcalls⟩ := calls_ofClose hevent hstep
  rw [aimed_call hcalls]
  refine and_congr_right fun _ => ?_
  rw [h.inHand m hcloser]
  cases (seen events).held with
  | false => simp
  | true =>
    cases fd with
    | none => simp
    | some n => simp [h.open_ n rfl]

end Aimed

/-- **A call of `close` meets another's descriptor exactly if it has a number from before the -1 that
somebody else has opened again** by the time it is made; all other calls meet the socket. -/
theorem aimed_iff (s₀ : Link) (h : s₀.Starts) (events : List LinkEvent) (s : Link)
    (hrun : machine.run s₀ events = some s) : s.Aimed ↔ ∀ n, s₀.fd_ = some n → ¬ Strays n events := by
  suffices hall : s.Sound s₀.fd_ ∧ Follows s₀.fd_ events s ∧ (s.Aimed ↔ ∀ n, s₀.fd_ = some n → ¬ Strays n events) from
    hall.2.2
  induction events using List.reverseRecOn generalizing s with
  | nil =>
    obtain rfl := Option.some.inj hrun
    refine ⟨h.sound, ⟨rfl, ?_, ?_⟩, ?_⟩
    · intro n hn
      rw [h.closer] at hn
      exact hn.elim nofun nofun
    · intro n hn
      rw [(h.kernel n).mpr hn]
      exact iff_of_false nofun nofun
    · refine iff_of_true ?_ ?_
      · rw [Aimed, h.calls]
        exact fun _ _ hmem => nomatch hmem
      · rintro n - ⟨done, event, hdone, -⟩
        exact absurd (List.prefix_nil.mp hdone) (by simp)
  | append_singleton events event ih =>
    rw [Machine.run_concat] at hrun
    obtain ⟨u, hu, hstep⟩ := Option.bind_eq_some_iff.mp hrun
    obtain ⟨hsound, hfollows, haimed⟩ := ih u hu
    refine ⟨hsound.step hstep, hfollows.step hsound hstep, ?_⟩
    simp only [strays_concat, not_or, forall_and]
    cases hevent : event.ofClose with
    | false =>
      rw [aimed_other hsound hevent hstep, haimed]
      simp
    | true =>
      rw [aimed_ofClose hfollows hevent hstep, haimed]
      simp

/-- The number is taken between the look at `fd_` and the call it is for. -/
theorem aimed_iff_reused : ∃ s, machine.run connected
    [.loopEnds, .check, .load, .readerCloses, .openOther 5, .sendClose true] = some s ∧ ¬ s.Aimed := by
  have hrun : ∃ s, machine.run connected
      [.loopEnds, .check, .load, .readerCloses, .openOther 5, .sendClose true] = some s := ⟨_, rfl⟩
  obtain ⟨s, hs⟩ := hrun
  refine ⟨s, hs, fun haimed => ?_⟩
  exact (aimed_iff connected starts_connected _ s hs).mp haimed 5 rfl
    ⟨[.loopEnds, .check, .load, .readerCloses, .openOther 5], .sendClose true, List.prefix_refl _, rfl, rfl, rfl⟩

end Link

end VrxServer.SdrConnect
