import VrxServer.Base.Interleave
import VrxServer.Base.Run
import Mathlib.Data.List.Nodup
import Mathlib.Logic.Function.Basic

/-! The rtl_tcp endpoint of one receiver.

A client is sent a header when it is accepted and I/Q bytes from then on, with nothing
between them to find a boundary by: which byte is an I is known only by counting. The
bytes of a broadcast are opaque to the server, so it is stated for bytes of any kind. -/
namespace VrxServer.RtlTcp
open Base

/-- Magic, tuner type and gain count, the numbers most significant byte first. -/
def buildDongleInfoHeader : List UInt8 := [82, 84, 76, 48, 0, 0, 0, 6, 0, 0, 0, 0]

structure Server (β : Type) where
  clientFds : List ℕ
  /-- The descriptor the accept thread has sent the header to and not yet registered. -/
  accepting : Option ℕ
  /-- What each connection has been sent: the header, then I/Q bytes. -/
  header : ℕ → List UInt8
  iq : ℕ → List β

inductive Op (β : Type) where
  | accept (fd : ℕ)
  | register
  | removeClient (fd : ℕ)
  /-- `outcome` is how much each client's non-blocking send accepts, 0 where it fails. -/
  | broadcastIq (data : List β) (outcome : ℕ → ℕ)

namespace Server
variable {β : Type}

def initial : Server β := ⟨[], none, fun _ => [], fun _ => []⟩

/-- One round of the broadcast loop. -/
def sendTo (data : List β) (outcome : ℕ → ℕ) (s : Server β) (fd : ℕ) : Server β :=
  {s with iq := Function.update s.iq fd (s.iq fd ++ data.take (outcome fd))}

def broadcastIq (s : Server β) (data : List β) (outcome : ℕ → ℕ) : Server β :=
  s.clientFds.foldl (sendTo data outcome) s

/-- A descriptor that is accepted is one that was closed, and so one that is not registered. -/
def step (s : Server β) : Op β → Option (Server β)
  | .accept fd =>
    if s.accepting = none ∧ fd ∉ s.clientFds then
      some {s with
        accepting := some fd
        header := Function.update s.header fd buildDongleInfoHeader
        iq := Function.update s.iq fd [] }
    else none
  | .register =>
    match s.accepting with
    | some fd => some {s with clientFds := s.clientFds ++ [fd], accepting := none}
    | none => none
  | .removeClient fd => some {s with clientFds := s.clientFds.filter (· ≠ fd)}
  | .broadcastIq data outcome => some (s.broadcastIq data outcome)

def machine : Machine (Server β) (Op β) := ⟨step⟩

/-- No descriptor is registered twice. -/
def Distinct (s : Server β) : Prop := s.clientFds.Nodup ∧ ∀ fd, s.accepting = some fd → fd ∉ s.clientFds

theorem sendLoop_spec (data : List β) (outcome : ℕ → ℕ) {fds : List ℕ} (hnodup : fds.Nodup) (s : Server β) :
    (fds.foldl (sendTo data outcome) s).clientFds = s.clientFds ∧
      (fds.foldl (sendTo data outcome) s).accepting = s.accepting ∧
      ∀ g, (fds.foldl (sendTo data outcome) s).iq g =
        if g ∈ fds then s.iq g ++ data.take (outcome g) else s.iq g := by
  induction fds generalizing s with
  | nil => simp
  | cons fd fds ih =>
    obtain ⟨hfd, hnodup⟩ := List.nodup_cons.mp hnodup
    obtain ⟨hfds, haccepting, hiq⟩ := ih hnodup (sendTo data outcome s fd)
    rw [List.foldl_cons]
    refine ⟨hfds, haccepting, fun g => ?_⟩
    rw [hiq]
    by_cases hg : g = fd
    · subst hg
      simp [hfd, sendTo]
    · simp [hg, sendTo]

/-- A broadcast appends to every registered client's stream what its send accepts. -/
theorem broadcastIq_spec (s : Server β) (h : s.Distinct) (data : List β) (outcome : ℕ → ℕ) :
    (s.broadcastIq data outcome).clientFds = s.clientFds ∧
      (s.broadcastIq data outcome).accepting = s.accepting ∧
      ∀ fd, (s.broadcastIq data outcome).iq fd =
        if fd ∈ s.clientFds then s.iq fd ++ data.take (outcome fd) else s.iq fd :=
  sendLoop_spec data outcome h.1 s

theorem distinct_step (s : Server β) (op : Op β) (t : Server β) (h : s.Distinct) (hstep : machine.step s op = some t) :
    t.Distinct := by
  obtain ⟨hnodup, hnew⟩ := h
  cases op with
  | accept fd =>
    simp only [machine, step] at hstep
    split at hstep
    · next hcond =>
      obtain rfl := Option.some.inj hstep
      refine ⟨hnodup, fun g hg => ?_⟩
      obtain rfl := Option.some.inj hg
      exact hcond.2
    · cases hstep
  | register =>
    simp only [machine, step] at hstep
    split at hstep
    · next fd haccepting =>
      obtain rfl := Option.some.inj hstep
      refine ⟨?_, fun g hg => nomatch hg⟩
      exact List.nodup_append.mpr ⟨hnodup, List.nodup_singleton fd, fun a ha b hb => by
        obtain rfl := List.mem_singleton.mp hb
        intro hp
        obtain rfl := hp
        exact hnew _ haccepting ha⟩
    · cases hstep
  | removeClient fd =>
    obtain rfl := Option.some.inj hstep
    refine ⟨hnodup.filter _, fun g hg hmem => hnew g hg (List.mem_of_mem_filter hmem)⟩
  | broadcastIq data outcome =>
    obtain rfl := Option.some.inj hstep
    obtain ⟨hfds, haccepting, -⟩ := broadcastIq_spec s ⟨hnodup, hnew⟩ data outcome
    rw [Distinct, hfds, haccepting]
    exact ⟨hnodup, hnew⟩

end Server

end VrxServer.RtlTcp
