import VrxServer.RtlTcp.Server
import Mathlib.Algebra.Ring.Parity
import Mathlib.Data.Set.List

/-! The I/Q alignment of what a client receives.

Label every byte of a broadcast with the sample it is of, and as its I or its Q byte. A
client stays aligned while it counts I, Q, I, Q and every Q follows its own I. A short
write of odd length loses that for good: the next broadcast starts with an I byte where a
Q is due. So a stream is whole pairs all along exactly when every send accepts an even
number of bytes, and it is merely aligned exactly when nothing is accepted any more after
an odd number has been (`aligned_always_iff`). -/
namespace VrxServer.RtlTcp
open Base

/-- A byte and the sample it belongs to. -/
inductive IqByte (σ : Type) where
  | i (s : σ)
  | q (s : σ)
  deriving DecidableEq

variable {σ : Type}

/-- A chunk of samples as a broadcast is given it. -/
def iqBytes (samples : List σ) : List (IqByte σ) := interleave (samples.map fun s => (.i s, .q s))

/-- Bytes at even offsets are I bytes, and those at odd offsets the Q bytes of the same samples. -/
def Aligned (w : List (IqByte σ)) : Prop :=
  (∀ k b, w[k * 2]? = some b → ∃ s, b = .i s) ∧
    ∀ k b, w[k * 2 + 1]? = some b → ∃ s, b = .q s ∧ w[k * 2]? = some (.i s)

/-- Whole pairs and nothing else. -/
def Paired (w : List (IqByte σ)) : Prop := ∃ samples, w = iqBytes samples

/-! ### Alignment and length -/

theorem aligned_iqBytes (samples : List σ) : Aligned (iqBytes samples) := by
  constructor
  · intro k b hb
    rw [iqBytes, (getElem?_interleave _ k).1, List.getElem?_map] at hb
    cases hs : samples[k]? with
    | none => simp [hs] at hb
    | some s => exact ⟨s, by simpa [hs] using hb.symm⟩
  · intro k b hb
    rw [iqBytes, (getElem?_interleave _ k).2, List.getElem?_map] at hb
    rw [iqBytes, (getElem?_interleave _ k).1, List.getElem?_map]
    cases hs : samples[k]? with
    | none => simp [hs] at hb
    | some s => exact ⟨s, by simpa [hs] using hb.symm, by simp⟩

theorem Aligned.take {w : List (IqByte σ)} (h : Aligned w) (n : ℕ) : Aligned (w.take n) := by
  constructor
  · intro k b hb
    rw [List.getElem?_take] at hb
    split at hb
    · exact h.1 k b hb
    · cases hb
  · intro k b hb
    rw [List.getElem?_take] at hb ⊢
    split at hb
    · rw [if_pos (by omega)]
      exact h.2 k b hb
    · cases hb

/-- Behind an even number of bytes an aligned stream goes on aligned. -/
theorem Aligned.append {w x : List (IqByte σ)} (hw : Aligned w) (hx : Aligned x) (heven : Even w.length) :
    Aligned (w ++ x) := by
  obtain ⟨m, hm⟩ := heven
  have hright : ∀ n, w.length ≤ n → (w ++ x)[n]? = x[n - w.length]? := fun n h => List.getElem?_append_right h
  have hleft : ∀ n, n < w.length → (w ++ x)[n]? = w[n]? := fun n h => List.getElem?_append_left h
  constructor
  · intro k b hb
    rcases Nat.lt_or_ge (k * 2) w.length with hlt | hge
    · rw [hleft _ hlt] at hb
      exact hw.1 k b hb
    · rw [hright _ hge, show k * 2 - w.length = (k - m) * 2 by omega] at hb
      exact hx.1 _ b hb
  · intro k b hb
    rcases Nat.lt_or_ge (k * 2 + 1) w.length with hlt | hge
    · rw [hleft _ hlt] at hb
      rw [hleft _ (by omega)]
      exact hw.2 k b hb
    · rw [hright _ hge, show k * 2 + 1 - w.length = (k - m) * 2 + 1 by omega] at hb
      rw [hright _ (by omega), show k * 2 - w.length = (k - m) * 2 by omega]
      exact hx.2 _ b hb

/-- Behind an odd number of bytes nothing aligned can follow. -/
theorem not_aligned_append {w x : List (IqByte σ)} (hx : Aligned x) (hne : x ≠ []) (hodd : ¬ Even w.length) :
    ¬ Aligned (w ++ x) := by
  intro h
  obtain ⟨b, rest, rfl⟩ := List.exists_cons_of_ne_nil hne
  obtain ⟨k, hk⟩ := Nat.not_even_iff_odd.mp hodd
  obtain ⟨s, rfl⟩ := hx.1 0 b rfl
  have hget : (w ++ IqByte.i s :: rest)[k * 2 + 1]? = some (.i s) := by
    rw [List.getElem?_append_right (by omega), show k * 2 + 1 - w.length = 0 by omega]
    rfl
  obtain ⟨s', hs', -⟩ := h.2 k _ hget
  cases hs'

/-- Whole pairs are an aligned stream of even length. -/
theorem paired_iff (w : List (IqByte σ)) : Paired w ↔ Aligned w ∧ Even w.length := by
  constructor
  · intro hp
    obtain ⟨samples, rfl⟩ := hp
    refine ⟨aligned_iqBytes samples, ?_⟩
    rw [iqBytes, length_interleave]
    exact even_two.mul_left _
  · intro hp
    obtain ⟨haligned, heven⟩ := hp
    obtain ⟨ps, rfl⟩ := exists_interleave heven
    have hpair : ∀ p ∈ ps, p ∈ Set.range fun s : σ => (IqByte.i s, IqByte.q s) := by
      intro p hp
      obtain ⟨k, hk, rfl⟩ := List.getElem_of_mem hp
      have hget := getElem?_interleave ps k
      rw [List.getElem?_eq_getElem hk, Option.map_some, Option.map_some] at hget
      obtain ⟨s, hs, hfirst⟩ := haligned.2 k _ hget.2
      rw [hget.1] at hfirst
      exact ⟨s, (Prod.ext (Option.some.inj hfirst) hs).symm⟩
    obtain ⟨samples, rfl⟩ : ps ∈ Set.range (List.map fun s : σ => (IqByte.i s, IqByte.q s)) := by
      rw [Set.range_list_map]
      exact hpair
    exact ⟨samples, rfl⟩

theorem aligned_take_iqBytes (samples : List σ) (n : ℕ) : Aligned ((iqBytes samples).take n) :=
  (aligned_iqBytes samples).take n

/-! ### Runs -/

/-- The server, fed chunks of samples. -/
inductive ChunkOp (σ : Type) where
  | accept (fd : ℕ)
  | register
  | removeClient (fd : ℕ)
  | broadcastIq (samples : List σ) (outcome : ℕ → ℕ)

/-- The server's operation: a broadcast is given the samples' bytes. -/
def ChunkOp.op : ChunkOp σ → Op (IqByte σ)
  | .accept fd => .accept fd
  | .register => .register
  | .removeClient fd => .removeClient fd
  | .broadcastIq samples outcome => .broadcastIq (iqBytes samples) outcome

def chunkMachine : Machine (Server (IqByte σ)) (ChunkOp σ) := ⟨fun s op => s.step op.op⟩

/-- How many bytes a registered client accepts of a broadcast. -/
def accepted (samples : List σ) (outcome : ℕ → ℕ) (fd : ℕ) : ℕ := min (outcome fd) (samples.length * 2)

/-- A broadcast to the client is accepted in whole pairs. -/
def EvenWrite (fd : ℕ) (s : Server (IqByte σ)) : ChunkOp σ → Prop
  | .broadcastIq samples outcome => fd ∈ s.clientFds → Even (accepted samples outcome fd)
  | _ => True

/-- A broadcast to the client comes while it has been sent whole pairs, or is not accepted at all. -/
def InStep (fd : ℕ) (s : Server (IqByte σ)) : ChunkOp σ → Prop
  | .broadcastIq samples outcome =>
    fd ∈ s.clientFds → Even (s.iq fd).length ∨ accepted samples outcome fd = 0
  | _ => True

/-- What a step does to a client's stream: it is empty, as it was, or longer by what a
broadcast had accepted. -/
theorem chunk_step_iq {s t : Server (IqByte σ)} (h : s.Distinct) {op : ChunkOp σ} (fd : ℕ)
    (hstep : chunkMachine.step s op = some t) :
    (t.iq fd = [] ∨ t.iq fd = s.iq fd) ∧ EvenWrite fd s op ∧ InStep fd s op ∨
      ∃ samples outcome, op = .broadcastIq samples outcome ∧ fd ∈ s.clientFds ∧
        t.iq fd = s.iq fd ++ (iqBytes samples).take (outcome fd) := by
  cases op with
  | accept g =>
    left
    refine ⟨?_, trivial, trivial⟩
    simp only [chunkMachine, ChunkOp.op, Server.step] at hstep
    split at hstep
    · obtain rfl := Option.some.inj hstep
      by_cases hg : fd = g
      · subst hg
        exact .inl (Function.update_self ..)
      · exact .inr (Function.update_of_ne hg ..)
    · cases hstep
  | register =>
    left
    refine ⟨?_, trivial, trivial⟩
    simp only [chunkMachine, ChunkOp.op, Server.step] at hstep
    split at hstep
    · obtain rfl := Option.some.inj hstep
      exact .inr rfl
    · cases hstep
  | removeClient g =>
    left
    obtain rfl := Option.some.inj hstep
    exact ⟨.inr rfl, trivial, trivial⟩
  | broadcastIq samples outcome =>
    obtain rfl := Option.some.inj hstep
    have hiq := (Server.broadcastIq_spec s h (iqBytes samples) outcome).2.2 fd
    by_cases hfd : fd ∈ s.clientFds
    · rw [if_pos hfd] at hiq
      exact .inr ⟨samples, outcome, rfl, hfd, hiq⟩
    · rw [if_neg hfd] at hiq
      exact .inl ⟨.inr hiq, fun h => absurd h hfd, fun h => absurd h hfd⟩

theorem length_take_iqBytes (samples : List σ) (outcome : ℕ → ℕ) (fd : ℕ) :
    ((iqBytes samples).take (outcome fd)).length = accepted samples outcome fd := by
  rw [List.length_take, iqBytes, length_interleave, List.length_map]
  rfl

theorem aligned_nil : Aligned ([] : List (IqByte σ)) := aligned_iqBytes []

theorem paired_nil : Paired ([] : List (IqByte σ)) := ⟨[], rfl⟩

theorem paired_step (fd : ℕ) (s : Server (IqByte σ)) (op : ChunkOp σ) (t : Server (IqByte σ)) (h : s.Distinct)
    (hs : Paired (s.iq fd)) (hstep : chunkMachine.step s op = some t) : Paired (t.iq fd) ↔ EvenWrite fd s op := by
  rcases chunk_step_iq h fd hstep with ⟨hnil | hsame, hwrite, -⟩ | ⟨samples, outcome, rfl, hfd, hiq⟩
  · exact iff_of_true (hnil ▸ paired_nil) hwrite
  · exact iff_of_true (hsame ▸ hs) hwrite
  · obtain ⟨haligned, heven⟩ := (paired_iff _).mp hs
    have hall := haligned.append (aligned_take_iqBytes samples (outcome fd)) heven
    rw [hiq, paired_iff, and_iff_right hall, List.length_append, Nat.even_add, length_take_iqBytes]
    exact ⟨fun h _ => h.mp heven, fun h => ⟨fun _ => h hfd, fun _ => heven⟩⟩

theorem aligned_step (fd : ℕ) (s : Server (IqByte σ)) (op : ChunkOp σ) (t : Server (IqByte σ)) (h : s.Distinct)
    (hs : Aligned (s.iq fd)) (hstep : chunkMachine.step s op = some t) : Aligned (t.iq fd) ↔ InStep fd s op := by
  rcases chunk_step_iq h fd hstep with ⟨hnil | hsame, -, hwrite⟩ | ⟨samples, outcome, rfl, hfd, hiq⟩
  · exact iff_of_true (hnil ▸ aligned_nil) hwrite
  · exact iff_of_true (hsame ▸ hs) hwrite
  · have hchunk := aligned_take_iqBytes samples (outcome fd)
    have hempty : accepted samples outcome fd = 0 ↔ (iqBytes samples).take (outcome fd) = [] := by
      rw [← length_take_iqBytes, List.length_eq_zero_iff]
    rw [hiq]
    by_cases heven : Even (s.iq fd).length
    · exact iff_of_true (hs.append hchunk heven) fun _ => .inl heven
    · by_cases hnone : (iqBytes samples).take (outcome fd) = []
      · rw [hnone, List.append_nil]
        exact iff_of_true hs fun _ => .inr (hempty.mpr hnone)
      · refine iff_of_false (not_aligned_append hchunk hnone heven) fun h => ?_
        exact (h hfd).elim heven fun h0 => hnone (hempty.mp h0)

theorem chunk_distinct_step (s : Server (IqByte σ)) (op : ChunkOp σ) (t : Server (IqByte σ)) (h : s.Distinct)
    (hstep : chunkMachine.step s op = some t) : t.Distinct :=
  Server.distinct_step s op.op t h hstep

/-- **A client's stream is whole pairs all along a run exactly when all its sends accept
even numbers of bytes, and aligned exactly when nothing is accepted behind an odd number.** -/
theorem aligned_always_iff (fd : ℕ) (ops : List (ChunkOp σ)) :
    (chunkMachine.Always (fun s => Paired (s.iq fd)) Server.initial ops ↔
      chunkMachine.Allowed (EvenWrite fd) Server.initial ops) ∧
    (chunkMachine.Always (fun s => Aligned (s.iq fd)) Server.initial ops ↔
      chunkMachine.Allowed (InStep fd) Server.initial ops) := by
  have hstart : (Server.initial : Server (IqByte σ)).Distinct := ⟨List.nodup_nil, fun _ h => nomatch h⟩
  exact ⟨Machine.always_iff_allowed chunk_distinct_step (paired_step fd) hstart paired_nil,
    Machine.always_iff_allowed chunk_distinct_step (aligned_step fd) hstart aligned_nil⟩

/-- Two chunks of two samples, the first accepted up to the middle of its second sample. -/
def oddWrite : List (ChunkOp ℕ) :=
  [.accept 4, .register, .broadcastIq [0, 1] fun _ => 3, .broadcastIq [2, 3] fun _ => 4]

/-- After a short write of odd length the client takes the next I for a Q. -/
theorem odd_write_misaligns : ¬ ∀ (fd : ℕ) (ops : List (ChunkOp ℕ)),
    chunkMachine.Always (fun s => Aligned (s.iq fd)) Server.initial ops := by
  intro h
  have haligned := h 4 oddWrite _ _ (List.prefix_refl _) rfl
  obtain ⟨s, hs, -⟩ := haligned.2 1 (.i 2) rfl
  cases hs

end VrxServer.RtlTcp
