import Mathlib.Data.List.Nodup
import Mathlib.Data.List.Perm.Basic
import Mathlib.Logic.Function.Basic

/-! Kernel descriptors handed from an accept loop to a thread each.

A program knows a connection by its descriptor alone, and a descriptor's number is given
out again as soon as it is closed. Owners accept connections, one at a time, register each
under its number and leave it to a thread, which in the end takes the number off the
register and only then closes it. In that order (`Move`) a number on a register is open
and is the connection it was put there for, whichever moves come between (`Sound`). -/
namespace VrxServer.Base.Descriptors

/-- What an open descriptor denotes. -/
inductive File where
  | connection (c : ℕ)
  | other
  deriving DecidableEq

/-- Where a connection is on its way. -/
inductive Standing where
  | accepted
  | registered
  | served
  | unregistered
  | closed
  deriving DecidableEq

/-- The owner's accept loop is still at it. -/
def Standing.accepting : Standing → Bool
  | .accepted | .registered => true
  | _ => false

def Standing.enrolled : Standing → Bool
  | .registered | .served => true
  | _ => false

/-- The one after it. -/
def Standing.next : Standing → Standing
  | .accepted => .registered
  | .registered => .served
  | .served => .unregistered
  | .unregistered | .closed => .closed

structure Conn (ι : Type) where
  owner : ι
  fd : ℕ
  standing : Standing

/-- Connections are numbered for good, descriptors over and over. -/
structure Table (ι : Type) where
  kernel : ℕ → Option File
  conns : ℕ → Option (Conn ι)
  /-- The connection an owner's accept loop is at. -/
  busy : ι → Option ℕ
  /-- An owner's descriptors, each with the connection it was registered for. -/
  register : ι → List (ℕ × ℕ)

variable {ι : Type}

namespace Table

def empty : Table ι := ⟨fun _ => none, fun _ => none, fun _ => none, fun _ => []⟩

/-- The kernel, the accept loops and the registers name connections there are, and each
connection where its standing says. -/
structure Sound (T : Table ι) : Prop where
  kernel_known : ∀ {fd c}, T.kernel fd = some (.connection c) → ∃ k, T.conns c = some k ∧ k.fd = fd
  busy_known : ∀ {i c}, T.busy i = some c → ∃ k, T.conns c = some k ∧ k.owner = i
  register_known : ∀ {i e}, e ∈ T.register i → ∃ k, T.conns e.2 = some k ∧ k.owner = i ∧ k.fd = e.1
  opened : ∀ {c k}, T.conns c = some k → (T.kernel k.fd = some (.connection c) ↔ k.standing ≠ .closed)
  accepting : ∀ {c k}, T.conns c = some k → (T.busy k.owner = some c ↔ k.standing.accepting = true)
  enrolled : ∀ {c k}, T.conns c = some k → ((k.fd, c) ∈ T.register k.owner ↔ k.standing.enrolled = true)
  distinct : ∀ i, ((T.register i).map Prod.fst).Nodup

namespace Sound
variable {T : Table ι}

theorem empty : (Table.empty : Table ι).Sound := by
  refine ⟨?_, ?_, ?_, ?_, ?_, ?_, ?_⟩ <;> simp [Table.empty]

section
variable {c : ℕ} {k : Conn ι}

theorem kernel_iff (h : T.Sound) (hk : T.conns c = some k) (fd : ℕ) :
    T.kernel fd = some (.connection c) ↔ fd = k.fd ∧ k.standing ≠ .closed := by
  constructor
  · intro hfd
    obtain ⟨l, hl, rfl⟩ := h.kernel_known hfd
    obtain rfl := Option.some.inj (hk.symm.trans hl)
    exact ⟨rfl, (h.opened hk).mp hfd⟩
  · intro hp
    obtain ⟨rfl, hopen⟩ := hp
    exact (h.opened hk).mpr hopen

theorem busy_iff (h : T.Sound) (hk : T.conns c = some k) (i : ι) :
    T.busy i = some c ↔ i = k.owner ∧ k.standing.accepting = true := by
  constructor
  · intro hi
    obtain ⟨l, hl, rfl⟩ := h.busy_known hi
    obtain rfl := Option.some.inj (hk.symm.trans hl)
    exact ⟨rfl, (h.accepting hk).mp hi⟩
  · intro hp
    obtain ⟨rfl, haccepting⟩ := hp
    exact (h.accepting hk).mpr haccepting

theorem register_iff (h : T.Sound) {e : ℕ × ℕ} (hk : T.conns e.2 = some k) (i : ι) :
    e ∈ T.register i ↔ i = k.owner ∧ e.1 = k.fd ∧ k.standing.enrolled = true := by
  constructor
  · intro he
    obtain ⟨l, hl, rfl, hfd⟩ := h.register_known he
    obtain rfl := Option.some.inj (hk.symm.trans hl)
    exact ⟨rfl, hfd.symm, (h.enrolled hk).mp (by rw [hfd]; exact he)⟩
  · intro hp
    obtain ⟨rfl, hfd, henrolled⟩ := hp
    have he := (h.enrolled hk).mpr henrolled
    rwa [← hfd] at he

end

/-- A registered descriptor is open and denotes its connection. -/
theorem registered_denotes (h : T.Sound) {i : ι} {e : ℕ × ℕ} (he : e ∈ T.register i) :
    T.kernel e.1 = some (.connection e.2) := by
  obtain ⟨k, hk, rfl, hfd⟩ := h.register_known he
  have henrolled : k.standing.enrolled = true := (h.enrolled hk).mp (by rw [hfd]; exact he)
  rw [← hfd]
  refine (h.opened hk).mpr ?_
  intro hclosed
  rw [hclosed] at henrolled
  cases henrolled

/-- What is registered under an open connection's number is that connection. -/
theorem registered_eq (h : T.Sound) {i : ι} {e : ℕ × ℕ} (he : e ∈ T.register i) {c : ℕ} {k : Conn ι}
    (hc : T.conns c = some k) (hopen : k.standing ≠ .closed) (hfd : e.1 = k.fd) : e.2 = c := by
  have hkernel := h.registered_denotes he
  rw [hfd, (h.opened hc).mpr hopen] at hkernel
  exact (File.connection.inj (Option.some.inj hkernel)).symm

/-- While an owner's accept loop is at no connection, none of its is on its way to a thread. -/
theorem not_accepting (h : T.Sound) {c : ℕ} {k : Conn ι} (hk : T.conns c = some k) (hidle : T.busy k.owner = none) :
    k.standing.accepting = false := by
  refine Bool.eq_false_iff.mpr fun haccepting => ?_
  have hbusy := (h.accepting hk).mpr haccepting
  rw [hidle] at hbusy
  cases hbusy

/-- A change about one connection, `k` from now on: whatever names it does as its standing
says, and whatever names another does as before. -/
theorem change (h : T.Sound) {c : ℕ} (k : Conn ι) {kernel : ℕ → Option File} {busy : ι → Option ℕ}
    {register : ι → List (ℕ × ℕ)}
    (hkernel : ∀ fd d, kernel fd = some (.connection d) ↔
      if d = c then fd = k.fd ∧ k.standing ≠ .closed else T.kernel fd = some (.connection d))
    (hbusy : ∀ i d, busy i = some d ↔
      if d = c then i = k.owner ∧ k.standing.accepting = true else T.busy i = some d)
    (hregister : ∀ i e, e ∈ register i ↔
      if e.2 = c then i = k.owner ∧ e.1 = k.fd ∧ k.standing.enrolled = true else e ∈ T.register i)
    (hdistinct : ∀ i, ((register i).map Prod.fst).Nodup) :
    (⟨kernel, Function.update T.conns c (some k), busy, register⟩ : Table ι).Sound where
  kernel_known := by
    intro fd d hd
    have hnamed := (hkernel fd d).mp hd
    split at hnamed
    · next hdc => exact ⟨k, by simp [hdc], hnamed.1.symm⟩
    · next hdc => simpa [hdc] using h.kernel_known hnamed
  busy_known := by
    intro i d hd
    have hnamed := (hbusy i d).mp hd
    split at hnamed
    · next hdc => exact ⟨k, by simp [hdc], hnamed.1.symm⟩
    · next hdc => simpa [hdc] using h.busy_known hnamed
  register_known := by
    intro i e he
    have hnamed := (hregister i e).mp he
    split at hnamed
    · next hdc => exact ⟨k, by simp [hdc], hnamed.1.symm, hnamed.2.1.symm⟩
    · next hdc => simpa [hdc] using h.register_known hnamed
  opened := by
    intro d l hl
    rw [hkernel]
    by_cases hdc : d = c
    · subst hdc
      obtain rfl : k = l := by simpa using hl
      simp
    · rw [if_neg hdc]
      exact h.opened (by simpa [hdc] using hl)
  accepting := by
    intro d l hl
    rw [hbusy]
    by_cases hdc : d = c
    · subst hdc
      obtain rfl : k = l := by simpa using hl
      simp
    · rw [if_neg hdc]
      exact h.accepting (by simpa [hdc] using hl)
  enrolled := by
    intro d l hl
    rw [hregister]
    by_cases hdc : d = c
    · subst hdc
      obtain rfl : k = l := by simpa using hl
      simp
    · rw [if_neg hdc]
      exact h.enrolled (by simpa [hdc] using hl)
  distinct := hdistinct

section
variable {c : ℕ} {k : Conn ι} {standing : Standing}

theorem kernel_keeps (h : T.Sound) (hk : T.conns c = some k) (hs : standing ≠ .closed ↔ k.standing ≠ .closed)
    (fd d : ℕ) : T.kernel fd = some (.connection d) ↔
      if d = c then fd = k.fd ∧ standing ≠ .closed else T.kernel fd = some (.connection d) := by
  split
  · next hd => rw [hd, h.kernel_iff hk, hs]
  · rfl

theorem busy_keeps (h : T.Sound) (hk : T.conns c = some k) (hs : standing.accepting = k.standing.accepting)
    (i : ι) (d : ℕ) : T.busy i = some d ↔
      if d = c then i = k.owner ∧ standing.accepting = true else T.busy i = some d := by
  split
  · next hd => rw [hd, h.busy_iff hk, hs]
  · rfl

theorem register_keeps (h : T.Sound) (hk : T.conns c = some k) (hs : standing.enrolled = k.standing.enrolled)
    (i : ι) (e : ℕ × ℕ) : e ∈ T.register i ↔
      if e.2 = c then i = k.owner ∧ e.1 = k.fd ∧ standing.enrolled = true else e ∈ T.register i := by
  split
  · next he =>
    subst he
    rw [h.register_iff hk, hs]
  · rfl

end

/-- Files that are not connections come and go. -/
theorem other_moves (h : T.Sound) {kernel : ℕ → Option File}
    (hkernel : ∀ fd c, kernel fd = some (.connection c) ↔ T.kernel fd = some (.connection c)) :
    ({T with kernel := kernel} : Table ι).Sound where
  kernel_known := fun hfd => h.kernel_known ((hkernel _ _).mp hfd)
  busy_known := h.busy_known
  register_known := h.register_known
  opened := fun hk => (hkernel _ _).trans (h.opened hk)
  accepting := h.accepting
  enrolled := h.enrolled
  distinct := h.distinct

end Sound

/-! ### The moves -/

variable [DecidableEq ι]

/-- The connection goes on to the next standing. -/
def stand (T : Table ι) (c : ℕ) (k : Conn ι) (standing : Standing) : Table ι :=
  {T with conns := Function.update T.conns c (some {k with standing := standing})}

/-- **What a step of the process can do to its descriptors.** -/
inductive Move (T : Table ι) : Table ι → Prop where
  | stay : Move T T
  | openOther (fd : ℕ) (hfd : T.kernel fd = none) :
      Move T {T with kernel := Function.update T.kernel fd (some .other)}
  | closeOther (fd : ℕ) (hfd : T.kernel fd = some .other) :
      Move T {T with kernel := Function.update T.kernel fd none}
  | accept (i : ι) (fd c : ℕ) (hfd : T.kernel fd = none) (hc : T.conns c = none) (hbusy : T.busy i = none) :
      Move T {T with
        kernel := Function.update T.kernel fd (some (.connection c))
        conns := Function.update T.conns c (some ⟨i, fd, .accepted⟩)
        busy := Function.update T.busy i (some c)}
  | register (c : ℕ) (k : Conn ι) (fds : List (ℕ × ℕ)) (hk : T.conns c = some k) (hstanding : k.standing = .accepted)
      (hfds : k.fd ∉ (T.register k.owner).map Prod.fst → fds.Perm ((k.fd, c) :: T.register k.owner)) :
      Move T {T.stand c k .registered with register := Function.update T.register k.owner fds}
  | spawn (c : ℕ) (k : Conn ι) (hk : T.conns c = some k) (hstanding : k.standing = .registered) :
      Move T {T.stand c k .served with busy := Function.update T.busy k.owner none}
  | unregister (c : ℕ) (k : Conn ι) (hk : T.conns c = some k) (hstanding : k.standing = .served) :
      Move T {T.stand c k .unregistered with
        register := Function.update T.register k.owner ((T.register k.owner).filter fun e => e.1 ≠ k.fd)}
  | close (c : ℕ) (k : Conn ι) (hk : T.conns c = some k) (hstanding : k.standing = .unregistered) :
      Move T {T.stand c k .closed with kernel := Function.update T.kernel k.fd none}

/-- A move opens a connection, or takes one to its next standing, or leaves it alone. -/
theorem Move.conns {T U : Table ι} (h : T.Move U) (c : ℕ) :
    U.conns c = T.conns c ∨ (T.conns c = none ∧ ∃ i fd, U.conns c = some ⟨i, fd, .accepted⟩) ∨
      ∃ k, T.conns c = some k ∧ U.conns c = some {k with standing := k.standing.next} := by
  have hstand : ∀ (d : ℕ) (k : Conn ι) (standing : Standing), T.conns d = some k → standing = k.standing.next →
      (T.stand d k standing).conns c = T.conns c ∨
        ∃ l, T.conns c = some l ∧ (T.stand d k standing).conns c = some {l with standing := l.standing.next} := by
    intro d k standing hk hnext
    by_cases hc : c = d
    · subst hc
      refine .inr ⟨k, hk, ?_⟩
      rw [← hnext]
      exact Function.update_self ..
    · exact .inl (Function.update_of_ne hc ..)
  cases h with
  | stay | openOther fd hfd | closeOther fd hfd => exact .inl rfl
  | accept i fd d hfd hd hbusy =>
    by_cases hc : c = d
    · subst hc
      exact .inr (.inl ⟨hd, i, fd, Function.update_self ..⟩)
    · exact .inl (Function.update_of_ne hc ..)
  | register d k fds hk hstanding hfds =>
    exact (hstand d k .registered hk (by rw [hstanding, Standing.next])).imp_right .inr
  | spawn d k hk hstanding =>
    exact (hstand d k .served hk (by rw [hstanding, Standing.next])).imp_right .inr
  | unregister d k hk hstanding =>
    exact (hstand d k .unregistered hk (by rw [hstanding, Standing.next])).imp_right .inr
  | close d k hk hstanding =>
    exact (hstand d k .closed hk (by rw [hstanding, Standing.next])).imp_right .inr

namespace Sound
variable {T : Table ι}

theorem accept_moves (h : T.Sound) {i : ι} {fd c : ℕ} (hfd : T.kernel fd = none) (hc : T.conns c = none)
    (hbusy : T.busy i = none) :
    (⟨Function.update T.kernel fd (some (.connection c)), Function.update T.conns c (some ⟨i, fd, .accepted⟩),
      Function.update T.busy i (some c), T.register⟩ : Table ι).Sound := by
  refine h.change ⟨i, fd, .accepted⟩ ?_ ?_ ?_ h.distinct
  · intro g d
    by_cases hg : g = fd
    · subst hg
      simp [hfd, eq_comm]
    · have hnew : T.kernel g ≠ some (.connection c) := by
        intro hp
        obtain ⟨k, hk, -⟩ := h.kernel_known hp
        rw [hc] at hk
        cases hk
      by_cases hd : d = c
      · subst hd
        simp [hg, hnew]
      · simp [hg, hd]
  · intro j d
    by_cases hj : j = i
    · subst hj
      simp [hbusy, Standing.accepting, eq_comm]
    · have hnew : T.busy j ≠ some c := by
        intro hp
        obtain ⟨k, hk, -⟩ := h.busy_known hp
        rw [hc] at hk
        cases hk
      by_cases hd : d = c
      · subst hd
        simp [hj, hnew]
      · simp [hj, hd]
  · intro j e
    have hnew : e.2 = c → e ∉ T.register j := by
      intro hec he
      obtain ⟨k, hk, -⟩ := h.register_known he
      rw [hec, hc] at hk
      cases hk
    by_cases hec : e.2 = c
    · simp [hec, hnew hec, Standing.enrolled]
    · simp [hec]

theorem register_moves (h : T.Sound) {c : ℕ} {k : Conn ι} {fds : List (ℕ × ℕ)} (hk : T.conns c = some k)
    (hstanding : k.standing = .accepted)
    (hfds : k.fd ∉ (T.register k.owner).map Prod.fst → fds.Perm ((k.fd, c) :: T.register k.owner)) :
    ({T.stand c k .registered with register := Function.update T.register k.owner fds} : Table ι).Sound := by
  have hfree : k.fd ∉ (T.register k.owner).map Prod.fst := by
    intro hmem
    obtain ⟨e, he, hfd⟩ := List.mem_map.mp hmem
    obtain rfl := h.registered_eq he hk (by simp [hstanding]) hfd
    have henrolled := ((h.register_iff hk _).mp he).2.2
    rw [hstanding] at henrolled
    cases henrolled
  have hperm := hfds hfree
  refine h.change {k with standing := .registered} (h.kernel_keeps (k := k) hk (by simp [hstanding]))
    (h.busy_keeps (k := k) hk (by rw [hstanding]; rfl)) ?_ ?_
  · intro i e
    by_cases hi : i = k.owner
    · subst hi
      rw [Function.update_self, hperm.mem_iff, List.mem_cons]
      by_cases hec : e.2 = c
      · subst hec
        simp [Standing.enrolled, Prod.ext_iff, h.register_iff hk, hstanding]
      · have hne : e ≠ (k.fd, c) := fun he => hec (by rw [he])
        simp [hec, hne]
    · rw [Function.update_of_ne hi]
      by_cases hec : e.2 = c
      · subst hec
        simp [hi, h.register_iff hk]
      · simp [hec]
  · intro i
    by_cases hi : i = k.owner
    · subst hi
      rw [Function.update_self, (hperm.map Prod.fst).nodup_iff, List.map_cons, List.nodup_cons]
      exact ⟨hfree, h.distinct _⟩
    · rw [Function.update_of_ne hi]
      exact h.distinct i

theorem spawn_moves (h : T.Sound) {c : ℕ} {k : Conn ι} (hk : T.conns c = some k)
    (hstanding : k.standing = .registered) :
    ({T.stand c k .served with busy := Function.update T.busy k.owner none} : Table ι).Sound := by
  refine h.change {k with standing := .served} (h.kernel_keeps (k := k) hk (by simp [hstanding])) ?_
    (h.register_keeps (k := k) hk (by rw [hstanding]; rfl)) h.distinct
  intro i d
  have hbusy : T.busy k.owner = some c := (h.accepting hk).mpr (by rw [hstanding]; rfl)
  by_cases hi : i = k.owner
  · subst hi
    by_cases hd : d = c
    · simp [hd, Standing.accepting]
    · simp [hd, hbusy, Ne.symm hd]
  · by_cases hd : d = c
    · subst hd
      simp [hi, h.busy_iff hk]
    · simp [hi, hd]

theorem unregister_moves (h : T.Sound) {c : ℕ} {k : Conn ι} (hk : T.conns c = some k)
    (hstanding : k.standing = .served) :
    ({T.stand c k .unregistered with
      register := Function.update T.register k.owner ((T.register k.owner).filter fun e => e.1 ≠ k.fd)} :
        Table ι).Sound := by
  refine h.change {k with standing := .unregistered} (h.kernel_keeps (k := k) hk (by simp [hstanding]))
    (h.busy_keeps (k := k) hk (by rw [hstanding]; rfl)) ?_ ?_
  · intro i e
    by_cases hi : i = k.owner
    · subst hi
      rw [Function.update_self, List.mem_filter]
      by_cases hec : e.2 = c
      · subst hec
        simp [Standing.enrolled, h.register_iff hk]
        tauto
      · have hfd : e ∈ T.register k.owner → e.1 ≠ k.fd := fun he hfd =>
          hec (h.registered_eq he hk (by simp [hstanding]) hfd)
        simp [hec]
        exact hfd
    · rw [Function.update_of_ne hi]
      by_cases hec : e.2 = c
      · subst hec
        simp [hi, h.register_iff hk]
      · simp [hec]
  · intro i
    by_cases hi : i = k.owner
    · subst hi
      rw [Function.update_self]
      exact (h.distinct _).sublist (List.filter_sublist.map _)
    · rw [Function.update_of_ne hi]
      exact h.distinct i

omit [DecidableEq ι] in
theorem close_moves (h : T.Sound) {c : ℕ} {k : Conn ι} (hk : T.conns c = some k)
    (hstanding : k.standing = .unregistered) :
    ({T.stand c k .closed with kernel := Function.update T.kernel k.fd none} : Table ι).Sound := by
  refine h.change {k with standing := .closed} ?_ (h.busy_keeps (k := k) hk (by rw [hstanding]; rfl))
    (h.register_keeps (k := k) hk (by rw [hstanding]; rfl)) h.distinct
  intro fd d
  have hopen : T.kernel k.fd = some (.connection c) := (h.opened hk).mpr (by simp [hstanding])
  by_cases hfd : fd = k.fd
  · subst hfd
    by_cases hd : d = c
    · simp [hd]
    · simp [hd, hopen, Ne.symm hd]
  · by_cases hd : d = c
    · subst hd
      simp [hfd, h.kernel_iff hk]
    · simp [hfd, hd]

theorem move {U : Table ι} (h : T.Sound) (hmove : T.Move U) : U.Sound := by
  cases hmove with
  | stay => exact h
  | openOther fd hfd =>
    refine h.other_moves fun g c => ?_
    by_cases hg : g = fd
    · simp [hg, hfd]
    · simp [hg]
  | closeOther fd hfd =>
    refine h.other_moves fun g c => ?_
    by_cases hg : g = fd
    · simp [hg, hfd]
    · simp [hg]
  | accept i fd c hfd hc hbusy => exact h.accept_moves hfd hc hbusy
  | register c k fds hk hstanding hfds => exact h.register_moves hk hstanding hfds
  | spawn c k hk hstanding => exact h.spawn_moves hk hstanding
  | unregister c k hk hstanding => exact h.unregister_moves hk hstanding
  | close c k hk hstanding => exact h.close_moves hk hstanding

/-! ### Where a connection comes from -/

/-- While an owner's accept loop is at no connection, none of its is registered. -/
theorem enrolled_back {U : Table ι} (h : T.Sound) (hmove : T.Move U) {c : ℕ} {k : Conn ι} (hk : U.conns c = some k)
    (henrolled : k.standing.enrolled = true) (hidle : T.busy k.owner = none) :
    ∃ l, T.conns c = some l ∧ l.owner = k.owner ∧ l.fd = k.fd ∧ l.standing.enrolled = true := by
  rcases hmove.conns c with hsame | ⟨-, i, fd, hnew⟩ | ⟨l, hl, hnext⟩
  · exact ⟨k, hsame ▸ hk, rfl, rfl, henrolled⟩
  · obtain rfl := Option.some.inj (hk.symm.trans hnew)
    cases henrolled
  · obtain rfl := Option.some.inj (hk.symm.trans hnext)
    refine ⟨l, hl, rfl, rfl, ?_⟩
    have haccepting := h.not_accepting hl hidle
    cases hstanding : l.standing with
    | accepted =>
      rw [hstanding] at haccepting
      cases haccepting
    | registered | served => rfl
    | unregistered | closed =>
      rw [hstanding] at henrolled
      cases henrolled

/-- Nor is a thread of one of its connections started. -/
theorem served_back {U : Table ι} (h : T.Sound) (hmove : T.Move U) {c : ℕ} {k : Conn ι} (hk : U.conns c = some k)
    (hserved : k.standing = .served) (hidle : T.busy k.owner = none) :
    ∃ l, T.conns c = some l ∧ l.owner = k.owner ∧ l.standing = .served := by
  rcases hmove.conns c with hsame | ⟨-, i, fd, hnew⟩ | ⟨l, hl, hnext⟩
  · exact ⟨k, hsame ▸ hk, rfl, hserved⟩
  · obtain rfl := Option.some.inj (hk.symm.trans hnew)
    cases hserved
  · obtain rfl := Option.some.inj (hk.symm.trans hnext)
    refine ⟨l, hl, rfl, ?_⟩
    have haccepting := h.not_accepting hl hidle
    cases hstanding : l.standing with
    | registered =>
      rw [hstanding] at haccepting
      cases haccepting
    | served => rfl
    | accepted | unregistered | closed =>
      rw [hstanding] at hserved
      cases hserved

end Sound

end Table

end VrxServer.Base.Descriptors
