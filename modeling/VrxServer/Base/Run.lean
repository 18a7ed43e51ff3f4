import Mathlib.Data.List.Infix

/-! Runs of a machine whose labels carry every choice of the environment.

A program that talks to other threads, to a kernel or to a peer is read as a
`Machine`: a state, and what each label does to it, where a label names the party
that moves and everything the outside decides on that move (which thread runs, what
a call returned). A label that cannot happen in a state is answered `none`.

Two kinds of statement are made about runs. `Always P s ls` says that `P` holds in
every state the run passes through; `Allowed C s ls` says that every step it takes
is one `C` admits, from the state it was taken in. An invariant that only the
admitted steps keep gives the first from the second (`always_of_allowed`), and where
a step keeps the invariant exactly when it is admitted the two are the same
(`always_iff_allowed`). -/
namespace VrxServer.Base

structure Machine (S L : Type) where
  step : S → L → Option S

namespace Machine
variable {S L : Type} (M : Machine S L)

def run : S → List L → Option S
  | s, [] => some s
  | s, l :: ls => (M.step s l).bind fun t => run t ls

def Reachable (s t : S) : Prop := ∃ ls, M.run s ls = some t

@[simp] theorem run_nil (s : S) : M.run s [] = some s := rfl

theorem run_cons (s : S) (l : L) (ls : List L) :
    M.run s (l :: ls) = (M.step s l).bind fun t => M.run t ls := rfl

theorem run_append (s : S) (a b : List L) :
    M.run s (a ++ b) = (M.run s a).bind fun t => M.run t b := by
  induction a generalizing s with
  | nil => rfl
  | cons l a ih =>
    rw [List.cons_append, run_cons, run_cons]
    cases M.step s l with
    | none => rfl
    | some t => exact ih t

theorem run_concat (s : S) (ls : List L) (l : L) :
    M.run s (ls ++ [l]) = (M.run s ls).bind fun t => M.step t l := by
  rw [run_append]
  congr 1
  funext t
  rw [run_cons]
  cases M.step t l <;> rfl

theorem Reachable.refl (s : S) : M.Reachable s s := ⟨[], rfl⟩

theorem Reachable.tail {s t u : S} {l : L} (h : M.Reachable s t) (hu : M.step t l = some u) :
    M.Reachable s u := by
  obtain ⟨ls, hls⟩ := h
  exact ⟨ls ++ [l], by rw [run_concat, hls]; exact hu⟩

variable {M}

/-- The rule every unconditional invariant is proved by. -/
theorem invariant {I : S → Prop} (hstep : ∀ s l t, I s → M.step s l = some t → I t)
    {s t : S} {ls : List L} (h : M.run s ls = some t) (hs : I s) : I t := by
  induction ls generalizing s with
  | nil => exact Option.some.inj h ▸ hs
  | cons l ls ih =>
    obtain ⟨u, hu, ht⟩ := Option.bind_eq_some_iff.mp h
    exact ih ht (hstep s l u hs hu)

/-! ### What holds all along a run -/

variable (M)

/-- `P` holds in every state the run passes through, the first and the last included. -/
def Always (P : S → Prop) (s : S) (ls : List L) : Prop :=
  ∀ done t, done <+: ls → M.run s done = some t → P t

/-- Every step the run takes is one `C` admits in the state it is taken in. -/
def Allowed (C : S → L → Prop) (s : S) (ls : List L) : Prop :=
  ∀ done l t u, done ++ [l] <+: ls → M.run s done = some t → M.step t l = some u → C t l

variable {M} {P I : S → Prop} {C : S → L → Prop}

theorem always_nil {s : S} : M.Always P s [] ↔ P s := by
  constructor
  · exact fun h => h [] s (List.prefix_refl _) rfl
  · intro h done t hd ht
    rw [List.prefix_nil.mp hd] at ht
    exact Option.some.inj ht ▸ h

theorem always_cons {s : S} {l : L} {ls : List L} :
    M.Always P s (l :: ls) ↔ P s ∧ ∀ t, M.step s l = some t → M.Always P t ls := by
  constructor
  · refine fun h => ⟨h [] s (List.nil_prefix ..) rfl, fun t ht done u hd hu => ?_⟩
    exact h (l :: done) u ((List.prefix_cons_inj l).mpr hd) (by rw [run_cons, ht]; exact hu)
  · intro hp done u hd hu
    obtain ⟨hs, h⟩ := hp
    cases done with
    | nil => exact Option.some.inj hu ▸ hs
    | cons m done =>
      obtain ⟨rfl, hrest⟩ := List.cons_prefix_cons.mp hd
      obtain ⟨t, ht, hu⟩ := Option.bind_eq_some_iff.mp hu
      exact h t ht done u hrest hu

theorem allowed_nil {s : S} : M.Allowed C s [] := by
  intro done l t u hd
  simp at hd

theorem allowed_cons {s : S} {l : L} {ls : List L} :
    M.Allowed C s (l :: ls) ↔ ∀ t, M.step s l = some t → C s l ∧ M.Allowed C t ls := by
  constructor
  · refine fun h t ht => ⟨h [] l s t (by simp) rfl ht, fun done m u v hd hu hv => ?_⟩
    exact h (l :: done) m u v ((List.prefix_cons_inj l).mpr hd) (by rw [run_cons, ht]; exact hu) hv
  · intro h done m u v hd hu hv
    cases done with
    | nil =>
      obtain ⟨rfl, -⟩ := List.cons_prefix_cons.mp hd
      obtain rfl := Option.some.inj hu
      exact (h v hv).1
    | cons k done =>
      obtain ⟨rfl, hrest⟩ := List.cons_prefix_cons.mp hd
      obtain ⟨t, ht, hu⟩ := Option.bind_eq_some_iff.mp hu
      exact (h t ht).2 done m u v hrest hu hv

theorem allowed_of_forall {s : S} {ls : List L} (h : ∀ l ∈ ls, ∀ t, C t l) : M.Allowed C s ls :=
  fun _ l t _ hd _ _ => h l (hd.subset (by simp)) t

theorem allowed_concat {s : S} {l : L} {ls : List L} (hls : M.Allowed C s ls)
    (hl : ∀ t, M.run s ls = some t → C t l) : M.Allowed C s (ls ++ [l]) := by
  intro done m t u hd ht hu
  rcases List.prefix_concat_iff.mp hd with heq | hd
  · obtain ⟨rfl, hm⟩ := List.append_inj' heq rfl
    obtain rfl := List.head_eq_of_cons_eq hm
    exact hl t ht
  · exact hls done m t u hd ht hu

/-- An invariant the admitted steps keep holds all along a run of admitted steps. -/
theorem always_of_allowed (hstep : ∀ s l t, I s → C s l → M.step s l = some t → I t)
    {s : S} {ls : List L} (hs : I s) (h : M.Allowed C s ls) : M.Always I s ls := by
  induction ls generalizing s with
  | nil => exact always_nil.mpr hs
  | cons l ls ih =>
    refine always_cons.mpr ⟨hs, fun t ht => ?_⟩
    obtain ⟨hc, hrest⟩ := allowed_cons.mp h t ht
    exact ih (hstep s l t hs hc ht) hrest

theorem Always.mono {Q : S → Prop} (hPQ : ∀ s, P s → Q s) {s : S} {ls : List L} (h : M.Always P s ls) :
    M.Always Q s ls := fun done t hd ht => hPQ t (h done t hd ht)

/-- Where only admitted steps lead to a good state, a run of good states takes no other. `I`
is what every step keeps. -/
theorem allowed_of_always (hI : ∀ s l t, I s → M.step s l = some t → I t)
    (hstep : ∀ s l t, I s → M.step s l = some t → P t → C s l)
    {s : S} {ls : List L} (hi : I s) (h : M.Always P s ls) : M.Allowed C s ls := by
  induction ls generalizing s with
  | nil => exact allowed_nil
  | cons l ls ih =>
    refine allowed_cons.mpr fun t ht => ?_
    have hrest := (always_cons.mp h).2 t ht
    exact ⟨hstep s l t hi ht (hrest [] t (List.nil_prefix ..) rfl), ih (hI s l t hi ht) hrest⟩

/-- Where a step from a good state leads to a good state exactly when it is admitted, a
run stays in good states exactly when all its steps are admitted. `I` is what every
step keeps. -/
theorem always_iff_allowed (hI : ∀ s l t, I s → M.step s l = some t → I t)
    (hstep : ∀ s l t, I s → P s → M.step s l = some t → (P t ↔ C s l))
    {s : S} {ls : List L} (hi : I s) (hs : P s) : M.Always P s ls ↔ M.Allowed C s ls := by
  induction ls generalizing s with
  | nil => exact iff_of_true (always_nil.mpr hs) allowed_nil
  | cons l ls ih =>
    rw [always_cons, allowed_cons]
    constructor
    · intro hp t ht
      obtain ⟨-, h⟩ := hp
      have hPt : P t := h t ht [] t (List.nil_prefix ..) rfl
      exact ⟨(hstep s l t hi hs ht).mp hPt, (ih (hI s l t hi ht) hPt).mp (h t ht)⟩
    · refine fun h => ⟨hs, fun t ht => ?_⟩
      have hPt : P t := (hstep s l t hi hs ht).mpr (h t ht).1
      exact (ih (hI s l t hi ht) hPt).mpr (h t ht).2

end Machine

end VrxServer.Base
