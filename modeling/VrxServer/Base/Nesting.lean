import VrxServer.Base.Run
import Mathlib.Data.List.Nodup

/-! Resources acquired in a fixed order and given back in the reverse one.

A log of marks says what was asked for, whether it was granted, and what was given back.
`Nesting.machine order` is the discipline as a machine over marks, `order` listing the resources
from the last to be acquired to the first: nothing is asked for out of turn or while
giving back, and only what was acquired last is given back. In a log it accepts, no
resource is given back that is not outstanding (`outstanding_of_release`), and where it
ends with nothing held, each acquisition is given back once, with all that was acquired
before it and in order, before the first resource is asked for again (`given_back`). -/
namespace VrxServer.Base

inductive Mark (R : Type) where
  | acquire (r : R) (granted : Bool)
  | release (r : R)
  | other

namespace Mark
variable {R : Type} [DecidableEq R]

/-- Whether a resource is outstanding, going by the last mark about it. -/
def settles (r : R) (held : Bool) : Mark R → Bool
  | .acquire q granted => if q = r then held || granted else held
  | .release q => if q = r then false else held
  | .other => held

def asksFor (r : R) : Mark R → Bool
  | .acquire q _ => q = r
  | _ => false

def gives : Mark R → Option R
  | .release q => some q
  | _ => none

end Mark

/-- What is held, the last acquired first, and whether it is being given back. -/
structure Holding (R : Type) where
  held : List R
  giving : Bool

variable {R : Type} [DecidableEq R]

def Holding.nothing : Holding R := ⟨[], false⟩

/-- The resource is outstanding after these marks. -/
def outstanding (r : R) (ms : List (Mark R)) : Bool := ms.foldl (Mark.settles r) false

namespace Nesting
variable (order : List R)

def next (h : Holding R) : Mark R → Option (Holding R)
  | .acquire r granted =>
    if h.giving = false ∧ r :: h.held <:+ order then some (if granted then ⟨r :: h.held, false⟩ else h)
    else none
  | .release r =>
    match h.held with
    | [] => none
    | top :: rest => if top = r then some ⟨rest, !rest.isEmpty⟩ else none
  | .other => some h

def machine : Machine (Holding R) (Mark R) := ⟨next order⟩

variable {order}

theorem step_acquire {h k : Holding R} {r : R} {granted : Bool}
    (hstep : (machine order).step h (.acquire r granted) = some k) :
    h.giving = false ∧ r :: h.held <:+ order ∧ k = if granted then ⟨r :: h.held, false⟩ else h := by
  simp only [machine, next] at hstep
  split at hstep
  · next hcond => exact ⟨hcond.1, hcond.2, (Option.some.inj hstep).symm⟩
  · cases hstep

theorem step_release {h k : Holding R} {r : R} (hstep : (machine order).step h (.release r) = some k) :
    ∃ rest, h.held = r :: rest ∧ k = ⟨rest, !rest.isEmpty⟩ := by
  simp only [machine, next] at hstep
  split at hstep
  · cases hstep
  · next top rest hheld =>
    split at hstep
    · next htop => exact ⟨rest, htop ▸ hheld, (Option.some.inj hstep).symm⟩
    · cases hstep

/-- What is held is what was to be acquired first. -/
def InOrder (order : List R) (h : Holding R) : Prop := h.held <:+ order

theorem inOrder_step (h : Holding R) (m : Mark R) (k : Holding R) (hin : InOrder order h)
    (hstep : (machine order).step h m = some k) : InOrder order k := by
  cases m with
  | acquire r granted =>
    obtain ⟨-, hr, rfl⟩ := step_acquire hstep
    cases granted with
    | false => exact hin
    | true => exact hr
  | release r =>
    obtain ⟨rest, hheld, rfl⟩ := step_release hstep
    have hrest : rest <:+ h.held := hheld ▸ List.suffix_cons r rest
    exact hrest.trans hin
  | other => exact Option.some.inj hstep ▸ hin

/-! ### What is outstanding -/

theorem mem_held_step (hnodup : order.Nodup) (r : R) {h k : Holding R} {m : Mark R} (hin : InOrder order h)
    (hstep : (machine order).step h m = some k) : r ∈ k.held ↔ m.settles r (decide (r ∈ h.held)) = true := by
  cases m with
  | acquire q granted =>
    obtain ⟨-, -, rfl⟩ := step_acquire hstep
    by_cases hq : q = r
    · subst hq
      cases granted <;> simp [Mark.settles]
    · cases granted <;> simp [Mark.settles, hq, Ne.symm hq]
  | release q =>
    obtain ⟨rest, hheld, rfl⟩ := step_release hstep
    have hfresh : q ∉ rest := (List.nodup_cons.mp (hheld ▸ hin.sublist.nodup hnodup)).1
    by_cases hr : q = r
    · subst hr
      simp [Mark.settles, hfresh]
    · simp [Mark.settles, hr, Ne.symm hr, hheld]
  | other =>
    obtain rfl := Option.some.inj hstep
    simp [Mark.settles]

theorem mem_held_run (hnodup : order.Nodup) (r : R) {ms : List (Mark R)} {h k : Holding R} (hin : InOrder order h)
    (hrun : (machine order).run h ms = some k) :
    r ∈ k.held ↔ ms.foldl (Mark.settles r) (decide (r ∈ h.held)) = true := by
  induction ms generalizing h with
  | nil =>
    obtain rfl := Option.some.inj hrun
    simp
  | cons m ms ih =>
    obtain ⟨g, hg, hrest⟩ := Option.bind_eq_some_iff.mp hrun
    have hsettles : decide (r ∈ g.held) = m.settles r (decide (r ∈ h.held)) :=
      (Bool.eq_iff_iff.mpr (decide_eq_true_iff.trans (mem_held_step hnodup r hin hg)))
    rw [List.foldl_cons, ← hsettles]
    exact ih (inOrder_step h m g hin hg) hrest

/-- What is held is what the marks say is outstanding. -/
theorem mem_held_iff (hnodup : order.Nodup) (r : R) {ms : List (Mark R)} {k : Holding R}
    (hrun : (machine order).run Holding.nothing ms = some k) : r ∈ k.held ↔ outstanding r ms = true :=
  mem_held_run hnodup r (h := Holding.nothing) List.nil_suffix hrun

/-- Nothing is given back that is not outstanding. -/
theorem outstanding_of_release (hnodup : order.Nodup) {r : R} {a b : List (Mark R)} {k : Holding R}
    (hrun : (machine order).run Holding.nothing (a ++ .release r :: b) = some k) : outstanding r a = true := by
  rw [Machine.run_append] at hrun
  obtain ⟨h, ha, hrest⟩ := Option.bind_eq_some_iff.mp hrun
  refine (mem_held_iff hnodup r ha).mp ?_
  obtain ⟨g, hg, -⟩ := Option.bind_eq_some_iff.mp hrest
  obtain ⟨rest, hheld, -⟩ := step_release hg
  rw [hheld]
  exact List.mem_cons_self

/-! ### How it is given back -/

/-- What is given back before a resource is asked for again. -/
def givenBack (base : R) (ms : List (Mark R)) : List R := (ms.takeWhile fun m => !m.asksFor base).filterMap Mark.gives

/-- The run comes to hold nothing: at its end, or where the first resource is asked for again. -/
def Settles (base : R) (ms : List (Mark R)) (k : Holding R) : Prop :=
  k.held = [] ∨ ∃ m ∈ ms, m.asksFor base = true

theorem Settles.tail {base : R} {m : Mark R} {ms : List (Mark R)} {k : Holding R} (h : Settles base (m :: ms) k)
    (hm : m.asksFor base = false) : Settles base ms k := by
  refine h.imp id ?_
  intro hp
  obtain ⟨n, hn, hasks⟩ := hp
  refine ⟨n, (List.mem_cons.mp hn).resolve_left ?_, hasks⟩
  intro heq
  rw [heq, hm] at hasks
  cases hasks

section
variable {base : R} {ms : List (Mark R)}

theorem givenBack_asks {m : Mark R} (hm : m.asksFor base = true) : givenBack base (m :: ms) = [] := by
  simp [givenBack, hm]

theorem givenBack_cons {m : Mark R} (hm : m.asksFor base = false) :
    givenBack base (m :: ms) = m.gives.toList ++ givenBack base ms := by
  rw [givenBack, List.takeWhile_cons, hm]
  cases h : m.gives <;> simp [givenBack, h]

end

omit [DecidableEq R] in
/-- The first resource is asked for only while nothing is held, and it is what is asked for then. -/
theorem asks_iff {base r : R} {held : List R} (hnodup : order.Nodup) (hbase : order.getLast? = some base)
    (h : r :: held <:+ order) : r = base ↔ held = [] := by
  obtain ⟨before, rfl⟩ := h
  rw [List.getLast?_append_cons] at hbase
  constructor
  · intro hr
    subst hr
    cases held with
    | nil => rfl
    | cons q held =>
      rw [List.getLast?_cons_cons] at hbase
      have hmem : r ∈ q :: held := List.mem_of_getLast? hbase
      exact absurd hmem (List.nodup_cons.mp (List.nodup_append.mp hnodup).2.1).1
  · intro hheld
    subst hheld
    exact Option.some.inj hbase

/-- What is given back from here on: all that is held, and what is still to be acquired
unless giving back has begun. -/
theorem given_back_run {base : R} (hnodup : order.Nodup) (hbase : order.getLast? = some base)
    {ms : List (Mark R)} {h k : Holding R} (hin : InOrder order h) (hrun : (machine order).run h ms = some k)
    (hsettles : Settles base ms k) :
    givenBack base ms <:+ order ∧ h.held <:+ givenBack base ms ∧
      (h.giving = true ∨ h.held = [] → givenBack base ms = h.held) := by
  induction ms generalizing h with
  | nil =>
    obtain rfl := Option.some.inj hrun
    have hheld : h.held = [] := hsettles.resolve_right (by simp)
    rw [hheld]
    exact ⟨List.nil_suffix, List.nil_suffix, fun _ => rfl⟩
  | cons m ms ih =>
    obtain ⟨g, hg, hrest⟩ := Option.bind_eq_some_iff.mp hrun
    have ihg := fun hm => ih (inOrder_step h m g hin hg) hrest (hsettles.tail hm)
    cases m with
    | acquire r granted =>
      obtain ⟨hgiving, hr, rfl⟩ := step_acquire hg
      by_cases hrbase : r = base
      · rw [givenBack_asks (by simp [Mark.asksFor, hrbase]), (asks_iff hnodup hbase hr).mp hrbase]
        exact ⟨List.nil_suffix, List.nil_suffix, fun _ => rfl⟩
      · obtain ⟨horder, hheld, -⟩ := ihg (by simp [Mark.asksFor, hrbase])
        rw [givenBack_cons (by simp [Mark.asksFor, hrbase])]
        refine ⟨horder, ?_, ?_⟩
        · cases granted with
          | false => exact hheld
          | true => exact (List.suffix_cons r h.held).trans hheld
        · intro hp
          cases hp with
          | inl htrue =>
            rw [hgiving] at htrue
            cases htrue
          | inr hnil => exact absurd ((asks_iff hnodup hbase hr).mpr hnil) hrbase
    | release r =>
      obtain ⟨rest, hheld, rfl⟩ := step_release hg
      obtain ⟨-, -, hall⟩ := ihg rfl
      have hgives : givenBack base (.release r :: ms) = h.held := by
        rw [givenBack_cons rfl, hall (by cases rest <;> simp), hheld]
        rfl
      rw [hgives]
      exact ⟨hin, List.suffix_refl _, fun _ => rfl⟩
    | other =>
      obtain rfl := Option.some.inj hg
      rw [givenBack_cons rfl]
      exact ihg rfl

/-- **An acquisition is given back**, once, with all that was acquired before it and in
order, before the first resource is asked for again. -/
theorem given_back {base r : R} (hnodup : order.Nodup) (hbase : order.getLast? = some base)
    {a b : List (Mark R)} {k : Holding R}
    (hrun : (machine order).run Holding.nothing (a ++ .acquire r true :: b) = some k) (hsettles : Settles base b k) :
    (givenBack base b).count r = 1 ∧ givenBack base b <:+ order := by
  rw [Machine.run_append] at hrun
  obtain ⟨h, ha, hrest⟩ := Option.bind_eq_some_iff.mp hrun
  obtain ⟨g, hg, hb⟩ := Option.bind_eq_some_iff.mp hrest
  have hin : InOrder order h := (machine order).invariant inOrder_step ha List.nil_suffix
  obtain ⟨horder, hheld, -⟩ := given_back_run hnodup hbase (inOrder_step h _ g hin hg) hb hsettles
  refine ⟨List.count_eq_one_of_mem (horder.sublist.nodup hnodup) (hheld.subset ?_), horder⟩
  obtain ⟨-, -, rfl⟩ := step_acquire hg
  exact List.mem_cons_self

end Nesting

end VrxServer.Base
