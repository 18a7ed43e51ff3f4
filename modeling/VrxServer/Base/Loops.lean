import Mathlib.Data.List.Basic

/-! Programs that can fail, and loops of steps that can.

A step that fails gives `none` or an `Except.error`, and the loop over it then fails too. The
rules say when a loop does not: where an invariant keeps its steps defined
(`foldlM_defined`), where they stay in step with steps that cannot fail (`foldlM_viewed`,
`foldlM_follows`), or where each step depends on its item alone (`foldlM_ok_iff`). -/
namespace VrxServer.Base

section Except
variable {E S T A : Type}

theorem ok_bind (a : S) (f : S → Except E T) : (Except.ok a >>= f) = f a := rfl

theorem error_bind (e : E) (f : S → Except E T) : ((Except.error e : Except E S) >>= f) = .error e := rfl

theorem bind_ok {x : Except E S} {f : S → Except E T} {b : T} (h : (x >>= f) = .ok b) :
    ∃ a, x = .ok a ∧ f a = .ok b := by
  cases x with
  | error e => cases h
  | ok a => exact ⟨a, rfl, h⟩

theorem forM_ok {f : S → Except E Unit} {xs : List S} : xs.forM f = .ok () ↔ ∀ x ∈ xs, f x = .ok () := by
  induction xs with
  | nil => exact iff_of_true rfl fun x hx => nomatch hx
  | cons x xs ih =>
    rw [List.forall_mem_cons, ← ih, List.forM_eq_forM, List.forM_cons]
    cases hx : f x with
    | error e => exact iff_of_false (fun h => nomatch h) (fun h => nomatch h.1)
    | ok u => exact (and_iff_right rfl).symm

theorem mapM_ok {f : S → Except E T} {xs : List S} {ys : List T} (h : xs.mapM f = .ok ys) :
    ∀ y ∈ ys, ∃ x, f x = .ok y := by
  induction xs generalizing ys with
  | nil =>
    cases h
    exact nofun
  | cons x xs ih =>
    rw [List.mapM_cons] at h
    obtain ⟨y, hy, h⟩ := bind_ok h
    obtain ⟨rest, hrest, h⟩ := bind_ok h
    cases h
    exact List.forall_mem_cons.mpr ⟨⟨x, hy⟩, ih hrest⟩

/-- What is written element by element is read back so. -/
theorem mapM_map {f : S → Except E T} {g : T → S} {ys : List T} (h : ∀ y ∈ ys, f (g y) = .ok y) :
    (ys.map g).mapM f = .ok ys := by
  induction ys with
  | nil => rfl
  | cons y ys ih =>
    obtain ⟨hy, hys⟩ := List.forall_mem_cons.mp h
    rw [List.map_cons, List.mapM_cons, hy, ok_bind, ih hys]
    rfl

/-- Steps that fail, or do not, of their item alone. -/
theorem foldlM_ok_iff {f : S → A → Except E S} {P : A → Prop} (h : ∀ s a, (∃ s', f s a = .ok s') ↔ P a)
    (s : S) (as : List A) : (∃ s', as.foldlM f s = .ok s') ↔ ∀ a ∈ as, P a := by
  induction as generalizing s with
  | nil => exact iff_of_true ⟨s, rfl⟩ nofun
  | cons a as ih =>
    rw [List.forall_mem_cons, ← h s, List.foldlM_cons]
    cases hstep : f s a with
    | error e => simp only [error_bind, reduceCtorEq, exists_false, false_and]
    | ok t => simp only [ok_bind, ih t, Except.ok.injEq, exists_eq', true_and]

/-- A loop fails where a step does. -/
theorem foldlM_error {f : S → A → Except E S} {s : S} {as : List A} {e : E} (h : as.foldlM f s = .error e) :
    ∃ t a, f t a = .error e := by
  induction as generalizing s with
  | nil => cases h
  | cons a as ih =>
    rw [List.foldlM_cons] at h
    cases hstep : f s a with
    | error e' =>
      rw [hstep] at h
      cases h
      exact ⟨s, a, hstep⟩
    | ok t =>
      rw [hstep] at h
      exact ih h

end Except

section Option
variable {S T A B : Type}

theorem mapM_eq_map {f : A → Option B} {g : A → B} {xs : List A} (h : ∀ x ∈ xs, f x = some (g x)) :
    xs.mapM f = some (xs.map g) := by
  induction xs with
  | nil => rfl
  | cons x xs ih =>
    rw [List.mapM_cons, h x List.mem_cons_self, ih fun y hy => h y (List.mem_cons_of_mem x hy)]
    rfl

/-- A counted loop whose steps are defined where `P` holds before them. -/
theorem foldlM_defined (P : ℕ → S → Prop) {f : S → ℕ → Option S} {start n step : ℕ} {s : S} (h : P 0 s)
    (hstep : ∀ k s, k < n → P k s → ∃ s', f s (start + step * k) = some s' ∧ P (k + 1) s') :
    ∃ s', (List.range' start n step).foldlM f s = some s' ∧ P n s' := by
  induction n with
  | zero => exact ⟨s, rfl, h⟩
  | succ n ih =>
    obtain ⟨s', hs, hP⟩ := ih fun k s hk => hstep k s (Nat.lt_succ_of_lt hk)
    obtain ⟨s'', hs', hP'⟩ := hstep n s' (Nat.lt_succ_self n) hP
    refine ⟨s'', ?_, hP'⟩
    rw [List.range'_concat, List.foldlM_append, hs]
    show List.foldlM f s' [start + step * n] = some s''
    rw [List.foldlM_cons, hs']
    rfl

/-- A counted loop of defined steps, seen through `view`, is the loop of the steps seen. -/
theorem foldlM_viewed (view : S → T) {f : S → ℕ → Option S} {g : T → ℕ → T} {start n step : ℕ}
    (hstep : ∀ k s, k < n → ∃ s', f s (start + step * k) = some s' ∧ view s' = g (view s) k) (s : S) :
    ∃ s', (List.range' start n step).foldlM f s = some s' ∧ view s' = (List.range n).foldl g (view s) := by
  apply foldlM_defined (fun k s' => view s' = (List.range k).foldl g (view s)) rfl
  intro k s' hk hview
  obtain ⟨s'', hs, hview'⟩ := hstep k s' hk
  refine ⟨s'', hs, ?_⟩
  rw [hview', hview, List.range_succ, List.foldl_append]
  rfl

/-- Steps that are defined and stay related to steps that cannot fail. -/
theorem foldlM_follows {R : S → T → Prop} {f : S → A → Option S} {g : T → A → T}
    (hstep : ∀ {s t} a, R s t → ∃ s', f s a = some s' ∧ R s' (g t a)) {s : S} {t : T} (h : R s t) (as : List A) :
    ∃ s', as.foldlM f s = some s' ∧ R s' (as.foldl g t) := by
  induction as generalizing s t with
  | nil => exact ⟨s, rfl, h⟩
  | cons a as ih =>
    obtain ⟨s', hs, hrel⟩ := hstep a h
    rw [List.foldlM_cons, hs, Option.bind_eq_bind, Option.bind_some, List.foldl_cons]
    exact ih hrel

theorem foldlM_stays {f : S → A → Option S} {s : S} (h : ∀ a, f s a = some s) (as : List A) :
    as.foldlM f s = some s := by
  induction as with
  | nil => rfl
  | cons a as ih =>
    rw [List.foldlM_cons, h a]
    exact ih

end Option

end VrxServer.Base
