import Mathlib.Data.List.Basic
import Mathlib.Algebra.Order.Group.Nat
import Mathlib.Algebra.Group.Nat.Even

/-! Interleaved pairs: a list of pairs laid out flat, `[a₀, b₀, a₁, b₁, …]`. -/
namespace VrxServer.Base

def interleave {α : Type} : List (α × α) → List α
  | [] => []
  | (a, b) :: xs => a :: b :: interleave xs

variable {α : Type}

@[simp] theorem interleave_nil : interleave ([] : List (α × α)) = [] := rfl

@[simp] theorem length_interleave (xs : List (α × α)) : (interleave xs).length = xs.length * 2 := by
  induction xs with
  | nil => rfl
  | cons x xs ih =>
    simp only [interleave, List.length_cons, ih]
    omega

theorem half_length_interleave (xs : List (α × α)) : (interleave xs).length / 2 = xs.length := by
  rw [length_interleave, Nat.mul_div_cancel _ (Nat.succ_pos 1)]

theorem interleave_append (xs ys : List (α × α)) :
    interleave (xs ++ ys) = interleave xs ++ interleave ys := by
  induction xs with
  | nil => rfl
  | cons x xs ih => simp only [List.cons_append, interleave, ih]

theorem interleave_flatten (xss : List (List (α × α))) :
    interleave xss.flatten = (xss.map interleave).flatten := by
  induction xss with
  | nil => rfl
  | cons xs xss ih => rw [List.flatten_cons, interleave_append, ih, List.map_cons, List.flatten_cons]

theorem drop_interleave (xs : List (α × α)) (n : ℕ) :
    (interleave xs).drop (n * 2) = interleave (xs.drop n) := by
  induction n generalizing xs with
  | zero => simp
  | succ n ih =>
    cases xs with
    | nil => simp
    | cons x xs =>
      have : (n + 1) * 2 = n * 2 + 1 + 1 := by omega
      rw [this]
      exact ih xs

theorem getElem?_interleave (xs : List (α × α)) (n : ℕ) :
    (interleave xs)[n * 2]? = xs[n]?.map Prod.fst ∧
      (interleave xs)[n * 2 + 1]? = xs[n]?.map Prod.snd := by
  induction n generalizing xs with
  | zero => cases xs <;> simp [interleave]
  | succ n ih =>
    cases xs with
    | nil => simp
    | cons x xs =>
      have h : (n + 1) * 2 = n * 2 + 1 + 1 := by omega
      rw [h]
      simpa only [interleave, List.getElem?_cons_succ] using ih xs

theorem interleave_replicate (a : α) (n : ℕ) :
    interleave (List.replicate n (a, a)) = List.replicate (n * 2) a := by
  induction n with
  | zero => rfl
  | succ n ih =>
    have h : (n + 1) * 2 = n * 2 + 1 + 1 := by omega
    rw [List.replicate_succ, interleave, ih, h, List.replicate_succ, List.replicate_succ]

theorem interleave_injective : Function.Injective (interleave (α := α)) := by
  intro xs ys h
  induction xs generalizing ys with
  | nil =>
    cases ys with
    | nil => rfl
    | cons y ys => cases h
  | cons x xs ih =>
    cases ys with
    | nil => cases h
    | cons y ys =>
      simp only [interleave, List.cons.injEq] at h
      obtain ⟨h₁, h₂, h₃⟩ := h
      rw [ih h₃, Prod.ext h₁ h₂]

/-- Every list of even length is a list of pairs laid out flat. -/
theorem exists_interleave {xs : List α} (h : Even xs.length) : ∃ ps, interleave ps = xs := by
  match xs with
  | [] => exact ⟨[], rfl⟩
  | [_] => exact absurd h (by simp)
  | a :: b :: rest =>
    have hrest : Even rest.length := by
      rw [List.length_cons, List.length_cons, Nat.even_add_one, Nat.even_add_one, not_not] at h
      exact h
    obtain ⟨ps, rfl⟩ := exists_interleave hrest
    exact ⟨(a, b) :: ps, rfl⟩
termination_by xs.length

/-- So is every list of such lists. -/
theorem exists_map_interleave {xss : List (List α)} (h : ∀ xs ∈ xss, Even xs.length) :
    ∃ pss : List (List (α × α)), pss.map interleave = xss := by
  induction xss with
  | nil => exact ⟨[], rfl⟩
  | cons xs xss ih =>
    obtain ⟨ps, hps⟩ := exists_interleave (h xs List.mem_cons_self)
    obtain ⟨pss, hpss⟩ := ih fun ys hys => h ys (List.mem_cons_of_mem xs hys)
    exact ⟨ps :: pss, by rw [List.map_cons, hps, hpss]⟩

/-- A loop that writes the pair `f i` at its place, for `i` from 0 to `n`. -/
theorem foldl_set_interleave (buf : List α) (f : ℕ → α × α) (n : ℕ) (h : n * 2 ≤ buf.length) :
    (List.range n).foldl (fun buf i => (buf.set (i * 2) (f i).1).set (i * 2 + 1) (f i).2) buf =
      interleave ((List.range n).map f) ++ buf.drop (n * 2) := by
  induction n with
  | zero => simp
  | succ n ih =>
    have hlen : (interleave ((List.range n).map f)).length = n * 2 := by
      rw [length_interleave, List.length_map, List.length_range]
    have hdrop : buf.drop (n * 2) = buf[n * 2] :: buf[n * 2 + 1] :: buf.drop ((n + 1) * 2) := by
      have hnext : (n + 1) * 2 = n * 2 + 1 + 1 := by omega
      rw [List.drop_eq_getElem_cons (by omega), List.drop_eq_getElem_cons (by omega), hnext]
    rw [List.range_succ, List.foldl_append, ih (by omega), List.map_append, interleave_append, hdrop]
    simp only [List.foldl_cons, List.foldl_nil, List.map_cons, List.map_nil, interleave]
    rw [List.set_append_right _ _ hlen.le, List.set_append_right _ _ (by omega), hlen]
    simp only [Nat.sub_self, Nat.add_sub_cancel_left, List.set_cons_zero, List.set_cons_succ, List.append_assoc,
      List.cons_append, List.nil_append]

end VrxServer.Base
