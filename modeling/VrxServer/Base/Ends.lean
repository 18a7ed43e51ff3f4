import Mathlib.Init
/-! How a computation with state and exceptions ends.

`Ends x s Q X` says that `x`, started in `s`, ends in `Q` if it returns and in `X` if it
stops on the way. The rules are equivalences, so rewriting with them turns a statement
about a program into one about its branches: what a bind must establish is what its
first part must end in. The state a computation had when it stopped is the one the rest
goes on from, as with an exception. -/
namespace VrxServer.Base

variable {ε σ α β : Type}

def Ends (x : EStateM ε σ α) (s : σ) (Q : α → σ → Prop) (X : ε → σ → Prop) : Prop :=
  match x s with
  | .ok a t => Q a t
  | .error e t => X e t

variable {x : EStateM ε σ α} {s : σ} {Q R : α → σ → Prop} {X Y : ε → σ → Prop}

@[simp] theorem ends_bind {f : α → EStateM ε σ β} {Q : β → σ → Prop} :
    Ends (x >>= f) s Q X ↔ Ends x s (fun a t => Ends (f a) t Q X) X := by
  show (match EStateM.bind x f s with | .ok a t => Q a t | .error e t => X e t) ↔ _
  unfold EStateM.bind Ends
  cases x s <;> rfl

@[simp] theorem ends_pure {a : α} : Ends (pure a : EStateM ε σ α) s Q X ↔ Q a s := Iff.rfl

@[simp] theorem ends_throw {e : ε} : Ends (throw e : EStateM ε σ α) s Q X ↔ X e s := Iff.rfl

@[simp] theorem ends_get {Q : σ → σ → Prop} : Ends (get : EStateM ε σ σ) s Q X ↔ Q s s := Iff.rfl

/-- A program that begins with a look at its state. -/
theorem get_bind (f : σ → EStateM ε σ α) (s : σ) : (get >>= f) s = f s s := rfl

@[simp] theorem ends_ite {c : Prop} [Decidable c] {y : EStateM ε σ α} :
    Ends (if c then x else y) s Q X ↔ (c → Ends x s Q X) ∧ (¬ c → Ends y s Q X) := by
  by_cases hc : c <;> simp [hc]

namespace Ends

/-- The rule of consequence. -/
theorem mono (h : Ends x s Q X) (hQ : ∀ a t, Q a t → R a t) (hX : ∀ e t, X e t → Y e t) : Ends x s R Y := by
  unfold Ends at h ⊢
  cases hx : x s with
  | ok a t => rw [hx] at h; exact hQ a t h
  | error e t => rw [hx] at h; exact hX e t h

theorem of_ok (h : Ends x s Q X) {a : α} {t : σ} (hx : x s = .ok a t) : Q a t := by
  unfold Ends at h
  rwa [hx] at h

theorem of_error (h : Ends x s Q X) {e : ε} {t : σ} (hx : x s = .error e t) : X e t := by
  unfold Ends at h
  rwa [hx] at h

end Ends

end VrxServer.Base
