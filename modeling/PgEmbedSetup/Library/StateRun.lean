import Mathlib.Logic.Basic

set_option autoImplicit false

/-! Running programs of `EStateM`, whose errors keep the state they were raised in. -/

namespace PgEmbedSetup.Library

variable {ε σ α β : Type}

@[simp] theorem bind_run (x : EStateM ε σ α) (f : α → EStateM ε σ β) (s : σ) :
    (x >>= f) s = match x s with | .ok a t => f a t | .error e t => .error e t := by
  change EStateM.bind x f s = _
  unfold EStateM.bind
  cases x s <;> rfl

theorem bind_ok {x : EStateM ε σ α} {s t : σ} {a : α} (h : x s = .ok a t)
    (f : α → EStateM ε σ β) : (x >>= f) s = f a t := by simp [h]

@[simp] theorem ite_run (c : Prop) [Decidable c] (x y : EStateM ε σ α) (s : σ) :
    (if c then x else y) s = if c then x s else y s := by split <;> rfl

@[simp] theorem map_run (f : α → β) (x : EStateM ε σ α) (s : σ) :
    (f <$> x) s = match x s with | .ok a t => .ok (f a) t | .error e t => .error e t := by
  change EStateM.map f x s = _
  unfold EStateM.map
  cases x s <;> rfl

@[simp] theorem pure_run (a : α) (s : σ) : (pure a : EStateM ε σ α) s = .ok a s := rfl

@[simp] theorem throw_run (e : ε) (s : σ) : (throw e : EStateM ε σ α) s = .error e s := rfl

@[simp] theorem get_run (s : σ) : (get : EStateM ε σ σ) s = .ok s s := rfl

@[simp] theorem modify_run (f : σ → σ) (s : σ) :
    (modify f : EStateM ε σ Unit) s = .ok () (f s) := rfl

/-- A program that ends well has gone through its first part. -/
theorem bind_eq_ok {x : EStateM ε σ α} {f : α → EStateM ε σ β} {s t : σ} {b : β}
    (h : (x >>= f) s = .ok b t) : ∃ a u, x s = .ok a u ∧ f a u = .ok b t := by
  cases hx : x s with
  | error e u => simp [hx] at h
  | ok a u => exact ⟨a,u,rfl,by simpa [hx] using h⟩

/-- The state a program ends in, whether it succeeds or not. -/
def stateOf : EStateM.Result ε σ α → σ
  | .ok _ s => s
  | .error _ s => s

@[simp] theorem stateOf_ok (a : α) (s : σ) :
    stateOf (.ok a s : EStateM.Result ε σ α) = s := rfl

@[simp] theorem stateOf_error (e : ε) (s : σ) :
    stateOf (.error e s : EStateM.Result ε σ α) = s := rfl

/-- However it ends, the program takes every state to a related one. -/
def Changes (R : σ → σ → Prop) (x : EStateM ε σ α) : Prop := ∀ s, R s (stateOf (x s))

theorem Changes.pure {R : σ → σ → Prop} (hrefl : ∀ s, R s s) (a : α) :
    Changes R (pure a : EStateM ε σ α) := hrefl

theorem Changes.bind {R : σ → σ → Prop} (htrans : ∀ s t u, R s t → R t u → R s u)
    {x : EStateM ε σ α} {f : α → EStateM ε σ β} (hx : Changes R x) (hf : ∀ a, Changes R (f a)) :
    Changes R (x >>= f) := by
  intro s
  have h := hx s
  rw [bind_run]
  cases hrun : x s with
  | error e t => simpa [hrun,stateOf] using h
  | ok a t =>
    rw [hrun] at h
    exact htrans _ _ _ h (hf a t)

end PgEmbedSetup.Library
