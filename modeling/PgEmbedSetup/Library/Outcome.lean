set_option autoImplicit false

/-!
Programs over a state that finish, fail or wait for ever. The state a failed program
leaves behind is kept.
-/

namespace PgEmbedSetup.Library

inductive Outcome (σ ε α : Type) where
  | done (a : α) (s : σ)
  | failed (e : ε) (s : σ)
  | hangs (s : σ)
  deriving DecidableEq, Repr

/-- The state a finished program leaves. -/
def Outcome.finished {σ ε α : Type} : Outcome σ ε α → Option σ
  | .done _ s => some s
  | .failed .. => none
  | .hangs _ => none

/-- The state there is in the end, however it ends. -/
def Outcome.state {σ ε α : Type} : Outcome σ ε α → σ
  | .done _ s => s
  | .failed _ s => s
  | .hangs s => s

/-- It finishes, as wanted. -/
def Outcome.satisfies {σ ε α : Type} (o : Outcome σ ε α) (wanted : α → σ → Bool) : Bool :=
  match o with
  | .done a s => wanted a s
  | .failed .. | .hangs _ => false

theorem exists_of_satisfies {σ ε α : Type} {o : Outcome σ ε α} {wanted : α → σ → Bool}
    (h : o.satisfies wanted = true) : ∃ a s, o = .done a s ∧ wanted a s = true := by
  cases o with
  | done a s => exact ⟨a,s,rfl,h⟩
  | failed e s => cases h
  | hangs s => cases h

def Prog (σ ε α : Type) := σ → Outcome σ ε α

variable {σ ε α β : Type}

def Prog.pure (a : α) : Prog σ ε α := fun s => .done a s

def Prog.bind (x : Prog σ ε α) (f : α → Prog σ ε β) : Prog σ ε β := fun s =>
  match x s with
  | .done a s => f a s
  | .failed e s => .failed e s
  | .hangs s => .hangs s

instance : Monad (Prog σ ε) where
  pure := Prog.pure
  bind := Prog.bind

def Prog.fail (e : ε) : Prog σ ε α := fun s => .failed e s

def Prog.wait : Prog σ ε α := fun s => .hangs s

/-- `map_err`. -/
def Prog.mapError {ε' : Type} (f : ε → ε') (x : Prog σ ε α) : Prog σ ε' α := fun s =>
  match x s with
  | .done a s => .done a s
  | .failed e s => .failed (f e) s
  | .hangs s => .hangs s

/-! ### What a finished program did -/

theorem exists_of_finished {o : Outcome σ ε Unit} {s : σ} (h : o.finished = some s) :
    o = .done () s := by
  cases o with
  | done a s' =>
    simp only [Outcome.finished,Option.some.injEq] at h
    rw [h]
  | failed e s' => simp [Outcome.finished] at h
  | hangs s' => simp [Outcome.finished] at h

theorem bind_of_done {x : Prog σ ε α} {f : α → Prog σ ε β} {s s' : σ} {a : α}
    (h : x s = .done a s') : (x >>= f) s = f a s' := by
  change Prog.bind x f s = _
  simp only [Prog.bind,h]

theorem bind_of_failed {x : Prog σ ε α} {f : α → Prog σ ε β} {s s' : σ} {e : ε}
    (h : x s = .failed e s') : (x >>= f) s = .failed e s' := by
  change Prog.bind x f s = _
  simp only [Prog.bind,h]

theorem bind_of_hangs {x : Prog σ ε α} {f : α → Prog σ ε β} {s s' : σ} (h : x s = .hangs s') :
    (x >>= f) s = .hangs s' := by
  change Prog.bind x f s = _
  simp only [Prog.bind,h]

theorem bind_bind {γ : Type} (x : Prog σ ε α) (f : α → Prog σ ε β) (g : β → Prog σ ε γ) (s : σ) :
    ((x >>= f) >>= g) s = (x >>= fun a => f a >>= g) s := by
  change Prog.bind (Prog.bind x f) g s = Prog.bind x (fun a => Prog.bind (f a) g) s
  cases h : x s with
  | done a s₁ => simp only [Prog.bind,h]
  | failed e s₁ => simp only [Prog.bind,h]
  | hangs s₁ => simp only [Prog.bind,h]

theorem bind_done {x : Prog σ ε α} {f : α → Prog σ ε β} {s s' : σ} {b : β} :
    (x >>= f) s = .done b s' ↔ ∃ a s₁, x s = .done a s₁ ∧ f a s₁ = .done b s' := by
  change Prog.bind x f s = .done b s' ↔ _
  cases hx : x s with
  | failed e s₁ => simp [Prog.bind,hx]
  | hangs s₁ => simp [Prog.bind,hx]
  | done a s₁ =>
    simp only [Prog.bind,hx,Outcome.done.injEq]
    constructor
    · intro h
      exact ⟨a,s₁,⟨rfl,rfl⟩,h⟩
    · rintro ⟨_,_,⟨rfl,rfl⟩,h⟩
      exact h

theorem pure_done {a b : α} {s s' : σ} :
    (pure a : Prog σ ε α) s = .done b s' ↔ a = b ∧ s = s' := by
  change Outcome.done a s = .done b s' ↔ _
  simp

theorem fail_done {e : ε} {a : α} {s s' : σ} : (Prog.fail e : Prog σ ε α) s ≠ .done a s' := by
  simp [Prog.fail]

theorem mapError_done {ε' : Type} {f : ε → ε'} {x : Prog σ ε α} {s s' : σ} {a : α} :
    (x.mapError f) s = .done a s' ↔ x s = .done a s' := by
  cases hx : x s with
  | done b s₁ => simp [Prog.mapError,hx]
  | failed e s₁ => simp [Prog.mapError,hx]
  | hangs s₁ => simp [Prog.mapError,hx]

/-! ### What a program that does not finish leaves -/

/-- The state is `left` when the program failed and `waiting` when it waits. -/
def Outcome.Stops (o : Outcome σ ε α) (left waiting : σ → Prop) : Prop :=
  match o with
  | .done _ _ => True
  | .failed _ s => left s
  | .hangs s => waiting s

variable {left left' waiting waiting' : σ → Prop}

theorem Outcome.Stops.mono {o : Outcome σ ε α} (h : o.Stops left waiting)
    (hleft : ∀ s, left s → left' s) (hwaiting : ∀ s, waiting s → waiting' s) :
    o.Stops left' waiting' := by
  cases o with
  | done a s => trivial
  | failed e s => exact hleft s h
  | hangs s => exact hwaiting s h

theorem stops_of_done {o : Outcome σ ε α} (h : ∃ a s, o = .done a s) : o.Stops left waiting := by
  obtain ⟨a,s,rfl⟩ := h
  trivial

theorem stops_fail {e : ε} {s : σ} (h : left s) :
    ((Prog.fail e : Prog σ ε α) s).Stops left waiting := h

theorem stops_bind {x : Prog σ ε α} {f : α → Prog σ ε β} {s : σ} (hx : (x s).Stops left waiting)
    (hf : ∀ a s', x s = .done a s' → (f a s').Stops left waiting) :
    ((x >>= f) s).Stops left waiting := by
  change (Prog.bind x f s).Stops left waiting
  cases h : x s with
  | done a s' => simpa only [Prog.bind,h] using hf a s' h
  | failed e s' =>
    rw [h] at hx
    simp only [Prog.bind,h]
    exact hx
  | hangs s' =>
    rw [h] at hx
    simp only [Prog.bind,h]
    exact hx

end PgEmbedSetup.Library
