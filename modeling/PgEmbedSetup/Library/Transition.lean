import Mathlib.Data.List.Basic

set_option autoImplicit false

/-!
Labelled transition systems: runs, reachability and the two induction rules the
developments above use. A step is a relation, so a label may have several
outcomes (a crash, a race) or none (a blocked lock).
-/

namespace PgEmbedSetup.Library

structure System (σ α : Type*) where
  init : σ → Prop
  step : σ → α → σ → Prop

namespace System

variable {σ α : Type*}

/-- Runs in execution order; the last label is the last step taken. -/
inductive Run (T : System σ α) : σ → List α → σ → Prop where
  | nil (s : σ) : Run T s [] s
  | snoc {s t u : σ} {as : List α} {a : α} : Run T s as t → T.step t a u → Run T s (as ++ [a]) u

def Reachable (T : System σ α) (s : σ) : Prop := ∃ s₀ as, T.init s₀ ∧ T.Run s₀ as s

/-- A system restricted to the steps that meet a condition on the state before them. -/
def restrict (T : System σ α) (C : σ → α → Prop) : System σ α where
  init := T.init
  step s a t := C s a ∧ T.step s a t

theorem reachable_init (T : System σ α) {s : σ} (h : T.init s) : T.Reachable s :=
  ⟨s,[],h,.nil s⟩

theorem reachable_step (T : System σ α) {s t : σ} {a : α} (h : T.Reachable s)
    (hs : T.step s a t) : T.Reachable t := by
  obtain ⟨s₀,as,h₀,hr⟩ := h
  exact ⟨s₀,as ++ [a],h₀,hr.snoc hs⟩

/-- A condition that every step meets restricts nothing. -/
theorem reachable_restrict (T : System σ α) {C : σ → α → Prop} (hC : ∀ s a, C s a) {s : σ}
    (h : T.Reachable s) : (T.restrict C).Reachable s := by
  obtain ⟨s₀,as,h₀,hr⟩ := h
  refine ⟨s₀,as,h₀,?_⟩
  clear h₀
  induction hr with
  | nil => exact .nil _
  | snoc _ hstep ih => exact ih.snoc ⟨hC _ _,hstep⟩

theorem reachable_of_restrict (T : System σ α) {C : σ → α → Prop} {s : σ}
    (h : (T.restrict C).Reachable s) : T.Reachable s := by
  obtain ⟨s₀,as,h₀,hr⟩ := h
  refine ⟨s₀,as,h₀,?_⟩
  clear h₀
  induction hr with
  | nil => exact .nil _
  | snoc _ hstep ih => exact ih.snoc hstep.2

theorem restrict_restrict (T : System σ α) (C D : σ → α → Prop) :
    (T.restrict C).restrict D = T.restrict (fun s a => D s a ∧ C s a) := by
  simp only [restrict,and_assoc]

theorem reachable_mono (T : System σ α) {C D : σ → α → Prop} (hCD : ∀ s a, C s a → D s a) {s : σ}
    (h : (T.restrict C).Reachable s) : (T.restrict D).Reachable s := by
  obtain ⟨s₀,as,h₀,hr⟩ := h
  refine ⟨s₀,as,h₀,?_⟩
  clear h₀
  induction hr with
  | nil => exact .nil _
  | snoc _ hstep ih => exact ih.snoc ⟨hCD _ _ hstep.1,hstep.2⟩

/-- What holds at the start and survives every step holds in every reachable state. -/
theorem invariant (T : System σ α) {I : σ → Prop} (h₀ : ∀ s, T.init s → I s)
    (hs : ∀ s a t, I s → T.step s a t → I t) {s : σ} (h : T.Reachable s) : I s := by
  obtain ⟨s₀,as,hi,hr⟩ := h
  induction hr with
  | nil => exact h₀ _ hi
  | snoc _ hstep ih => exact hs _ _ _ ih hstep

/-- The inductive step may use an invariant proved before. -/
theorem invariant_of (T : System σ α) {J I : σ → Prop} (hJ : ∀ s, T.Reachable s → J s)
    (h₀ : ∀ s, T.init s → I s)
    (hs : ∀ s a t, J s → J t → I s → T.step s a t → I t) {s : σ} (h : T.Reachable s) : I s := by
  obtain ⟨s₀,as,hi,hr⟩ := h
  induction hr with
  | nil => exact h₀ _ hi
  | @snoc t u as a hrun hstep ih =>
    have ht : T.Reachable t := ⟨s₀,as,hi,hrun⟩
    exact hs _ _ _ (hJ _ ht) (hJ _ (T.reachable_step ht hstep)) ih hstep

/-! ### Steps that can be computed -/

def ofStep (init : σ → Prop) (step : σ → α → Option σ) : System σ α where
  init := init
  step s a t := step s a = some t

/-- The steps of a list one after the other, each allowed by `meets`. -/
def runSteps (step : σ → α → Option σ) (meets : σ → α → Bool) : σ → List α → Option σ
  | s, [] => some s
  | s, a :: rest => if meets s a then (step s a).bind fun t => runSteps step meets t rest else none

variable {init : σ → Prop} {step : σ → α → Option σ} {meets : σ → α → Bool}

theorem reachable_runSteps {s t : σ} {as : List α}
    (h : ((ofStep init step).restrict (fun s a => meets s a = true)).Reachable s)
    (hr : runSteps step meets s as = some t) :
    ((ofStep init step).restrict (fun s a => meets s a = true)).Reachable t := by
  induction as generalizing s with
  | nil =>
    cases hr
    exact h
  | cons a rest ih =>
    simp only [runSteps] at hr
    split at hr
    · rename_i hmeets
      obtain ⟨u,hu,hrest⟩ := Option.bind_eq_some_iff.mp hr
      exact ih (reachable_step _ h ⟨hmeets,hu⟩) hrest
    · cases hr

/-- A list of steps that ends as wanted shows a reachable state of that kind. -/
theorem runSteps_reaches (init : σ → Prop) (step : σ → α → Option σ) (meets : σ → α → Bool) {s : σ}
    (hinit : init s) (as : List α) (wanted : σ → Bool)
    (h : (runSteps step meets s as).any wanted = true) :
    ∃ t, ((ofStep init step).restrict (fun s a => meets s a = true)).Reachable t ∧
      wanted t = true := by
  cases hrun : runSteps step meets s as with
  | none => simp [hrun] at h
  | some t =>
    rw [hrun,Option.any_some] at h
    exact ⟨t,reachable_runSteps (reachable_init _ hinit) hrun,h⟩

end System
end PgEmbedSetup.Library
