import PgEmbedSetup.Library.Outcome

set_option autoImplicit false

/-!
Programs that keep a record of what they do. The record is ghost state: erased, the program
is the one without it, and a bound on the record is put together from those of its pieces.
-/

namespace PgEmbedSetup.Library

/-- A state with the record of what has been done so far. -/
structure Logged (σ ω : Type) where
  state : σ
  log : List ω

variable {σ τ ω ε ε' α β : Type}

def Outcome.map (f : σ → τ) : Outcome σ ε α → Outcome τ ε α
  | .done a s => .done a (f s)
  | .failed e s => .failed e (f s)
  | .hangs s => .hangs (f s)

/-- A program of which nothing is recorded. -/
def Prog.quiet (x : Prog σ ε α) : Prog (Logged σ ω) ε α :=
  fun s => (x s.state).map (fun t => ⟨t,s.log⟩)

def Prog.record (event : ω) : Prog (Logged σ ω) ε Unit :=
  fun s => .done () ⟨s.state,s.log ++ [event]⟩

/-! ### Erasing the record -/

/-- `y` is `x` with a record kept. -/
def Prog.Erases (y : Prog (Logged σ ω) ε α) (x : Prog σ ε α) : Prop :=
  ∀ s, (y s).map Logged.state = x s.state

theorem erases_pure (a : α) : (pure a : Prog (Logged σ ω) ε α).Erases (pure a) := fun _ => rfl

theorem erases_fail (e : ε) : (Prog.fail e : Prog (Logged σ ω) ε α).Erases (Prog.fail e) :=
  fun _ => rfl

theorem erases_quiet (x : Prog σ ε α) : (Prog.quiet x : Prog (Logged σ ω) ε α).Erases x := by
  intro s
  cases h : x s.state <;> simp [Prog.quiet,h,Outcome.map]

theorem Prog.Erases.bind {y : Prog (Logged σ ω) ε α} {x : Prog σ ε α}
    {g : α → Prog (Logged σ ω) ε β} {f : α → Prog σ ε β} (hx : y.Erases x)
    (hf : ∀ a, (g a).Erases (f a)) : (y >>= g).Erases (x >>= f) := by
  intro s
  have hs := hx s
  change (Prog.bind y g s).map Logged.state = Prog.bind x f s.state
  cases h : y s with
  | done a t =>
    rw [h] at hs
    simp only [Prog.bind,h,← hs,Outcome.map]
    exact hf a t
  | failed e t =>
    rw [h] at hs
    simp only [Prog.bind,h,← hs,Outcome.map]
  | hangs t =>
    rw [h] at hs
    simp only [Prog.bind,h,← hs,Outcome.map]

/-- What is only recorded is gone. -/
theorem erases_record_bind {event : ω} {g : Unit → Prog (Logged σ ω) ε β} {x : Prog σ ε β}
    (h : (g ()).Erases x) : (Prog.record event >>= g).Erases x := fun s => h ⟨s.state,_⟩

theorem Prog.Erases.mapError {y : Prog (Logged σ ω) ε α} {x : Prog σ ε α} (h : y.Erases x)
    (f : ε → ε') : (y.mapError f).Erases (x.mapError f) := by
  intro s
  have hs := h s
  cases hy : y s <;>
  · rw [hy] at hs
    simp only [Prog.mapError,hy,← hs,Outcome.map]

/-! ### Bounding the record -/

def Outcome.result : Outcome σ ε α → Option α
  | .done a _ => some a
  | .failed .. | .hangs _ => none

/-- However the program ends, `S` relates its result to what it has added to the record. -/
def Prog.Adds (y : Prog (Logged σ ω) ε α) (S : Option α → List ω → Prop) : Prop :=
  ∀ s, ∃ added, (y s).state.log = s.log ++ added ∧ S (y s).result added

variable {S T : Option α → List ω → Prop} {U : Option β → List ω → Prop}

theorem Prog.Adds.mono {y : Prog (Logged σ ω) ε α} (h : y.Adds S)
    (hST : ∀ r added, S r added → T r added) : y.Adds T := by
  intro s
  obtain ⟨added,hlog,hS⟩ := h s
  exact ⟨added,hlog,hST _ added hS⟩

theorem adds_pure {a : α} (h : S (some a) []) : (pure a : Prog (Logged σ ω) ε α).Adds S :=
  fun s => ⟨[],(List.append_nil s.log).symm,h⟩

theorem adds_fail {e : ε} (h : S none []) : (Prog.fail e : Prog (Logged σ ω) ε α).Adds S :=
  fun s => ⟨[],(List.append_nil s.log).symm,h⟩

theorem adds_quiet (x : Prog σ ε α) (h : ∀ r, S r []) :
    (Prog.quiet x : Prog (Logged σ ω) ε α).Adds S := by
  intro s
  refine ⟨[],?_,h _⟩
  rw [List.append_nil]
  cases hx : x s.state <;> simp [Prog.quiet,hx,Outcome.map,Outcome.state]

/-- What follows is bounded in the knowledge of what there is already. -/
theorem Prog.Adds.bind {x : Prog (Logged σ ω) ε α} {f : α → Prog (Logged σ ω) ε β}
    (hx : x.Adds S) (hstop : ∀ added, S none added → U none added)
    (hf : ∀ a added, S (some a) added → (f a).Adds (fun r more => U r (added ++ more))) :
    (x >>= f).Adds U := by
  intro s
  obtain ⟨added,hlog,hS⟩ := hx s
  change ∃ added, (Prog.bind x f s).state.log = s.log ++ added ∧ U (Prog.bind x f s).result added
  cases h : x s with
  | done a t =>
    rw [h] at hlog hS
    obtain ⟨more,hmore,hU⟩ := hf a added hS t
    simp only [Prog.bind,h]
    exact ⟨added ++ more,by rw [hmore,← List.append_assoc,← hlog]; rfl,hU⟩
  | failed e t =>
    rw [h] at hlog hS
    simp only [Prog.bind,h]
    exact ⟨added,hlog,hstop added hS⟩
  | hangs t =>
    rw [h] at hlog hS
    simp only [Prog.bind,h]
    exact ⟨added,hlog,hstop added hS⟩

theorem adds_quiet_bind (x : Prog σ ε α) {f : α → Prog (Logged σ ω) ε β} (hstop : U none [])
    (hf : ∀ a, (f a).Adds U) : ((Prog.quiet x : Prog (Logged σ ω) ε α) >>= f).Adds U := by
  have hx : (Prog.quiet x : Prog (Logged σ ω) ε α).Adds (fun _ added => added = []) :=
    adds_quiet x (fun _ => rfl)
  refine hx.bind ?_ ?_
  · rintro added rfl
    exact hstop
  · rintro a added rfl
    exact hf a

theorem adds_record_bind {event : ω} {f : Unit → Prog (Logged σ ω) ε β}
    (h : (f ()).Adds (fun r added => U r (event :: added))) : (Prog.record event >>= f).Adds U := by
  intro s
  obtain ⟨added,hlog,hU⟩ := h ⟨s.state,s.log ++ [event]⟩
  exact ⟨event :: added,by rw [List.append_cons]; exact hlog,hU⟩

/-- Nothing is recorded. -/
def Prog.Silent (y : Prog (Logged σ ω) ε α) : Prop := y.Adds (fun _ added => added = [])

theorem silent_quiet (x : Prog σ ε α) : (Prog.quiet x : Prog (Logged σ ω) ε α).Silent :=
  adds_quiet x (fun _ => rfl)

theorem silent_quiet_bind (x : Prog σ ε α) {f : α → Prog (Logged σ ω) ε β}
    (hf : ∀ a, (f a).Silent) : ((Prog.quiet x : Prog (Logged σ ω) ε α) >>= f).Silent :=
  adds_quiet_bind x rfl hf

theorem Prog.Adds.bind_silent {R : List ω → Prop} {x : Prog (Logged σ ω) ε α}
    {f : α → Prog (Logged σ ω) ε β} (hx : x.Adds (fun _ => R)) (hf : ∀ a, (f a).Silent) :
    (x >>= f).Adds (fun _ => R) := by
  refine hx.bind (fun added h => h) (fun a added h => (hf a).mono ?_)
  rintro r more rfl
  rwa [List.append_nil]

theorem Prog.Adds.mapError {y : Prog (Logged σ ω) ε α} (h : y.Adds S) (f : ε → ε') :
    (y.mapError f).Adds S := by
  intro s
  obtain ⟨added,hlog,hS⟩ := h s
  cases hy : y s <;>
  · rw [hy] at hlog hS
    simp only [Prog.mapError,hy]
    exact ⟨added,hlog,hS⟩

/-! ### What each entry of a record tells about those before it -/

def EachAt (P : List ω → ω → Prop) (log : List ω) : Prop :=
  ∀ before e after, log = before ++ e :: after → P before e

variable {P : List ω → ω → Prop} {log : List ω}

theorem eachAt_nil : EachAt P [] := by
  intro before e after h
  simp at h

theorem EachAt.snoc (h : EachAt P log) {e : ω} (he : P log e) : EachAt P (log ++ [e]) := by
  intro before e' after hsplit
  rcases List.eq_nil_or_concat after with rfl | ⟨after',last,rfl⟩
  · obtain ⟨rfl,hlast⟩ := List.append_inj' hsplit rfl
    cases hlast
    exact he
  · rw [List.concat_eq_append,← List.cons_append,← List.append_assoc] at hsplit
    exact h before e' after' (List.append_inj' hsplit rfl).1

theorem EachAt.of_mem (h : EachAt P log) {e : ω} (he : e ∈ log) :
    ∃ before, before <+: log ∧ P before e := by
  obtain ⟨before,after,rfl⟩ := List.append_of_mem he
  exact ⟨before,List.prefix_append _ _,h before e after rfl⟩

/-- By going back in the record: what an entry leads back to earlier ones holds of it if it holds
of these. -/
theorem EachAt.induction {Q : ω → Prop} (h : EachAt P log)
    (hstep : ∀ before e, before <+: log → P before e → (∀ e' ∈ before, Q e') → Q e) :
    ∀ e ∈ log, Q e := by
  have hprefix : ∀ n, ∀ before, before <+: log → before.length ≤ n → ∀ e ∈ before, Q e := by
    intro n
    induction n with
    | zero =>
      intro before _ hlength e he
      rw [List.length_eq_zero_iff.mp (Nat.le_zero.mp hlength)] at he
      exact (nomatch he)
    | succ n ih =>
      intro before hbefore hlength e he
      obtain ⟨first,rest,rfl⟩ := List.append_of_mem he
      obtain ⟨after,rfl⟩ := hbefore
      have hfirst : first <+: first ++ e :: rest ++ after := by
        rw [List.append_assoc]
        exact List.prefix_append _ _
      refine hstep first e hfirst (h first e (rest ++ after) (by simp)) (ih first hfirst ?_)
      rw [List.length_append,List.length_cons] at hlength
      omega
  exact hprefix log.length log List.prefix_rfl (Nat.le_refl _)

end PgEmbedSetup.Library
