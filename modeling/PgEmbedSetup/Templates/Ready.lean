import PgEmbedSetup.Templates.Turns

set_option autoImplicit false

/-! When a call that returns `Ok` finds its template set up. -/

namespace PgEmbedSetup.Templates
open Library

variable {calls : List Template} {w w' : World} {ghosts : List Ghost} {i : Nat} {g : Ghost}

/-- Every call that has returned `Ok` did so with its template set up. -/
def ReadyWhenOk (w : World) : Prop :=
  ∀ c t database, .ended c t (.returned (.ok ())) database ∈ w.events → database = some true

def Successful : (op : Op) → Reply op → Prop
  | .dropDatabase _ _, r => r = .ok ()
  | _, _ => True

/-- No rollback drop fails. -/
def RollsBackWell (_ : State) : Action → Prop
  | .advance _ op r => Successful op r
  | _ => True

/-! ### With every rollback drop successful -/

/-- At work on a database that is not set up. -/
def Stage.halfway : Stage → Bool
  | .settingUp | .rollingBack _ => true
  | _ => false

/-- About to return `Ok`, or just doing so. -/
def Stage.succeeds : Stage → Bool
  | .leaving r | .left r => r = .returned (.ok ())
  | _ => false

structure Ready (w : World) (ghosts : List Ghost) : Prop where
  /-- A database that is not set up has a call at work on it. -/
  attended : ∀ t, w.databases t = some false →
    ∃ (i : Nat) (g : Ghost), ghosts[i]? = some g ∧ g.template = t ∧ g.stage.halfway = true
  succeeding : ∀ (i : Nat) (g : Ghost), ghosts[i]? = some g → g.stage.succeeds = true →
    w.databases g.template = some true
  ended : ReadyWhenOk w

theorem halfway_inside {s : Stage} (h : s.halfway = true) : s.inside = true := by
  cases s <;> first | rfl | cases h

/-- With its lock a call that finds the database finds it set up. -/
theorem Ready.checked (h : Ready w ghosts) (hlocks : LocksFit calls w ghosts)
    (hg : ghosts[i]? = some g) (hstage : g.stage = .checking)
    (hfound : (w.databases g.template).isSome = true) : w.databases g.template = some true := by
  obtain ⟨setUp,hsome⟩ := Option.isSome_iff_exists.mp hfound
  cases setUp with
  | true => exact hsome
  | false =>
    obtain ⟨j,k,hk,hname,hhalfway⟩ := h.attended g.template hsome
    have hsame := hlocks.same hk hg (halfway_inside hhalfway) (by rw [hstage]; rfl) (by rw [hname])
    subst hsame
    cases hg.symm.trans hk
    rw [hstage] at hhalfway
    cases hhalfway

/-- A call at work on a database ends that work with the database set up or dropped. -/
theorem halfway_step (hfits : StageFits w g) {op : Op} {r : Reply op} (hok : g.allows op)
    (ha : answer w op r = some w') (hwell : Successful op r) (hhalfway : g.stage.halfway = true) :
    (g.after op r).stage.halfway = true ∨ w'.databases g.template ≠ some false := by
  cases op with
  | setupFn c t =>
    obtain ⟨hstage,rfl,rfl⟩ := hok
    have hdatabase := hfits.setsUp hstage
    obtain rfl := answer_setup ha
    rcases r with (e | u) | p
    · exact .inl rfl
    · exact .inr (by simp [put_databases,hdatabase])
    · exact .inl rfl
  | dropDatabase c t =>
    obtain ⟨_,rfl,rfl⟩ := hok
    obtain rfl := answer_drop ha
    obtain rfl := hwell
    exact .inr (by simp [put_databases])
  | unlock m p =>
    obtain ⟨o,hstage,_⟩ := hok.1
    rw [hstage] at hhalfway
    cases hhalfway
  | _ =>
    rw [hok.1] at hhalfway
    cases hhalfway

/-- A database that is not set up was so before, or the step has just made it. -/
theorem unready_step (hfits : StageFits w g) (hlocks : LocksFit calls w ghosts) {op : Op}
    {r : Reply op} (hok : g.allows op) (ha : answer w op r = some w') {t : Template}
    (ht : w'.databases t = some false) :
    w.databases t = some false ∨ t = g.template ∧ (g.after op r).stage.halfway = true := by
  cases op with
  | createDatabase c t' =>
    obtain ⟨_,rfl,rfl⟩ := hok
    obtain ⟨_,rfl⟩ := answer_create ha
    rw [put_databases] at ht
    rcases r with e | u
    · exact .inl (by simpa using ht)
    · by_cases htt : t = g.template
      · exact .inr ⟨htt,rfl⟩
      · exact .inl (by simpa [Function.update_of_ne htt] using ht)
  | setupFn c t' =>
    obtain ⟨hstage,rfl,rfl⟩ := hok
    obtain rfl := answer_setup ha
    by_cases htt : t = g.template
    · rw [htt]
      exact .inl (hfits.setsUp hstage)
    · refine .inl ?_
      rw [put_databases] at ht
      split at ht
      · rwa [Function.update_of_ne htt] at ht
      · exact ht
  | dropDatabase c t' =>
    obtain ⟨⟨o,hstage,_⟩,rfl,rfl⟩ := hok
    obtain rfl := answer_drop ha
    by_cases htt : t = g.template
    · rw [htt]
      exact .inl (hfits.rollsBack hstage)
    · refine .inl ?_
      rw [put_databases] at ht
      split at ht
      · rwa [Function.update_of_ne htt] at ht
      · exact ht
  | entry name =>
    obtain ⟨_,_,_,_,_,hdatabases,_⟩ := answer_entry ha hlocks
    exact .inl (by rwa [hdatabases] at ht)
  | lock m =>
    obtain ⟨_,rfl⟩ := answer_lock ha
    exact .inl ht
  | databaseExists c t' =>
    obtain ⟨_,rfl⟩ := answer_check ha
    exact .inl ht
  | _ =>
    cases ha
    exact .inl ht

theorem rollbackResult_fails {o : SetupOutcome} (h : o ≠ .returned (.ok ()))
    (r : BootstrapResult Unit) : rollbackResult o r ≠ .returned (.ok ()) := by
  rcases o with (e | u) | p
  · cases r <;> simp [rollbackResult]
  · exact absurd rfl h
  · rcases r with e | u <;> simp [rollbackResult]

/-- A call comes to succeed only with its database set up. -/
theorem succeeds_step (h : Ready w ghosts) (htracked : Tracked calls w ghosts)
    (hg : ghosts[i]? = some g) {op : Op} {r : Reply op} (hok : g.allows op)
    (ha : answer w op r = some w') (hsucceeds : (g.after op r).stage.succeeds = true) :
    w'.databases g.template = some true := by
  have hfits := htracked.stages i g hg
  cases op with
  | databaseExists c t =>
    obtain ⟨hstage,rfl,rfl⟩ := hok
    obtain ⟨hfound,rfl⟩ := answer_check ha
    rcases r with e | _ | _
    · simp [Ghost.after,Stage.after,Stage.succeeds] at hsucceeds
    · cases hsucceeds
    · exact h.checked htracked.locks hg hstage (hfound true rfl).symm
  | createDatabase c t =>
    rcases r with e | u
    · simp [Ghost.after,Stage.after,Stage.succeeds] at hsucceeds
    · cases hsucceeds
  | setupFn c t =>
    obtain ⟨hstage,rfl,rfl⟩ := hok
    have hdatabase := hfits.setsUp hstage
    obtain rfl := answer_setup ha
    rcases r with (e | u) | p
    · cases hsucceeds
    · simp [put_databases,hdatabase]
    · cases hsucceeds
  | dropDatabase c t =>
    obtain ⟨⟨o,hstage,hfailed⟩,_⟩ := hok
    have hnot := rollbackResult_fails hfailed r
    simp [Ghost.after,Stage.after,hstage,Stage.succeeds,hnot] at hsucceeds
  | unlock m p =>
    obtain ⟨⟨o,hstage,_⟩,_⟩ := hok
    cases ha
    refine h.succeeding i g hg ?_
    simpa [Ghost.after,Stage.after,hstage,Stage.succeeds] using hsucceeds
  | _ => cases hsucceeds

/-- Only a call that succeeds adds an `Ok` to the record. -/
theorem ended_step (h : Ready w ghosts) (hlocks : LocksFit calls w ghosts)
    (hg : ghosts[i]? = some g) {op : Op} {r : Reply op} (hok : g.allows op)
    (ha : answer w op r = some w') : ReadyWhenOk w' := by
  intro c t database hmem
  cases op with
  | entry name =>
    obtain ⟨_,_,_,_,_,_,hevents⟩ := answer_entry ha hlocks
    rw [hevents] at hmem
    exact h.ended c t database hmem
  | lock m =>
    obtain ⟨_,rfl⟩ := answer_lock ha
    exact h.ended c t database hmem
  | unlock m p =>
    cases ha
    exact h.ended c t database hmem
  | databaseExists c' t' =>
    obtain ⟨_,rfl⟩ := answer_check ha
    exact h.ended c t database (by simpa using hmem)
  | createDatabase c' t' =>
    obtain ⟨_,rfl⟩ := answer_create ha
    exact h.ended c t database (by simpa using hmem)
  | setupFn c' t' =>
    obtain rfl := answer_setup ha
    exact h.ended c t database (by simpa using hmem)
  | dropDatabase c' t' =>
    obtain rfl := answer_drop ha
    exact h.ended c t database (by simpa using hmem)
  | ended c' t' o =>
    obtain ⟨hstage,rfl,rfl⟩ := hok
    cases ha
    rcases List.mem_append.mp hmem with hold | hnew
    · exact h.ended c t database hold
    · simp only [List.mem_singleton,Event.ended.injEq] at hnew
      obtain ⟨rfl,rfl,rfl,rfl⟩ := hnew
      exact h.succeeding i g hg (by simp [hstage,Stage.succeeds])

theorem Ready.step (h : Ready w ghosts) (htracked : Tracked calls w ghosts)
    (hg : ghosts[i]? = some g) {op : Op} {r : Reply op} (hok : g.allows op)
    (ha : answer w op r = some w') (hwell : Successful op r) :
    Ready w' (ghosts.set i (g.after op r)) := by
  have hfits := htracked.stages i g hg
  refine ⟨?_,?_,ended_step h htracked.locks hg hok ha⟩
  · intro t ht
    rcases unready_step hfits htracked.locks hok ha ht with hold | ⟨rfl,hhalfway⟩
    · obtain ⟨j,k,hk,rfl,hhalfway⟩ := h.attended t hold
      by_cases hji : j = i
      · subst hji
        cases hg.symm.trans hk
        rcases halfway_step hfits hok ha hwell hhalfway with hstill | hnot
        · exact ⟨j,_,getElem?_set_here hg,rfl,hstill⟩
        · exact absurd ht hnot
      · exact ⟨j,k,by rwa [List.getElem?_set_ne (Ne.symm hji)],rfl,hhalfway⟩
    · exact ⟨i,_,getElem?_set_here hg,rfl,hhalfway⟩
  · intro j k hk hsucceeds
    rcases getElem?_set_some hk with ⟨_,rfl⟩ | ⟨_,hold⟩
    · rw [Ghost.after_template]
      exact succeeds_step h htracked hg hok ha hsucceeds
    · exact hfits.keeps_ready htracked.locks hok ha (h.succeeding j k hold hsucceeds)

theorem ready_preserves (calls : List Template) :
    Preserves machine stages (fun w ghosts => Tracked calls w ghosts ∧ Ready w ghosts)
      (fun s a => RollsBackWell s a ∧ Uncut s a) := by
  refine ⟨?_,?_,?_⟩
  · intro s i op r w ghosts g hc ha hj hg hok
    refine ⟨_,[],rfl,.nil,?_⟩
    rw [List.append_nil]
    exact ⟨hj.1.step hg hok ha,hj.2.step hj.1 hg hok ha hc.1⟩
  · intro s i ghosts hc
    exact hc.2.elim
  · intro s e
    exact e.elim

theorem begin_ready (calls : List Template) : Ready (begin calls).world (outside calls) := by
  refine ⟨?_,?_,?_⟩
  · intro t ht
    cases ht
  · intro i g hg hsucceeds
    obtain ⟨t,_,rfl⟩ := outside_getElem? hg
    cases hsucceeds
  · intro c t database hmem
    cases hmem

def rollsBackWell : Action → Bool
  | .advance _ (.dropDatabase _ _) r => r = .ok ()
  | _ => true

/-- A call that finds the database there. -/
def nextCallFinds : List Action :=
  [.advance 1 (.entry first.name) (0 : Nat),.advance 1 (.lock 0) false,
    .advance 1 (.databaseExists 1 first) (.ok true),.advance 1 (.unlock 0 false) (),
    .advance 1 (.ended 1 first (.returned (.ok ()))) ()]

end PgEmbedSetup.Templates
