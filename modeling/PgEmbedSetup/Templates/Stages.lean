import PgEmbedSetup.Templates.Model

set_option autoImplicit false

/-! How far a call is with its template, and that every call goes through these stages. -/

namespace PgEmbedSetup.Templates
open Library

inductive Stage where
  | outside
  | waiting
  | checking
  | creating
  | settingUp
  /-- Setup has ended in this way, and the database is about to be dropped. -/
  | rollingBack (o : SetupOutcome)
  | leaving (r : Ended)
  | left (r : Ended)
  | over
  deriving DecidableEq

/-- Between taking the lock and letting it go. -/
def Stage.inside : Stage → Bool
  | .checking | .creating | .settingUp | .rollingBack _ | .leaving _ => true
  | .outside | .waiting | .left _ | .over => false

structure Ghost where
  caller : Caller
  template : Template
  mutex : Option Nat
  stage : Stage

def rollbackResult : SetupOutcome → BootstrapResult Unit → Ended
  | .returned (.error e), .error e' => .returned (.error (.setupRollback e e'))
  | .returned r, _ => .returned r
  | .panicked p, .error e => .returned (.error (.panicRollback p e))
  | .panicked p, .ok () => .panicked p

def Ghost.allows (g : Ghost) : Op → Prop
  | .entry name => g.stage = .outside ∧ name = g.template.name
  | .lock m => g.stage = .waiting ∧ g.mutex = some m
  | .databaseExists c t => g.stage = .checking ∧ c = g.caller ∧ t = g.template
  | .createDatabase c t => g.stage = .creating ∧ c = g.caller ∧ t = g.template
  | .setupFn c t => g.stage = .settingUp ∧ c = g.caller ∧ t = g.template
  | .dropDatabase c t =>
    (∃ o, g.stage = .rollingBack o ∧ o ≠ .returned (.ok ())) ∧ c = g.caller ∧ t = g.template
  | .unlock m p => (∃ r, g.stage = .leaving r ∧ p = r.isPanic) ∧ g.mutex = some m
  | .ended c t r => g.stage = .left r ∧ c = g.caller ∧ t = g.template

def Stage.after : Stage → (op : Op) → Reply op → Stage
  | _, .entry _, _ => .waiting
  | _, .lock _, _ => .checking
  | _, .databaseExists _ _, .ok true => .leaving (.returned (.ok ()))
  | _, .databaseExists _ _, .ok false => .creating
  | _, .databaseExists _ _, .error e => .leaving (.returned (.error e))
  | _, .createDatabase _ _, .ok () => .settingUp
  | _, .createDatabase _ _, .error e => .leaving (.returned (.error e))
  | _, .setupFn _ _, .returned (.ok ()) => .leaving (.returned (.ok ()))
  | _, .setupFn _ _, o => .rollingBack o
  | .rollingBack o, .dropDatabase _ _, r => .leaving (rollbackResult o r)
  | .leaving r, .unlock _ _, _ => .left r
  | _, .ended _ _ _, _ => .over
  | s, _, _ => s

def mutexAfter (mutex : Option Nat) : (op : Op) → Reply op → Option Nat
  | .entry _, m => some m
  | _, _ => mutex

def Ghost.after (g : Ghost) (op : Op) (r : Reply op) : Ghost :=
  { g with mutex := mutexAfter g.mutex op r, stage := g.stage.after op r }

@[simp] theorem Ghost.after_caller (g : Ghost) (op : Op) (r : Reply op) :
    (g.after op r).caller = g.caller := rfl

@[simp] theorem Ghost.after_template (g : Ghost) (op : Op) (r : Reply op) :
    (g.after op r).template = g.template := rfl

def stages : Outline Op Reply Ghost where
  ok := Ghost.allows
  next g op r g' := g' = g.after op r
  final g := g.stage = .over

theorem stages_call {α : Type} {g : Ghost} {op : Op} {f : Reply op → Code α}
    {post : α → Ghost → Prop} (hok : g.allows op)
    (hnext : ∀ r, stages.wp (f r) post (g.after op r)) :
    stages.wp (call op >>= f) post g := by
  refine wp_perform_bind.mpr ⟨hok,?_⟩
  rintro r g' rfl
  exact hnext r

/-- What is left of a call that has its lock to give back. -/
def Leaving (g : Ghost) (r : Ended) (g' : Ghost) : Prop := g' = { g with stage := .leaving r }

theorem rollbackAfterSetupError_stages {g : Ghost} (e : TemplateError)
    (hg : g.stage = .rollingBack (.returned (.error e))) :
    stages.wp (rollbackAfterSetupError g.caller g.template e) (Leaving g) g := by
  refine stages_call ⟨⟨_,hg,by simp⟩,rfl,rfl⟩ (fun r => ?_)
  cases r <;> simp [Leaving,Ghost.after,mutexAfter,hg,Stage.after,rollbackResult,wp_pure]

theorem resumeOrReportRollbackFailure_stages {g : Ghost} (p : PanicPayload)
    (hg : g.stage = .rollingBack (.panicked p)) :
    stages.wp (resumeOrReportRollbackFailure g.caller g.template p) (Leaving g) g := by
  refine stages_call ⟨⟨_,hg,by simp⟩,rfl,rfl⟩ (fun r => ?_)
  cases r <;> simp [Leaving,Ghost.after,mutexAfter,hg,Stage.after,rollbackResult,wp_pure]

theorem setupTemplateOrRollback_stages {g : Ghost} (hg : g.stage = .settingUp) :
    stages.wp (setupTemplateOrRollback g.caller g.template) (Leaving g) g := by
  refine stages_call ⟨hg,rfl,rfl⟩ (fun o => ?_)
  rcases o with (e | u) | p
  · refine wp_mono (rollbackAfterSetupError_stages e (g := g.after _ _) ?_) (fun r g' h => h)
    rw [Ghost.after,hg]
    rfl
  · simp [Leaving,Ghost.after,mutexAfter,Stage.after,wp_pure]
  · refine wp_mono (resumeOrReportRollbackFailure_stages p (g := g.after _ _) ?_) (fun r g' h => h)
    rw [Ghost.after,hg]
    rfl

theorem createAndSetupTemplate_stages {g : Ghost} (hg : g.stage = .creating) :
    stages.wp (createAndSetupTemplate g.caller g.template) (Leaving g) g := by
  refine stages_call ⟨hg,rfl,rfl⟩ (fun r => ?_)
  cases r with
  | error e => simp [Leaving,Ghost.after,mutexAfter,Stage.after,wp_pure]
  | ok u =>
    refine wp_mono (setupTemplateOrRollback_stages (g := g.after _ _) ?_) (fun r g' h => h)
    rw [Ghost.after,hg]
    rfl

/-- Whatever the mutex says of a panic before, the call goes on to its check. -/
theorem withTemplateLock_stages {g : Ghost} {operation : Code Ended} (hg : g.stage = .outside)
    (hop : ∀ m, stages.wp operation (Leaving { g with mutex := some m, stage := .checking })
      { g with mutex := some m, stage := .checking }) :
    stages.wp (withTemplateLock g.template.name operation)
      (fun r g' => ∃ m, g' = { g with mutex := m, stage := .left r }) g := by
  refine stages_call ⟨hg,rfl⟩ (fun m => ?_)
  refine stages_call ⟨rfl,rfl⟩ (fun poisoned => ?_)
  refine wp_bind.mpr (wp_mono (hop m) ?_)
  rintro r g' rfl
  refine stages_call ⟨⟨r,rfl,rfl⟩,rfl⟩ (fun _ => ?_)
  exact ⟨some m,rfl⟩

theorem ensureTemplateExists_safe (c : Caller) (t : Template) :
    stages.Safe (ensureTemplateExists c t) ⟨c,t,none,.outside⟩ := by
  refine wp_bind.mpr (wp_mono (withTemplateLock_stages (g := ⟨c,t,none,.outside⟩) rfl ?_) ?_)
  · intro m
    refine stages_call ⟨rfl,rfl,rfl⟩ (fun found => ?_)
    rcases found with e | _ | _
    · exact rfl
    · exact wp_mono (createAndSetupTemplate_stages (g := ⟨c,t,some m,.creating⟩) rfl)
        (fun r g' h => h)
    · exact rfl
  · rintro r _ ⟨m,rfl⟩
    refine ⟨⟨rfl,rfl,rfl⟩,?_⟩
    rintro _ g' rfl
    rfl

end PgEmbedSetup.Templates
