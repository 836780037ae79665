import Mathlib.Data.List.Basic
import PgEmbedSetup.Env.State
import PgEmbedSetup.Library.StateRun

set_option autoImplicit false

/-! What each transition of the scoped-environment core returns and leaves behind. -/

namespace PgEmbedSetup.Env
open Library

/-! ### Running the state monad -/

@[simp] theorem modifyCore_run (f : ThreadStateCore → ThreadStateCore) (s : State) :
    modifyCore f s = .ok () { s with core := f s.core } := rfl

@[simp] theorem modifyProcess_run (f : Process → Process) (s : State) :
    modifyProcess f s = .ok () { s with process := f s.process } := rfl

theorem ensure_run {c : Bool} (h : c = true) (message : String) (s : State) :
    ensure c message s = .ok () s := by simp [ensure,h]

def State.withEnv (s : State) (e : Environment) : State :=
  { s with process := { s.process with environment := e } }

def State.withStack (s : State) (stack : List GuardState) : State :=
  { s with core := { s.core with stack := stack } }

@[simp] theorem State.withEnv_core (s : State) (e : Environment) :
    (s.withEnv e).core = s.core := rfl

@[simp] theorem State.withEnv_env (s : State) (e : Environment) :
    (s.withEnv e).process.environment = e := rfl

@[simp] theorem State.withEnv_withEnv (s : State) (e f : Environment) :
    (s.withEnv e).withEnv f = s.withEnv f := rfl

@[simp] theorem State.withStack_core (s : State) (stack : List GuardState) :
    (s.withStack stack).core = { s.core with stack := stack } := rfl

@[simp] theorem State.withStack_process (s : State) (stack : List GuardState) :
    (s.withStack stack).process = s.process := rfl

@[simp] theorem State.withStack_withEnv (s : State) (stack : List GuardState)
    (e : Environment) : (s.withStack stack).withEnv e = (s.withEnv e).withStack stack := rfl

@[simp] theorem State.withStack_withStack (s : State) (a b : List GuardState) :
    (s.withStack a).withStack b = s.withStack b := rfl

@[simp] theorem setStack_run (stack : List GuardState) (s : State) :
    setStack stack s = .ok () (s.withStack stack) := rfl

theorem guardMut_ok {s : State} (h : s.core.lock.isSome = true) (context : String) :
    guardMut context s = .ok () s := by
  obtain ⟨g,hg⟩ := Option.isSome_iff_exists.mp h
  simp [guardMut,hg]

@[simp] theorem State.withEnv_self (s : State) : s.withEnv s.process.environment = s := rfl

/-! ### Changing variables -/

/-- A requested or recorded change that `std::env` can carry out. -/
def ValidEntry (entry : OsString × Option OsString) : Prop :=
  isValidEnvKey entry.1 = true ∧ isValidEnvValue entry.2 = true

instance (entry : OsString × Option OsString) : Decidable (ValidEntry entry) :=
  inferInstanceAs (Decidable (_ ∧ _))

theorem writeVar_ok (s : State) {key : OsString} {value : Option OsString}
    (hk : isValidEnvKey key = true) (hv : isValidEnvValue value = true) :
    writeVar key value s = .ok () (s.withEnv (s.process.environment.assign key value hv)) := by
  simp [writeVar,ensure_run,hk,hv,State.withEnv]

theorem applySingleVar_ok (s : State) {key : OsString} {value : Option OsString}
    (hk : isValidEnvKey key = true) (hv : isValidEnvValue value = true) :
    applySingleVar key value s =
      .ok (s.process.environment.vars key)
        (s.withEnv (s.process.environment.assign key value hv)) := by
  cases value <;>
    simp [applySingleVar,ensure_run,hk,hv,varOs,setVar,removeVar,writeVar_ok]

theorem applyLoop_ok (s : State) (changes : List (OsString × Option OsString))
    (hv : ∀ c ∈ changes, ValidEntry c) :
    ∃ e, applyLoop changes s =
        .ok (s.process.environment.vars.record changes).2 (s.withEnv e) ∧
      e.vars = (s.process.environment.vars.record changes).1 := by
  induction changes generalizing s with
  | nil => exact ⟨s.process.environment,rfl,rfl⟩
  | cons c rest ih =>
    obtain ⟨key,value⟩ := c
    obtain ⟨hk,hval⟩ := hv (key,value) (by simp)
    have hrest : ∀ c ∈ rest, ValidEntry c := fun c hc => hv c (by simp [hc])
    obtain ⟨e,he,hvars⟩ := ih (s.withEnv (s.process.environment.assign key value hval)) hrest
    refine ⟨e,?_,?_⟩
    · simp only [applyLoop,bind_run,applySingleVar_ok s hk hval,he]
      simp [Store.record]
    · rw [hvars]
      simp [Store.record]

/-- Everything recorded can be written back: the keys passed validation and the old
values came out of the environment. -/
theorem record_valid (e : Environment) (changes : List (OsString × Option OsString))
    (hv : ∀ c ∈ changes, ValidEntry c) :
    ∀ entry ∈ (e.vars.record changes).2, ValidEntry entry := by
  induction changes generalizing e with
  | nil => simp [Store.record]
  | cons c rest ih =>
    obtain ⟨key,value⟩ := c
    obtain ⟨hk,hval⟩ := hv (key,value) (by simp)
    have hrest := ih (e.assign key value hval) (fun c hc => hv c (by simp [hc]))
    intro entry hentry
    simp only [Store.record,List.mem_cons] at hentry
    rcases hentry with rfl | hentry
    · exact ⟨hk,e.nulFree key⟩
    · exact hrest entry hentry

theorem restoreSaved_ok (s : State) (saved : List (OsString × Option OsString))
    (hv : ∀ entry ∈ saved, ValidEntry entry) :
    ∃ e, restoreSaved saved s = .ok () (s.withEnv e) ∧
      e.vars = s.process.environment.vars.undo saved := by
  induction saved with
  | nil => exact ⟨s.process.environment,rfl,rfl⟩
  | cons entry rest ih =>
    obtain ⟨key,value⟩ := entry
    obtain ⟨hk,hval⟩ := hv (key,value) (by simp)
    obtain ⟨e,he,hvars⟩ := ih (fun entry h => hv entry (by simp [h]))
    refine ⟨e.assign key value hval,?_,?_⟩
    · cases value <;> simp [restoreSaved,he,setVar,removeVar,writeVar_ok,hk,hval]
    · simp [Store.undo,hvars]

/-! ### Validation -/

theorem validateEnvKey_run (key : OsString) (s : State) :
    validateEnvKey key s = .ok () s ∧ isValidEnvKey key = true ∨
      ∃ message, validateEnvKey key s = .error (.rejected message) s ∧
        isValidEnvKey key = false := by
  cases h₁ : key.isEmpty <;> cases h₂ : containsNul key <;> cases h₃ : containsEquals key <;>
    simp [validateEnvKey,isValidEnvKey,h₁,h₂,h₃]

theorem validateEnvValue_run (value : Option OsString) (s : State) :
    validateEnvValue value s = .ok () s ∧ isValidEnvValue value = true ∨
      ∃ message, validateEnvValue value s = .error (.rejected message) s ∧
        isValidEnvValue value = false := by
  cases value with
  | none => simp [validateEnvValue,isValidEnvValue]
  | some v => cases h : containsNul v <;> simp [validateEnvValue,isValidEnvValue,h]

/-- Validation changes nothing: it accepts lists of valid entries and rejects others. -/
theorem validateEnvVars_run (vars : List (OsString × Option OsString)) (s : State) :
    validateEnvVars vars s = .ok () s ∧ (∀ c ∈ vars, ValidEntry c) ∨
      ∃ message, validateEnvVars vars s = .error (.rejected message) s ∧
        ¬ ∀ c ∈ vars, ValidEntry c := by
  induction vars with
  | nil => simp [validateEnvVars]
  | cons c rest ih =>
    obtain ⟨key,value⟩ := c
    rcases validateEnvKey_run key s with ⟨hk,hkv⟩ | ⟨m,hk,hkv⟩
    · rcases validateEnvValue_run value s with ⟨hv,hvv⟩ | ⟨m,hv,hvv⟩
      · rcases ih with ⟨hr,hrv⟩ | ⟨m,hr,hrv⟩
        · left
          simp [validateEnvVars,hk,hv,hr,ValidEntry,hkv,hvv]
          exact fun a b h => hrv (a,b) h
        · right
          refine ⟨m,by simp [validateEnvVars,hk,hv,hr],fun h => hrv fun c hc => h c (by simp [hc])⟩
      · right
        refine ⟨m,by simp [validateEnvVars,hk,hv],fun h => ?_⟩
        have := (h (key,value) (by simp)).2
        simp [hvv] at this
    · right
      refine ⟨m,by simp [validateEnvVars,hk],fun h => ?_⟩
      have := (h (key,value) (by simp)).1
      simp [hkv] at this

/-! ### Popping scopes -/

def recorded (stack : List GuardState) : List (List (OsString × Option OsString)) :=
  stack.map (·.saved)

def Restorable (stack : List GuardState) : Prop :=
  ∀ g ∈ stack, ∀ entry ∈ g.saved, ValidEntry entry

theorem popFinished_ok (s : State) (stack : List GuardState) (hlock : s.core.lock.isSome = true)
    (hv : Restorable stack) :
    ∃ e, popFinished stack s =
        .ok () ((s.withEnv e).withStack (stack.dropWhile (·.finished))) ∧
      e.vars = s.process.environment.vars.undoAll
        (recorded (stack.takeWhile (·.finished))) := by
  induction stack generalizing s with
  | nil => exact ⟨s.process.environment,rfl,rfl⟩
  | cons g below ih =>
    cases hf : g.finished with
    | false =>
      refine ⟨s.process.environment,?_,?_⟩
      · simp [popFinished,hf]
      · simp [recorded,hf,Store.undoAll]
    | true =>
      have hbelow : (s.withStack below).core.lock.isSome = true := hlock
      obtain ⟨e₁,h₁,hvars₁⟩ := restoreSaved_ok (s.withStack below) g.saved (hv g (by simp))
      obtain ⟨e₂,h₂,hvars₂⟩ := ih ((s.withEnv e₁).withStack below) hlock
        (fun g hg => hv g (by simp [hg]))
      refine ⟨e₂,?_,?_⟩
      · simpa [popFinished,hf,guardMut_ok hbelow,h₁] using h₂
      · rw [hvars₂]
        simp [hf,recorded,Store.undoAll,hvars₁]

theorem popAll_ok (s : State) (stack : List GuardState) (hlock : s.core.lock.isSome = true)
    (hv : Restorable stack) :
    ∃ e, popAll stack s = .ok () ((s.withEnv e).withStack []) ∧
      e.vars = s.process.environment.vars.undoAll (recorded stack) := by
  induction stack generalizing s with
  | nil => exact ⟨s.process.environment,rfl,rfl⟩
  | cons g below ih =>
    have hbelow : (s.withStack below).core.lock.isSome = true := hlock
    obtain ⟨e₁,h₁,hvars₁⟩ := restoreSaved_ok (s.withStack below) g.saved (hv g (by simp))
    obtain ⟨e₂,h₂,hvars₂⟩ := ih ((s.withEnv e₁).withStack below) hlock
      (fun g hg => hv g (by simp [hg]))
    refine ⟨e₂,?_,?_⟩
    · simpa [popAll,guardMut_ok hbelow,h₁] using h₂
    · rw [hvars₂]
      simp [recorded,Store.undoAll,hvars₁]

end PgEmbedSetup.Env
