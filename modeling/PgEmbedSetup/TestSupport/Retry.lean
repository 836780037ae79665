import PgEmbedSetup.Library.Duration
import PgEmbedSetup.Library.Text

set_option autoImplicit false

/-!
`src/test_support/bootstrap_retry/mod.rs`: a bootstrap is tried again while it fails transiently.
-/

namespace PgEmbedSetup.TestSupport
open Library

/-! ### Failures -/

inductive BootstrapErrorKind where
  | other
  | workerBinaryMissing
  | workerBinaryPathNonUtf8
  | clusterPasswordMissing
  | clusterPasswordUnreadable
  | clusterPasswordEmpty
  | extensionConfigInvalid
  | extensionManifestUnavailable
  | extensionManifestDigestMismatch
  | extensionManifestInvalid
  | extensionUnavailable
  | extensionArchiveUnavailable
  | extensionArchiveDigestMismatch
  | extensionArchiveInvalid
  | extensionInstallFailed
  deriving DecidableEq, Repr

/-- `postgresql_archive::Error`. -/
inductive ArchiveError where
  | ioError
  | repositoryFailure
  | other
  deriving DecidableEq, Repr

/-- `postgresql_embedded::Error`. -/
inductive EmbeddedError where
  | ioError
  | archiveError (inner : ArchiveError)
  | other
  deriving DecidableEq, Repr

inductive Cause where
  | lifecycleTimeout
  | embedded (e : EmbeddedError)
  | message (text : Text)
  deriving DecidableEq, Repr

/-- `chain` has the outermost cause first; a mark put on a report stays on it. -/
structure Report where
  chain : List Cause
  cachedBinariesUsed : Bool
  deriving DecidableEq, Repr

def Report.wrapErr (r : Report) (text : Text) : Report := { r with chain := .message text :: r.chain }

structure BootstrapError where
  kind : BootstrapErrorKind
  report : Report
  deriving DecidableEq, Repr

def isTransientEmbedded : EmbeddedError → Bool
  | .ioError => true
  | .archiveError .ioError | .archiveError .repositoryFailure => true
  | _ => false

def isTransientCause (cause : Cause) (fromCache : Bool) : Bool :=
  match cause with
  | .lifecycleTimeout => true
  | .embedded e => !fromCache && isTransientEmbedded e
  | .message _ => false

def isTransient (err : BootstrapError) : Bool :=
  let fromCache := err.report.cachedBinariesUsed
  err.kind = .extensionArchiveUnavailable ||
    err.report.chain.any fun cause => isTransientCause cause fromCache

def exhausted (err : BootstrapError) (made : UInt32) : BootstrapError where
  kind := err.kind
  report := err.report.wrapErr ("bootstrap failed after ".toList ++ decimal made.toNat ++
    " attempts; each failure was transient".toList)

/-! ### The loop -/

structure RetryPolicy where
  attempts : UInt32
  firstDelay : Duration

def u32Max : Nat := 2^32-1

/-- `u32::saturating_pow`. -/
def saturatingPow (base exp : Nat) : Nat := min (base^exp) u32Max

def RetryPolicy.delayAfter (policy : RetryPolicy) (made : UInt32) : Duration :=
  policy.firstDelay.saturatingMul (saturatingPow 2 (made.toNat-1))

inductive Event where
  | attempt
  | sleep (delay : Duration)
  deriving DecidableEq

variable {α : Type}

/-- What each call of `attempt` returns. -/
abbrev Outcomes (α : Type) := Nat → Except BootstrapError α

theorem succ_toNat {made attempts : UInt32} (h : ¬ made ≥ attempts) :
    (made+1).toNat = made.toNat+1 := by
  have hlt : made.toNat < attempts.toNat := by
    rwa [ge_iff_le,UInt32.le_iff_toNat_le,Nat.not_le] at h
  have hbound := attempts.toNat_lt
  rw [UInt32.toNat_add,UInt32.toNat_one]
  omega

/-- `calls` is how often `attempt` has been called before this turn. -/
def retryLoop (policy : RetryPolicy) (outcomes : Outcomes α) (calls : Nat) (made : UInt32) :
    List Event × Except BootstrapError α :=
  match outcomes calls with
  | .ok value => ([.attempt],.ok value)
  | .error err =>
    if !isTransient err then ([.attempt],.error err)
    else if made ≥ policy.attempts then ([.attempt],.error (exhausted err made))
    else
      let rest := retryLoop policy outcomes (calls+1) (made+1)
      (.attempt :: .sleep (policy.delayAfter made) :: rest.1,rest.2)
termination_by policy.attempts.toNat-made.toNat
decreasing_by
  rename_i hmade
  have hlt : made.toNat < policy.attempts.toNat := by
    rwa [ge_iff_le,UInt32.le_iff_toNat_le,Nat.not_le] at hmade
  rw [succ_toNat hmade]
  omega

def retryTransient (policy : RetryPolicy) (outcomes : Outcomes α) :
    List Event × Except BootstrapError α := retryLoop policy outcomes 0 1

def RetryPolicy.sharedCluster : RetryPolicy := ⟨3,.ofSecs 1 one_le_maxSecs⟩

/-! ### What a run does -/

def RetryPolicy.allowed (policy : RetryPolicy) : Nat := max 1 policy.attempts.toNat

def RetryPolicy.delay (policy : RetryPolicy) (k : Nat) : Duration :=
  policy.firstDelay.saturatingMul (saturatingPow 2 (k-1))

def failsTransiently : Except BootstrapError α → Bool
  | .ok _ => false
  | .error err => isTransient err

/-- An attempt, and `retries` more of them, each after its own sleep. -/
def turns (delay : Nat → Duration) (k : Nat) : Nat → List Event
  | 0 => [.attempt]
  | retries+1 => .attempt :: .sleep (delay k) :: turns delay (k+1) retries

def conclude (outcome : Except BootstrapError α) (made : UInt32) : Except BootstrapError α :=
  match outcome with
  | .ok value => .ok value
  | .error err => if isTransient err then .error (exhausted err made) else .error err

theorem total_delay (policy : RetryPolicy) (k : Nat) :
    (policy.delay k).total =
      min (policy.firstDelay.total*min (2^(k-1)) (2^32-1)) Duration.max.total :=
  Duration.total_saturatingMul _ _

theorem exhausted_kind (err : BootstrapError) (made : UInt32) :
    (exhausted err made).kind = err.kind := rfl

/-- One turn: the loop is left, or it goes on after a sleep. -/
theorem retryLoop_turn (policy : RetryPolicy) (outcomes : Outcomes α) (calls : Nat)
    (made : UInt32) :
    ((¬ failsTransiently (outcomes calls) ∨ policy.attempts.toNat ≤ made.toNat) ∧
      retryLoop policy outcomes calls made = ([.attempt],conclude (outcomes calls) made)) ∨
    (failsTransiently (outcomes calls) ∧ made.toNat < policy.attempts.toNat ∧
      (made+1).toNat = made.toNat+1 ∧
      retryLoop policy outcomes calls made =
        (.attempt :: .sleep (policy.delay made.toNat) ::
          (retryLoop policy outcomes (calls+1) (made+1)).1,
          (retryLoop policy outcomes (calls+1) (made+1)).2)) := by
  rw [retryLoop]
  cases houtcome : outcomes calls with
  | ok value => exact .inl ⟨.inl (by simp [failsTransiently]),rfl⟩
  | error err =>
    by_cases htransient : isTransient err
    · by_cases hmade : made ≥ policy.attempts
      · have hle : policy.attempts.toNat ≤ made.toNat := UInt32.le_iff_toNat_le.mp hmade
        exact .inl ⟨.inr hle,by simp [htransient,hmade,conclude]⟩
      · have hlt : made.toNat < policy.attempts.toNat := by
          rwa [ge_iff_le,UInt32.le_iff_toNat_le,Nat.not_le] at hmade
        exact .inr ⟨htransient,hlt,succ_toNat hmade,by
          simp [htransient,hmade,RetryPolicy.delayAfter,RetryPolicy.delay]⟩
    · exact .inl ⟨.inl htransient,by simp [htransient,conclude]⟩

/-- From its `calls`-th call on the loop makes some more attempts, and only as many as it may. -/
theorem retryLoop_runs (policy : RetryPolicy) (outcomes : Outcomes α) (left : Nat) :
    ∀ (calls : Nat) (made : UInt32), made.toNat = calls+1 → calls+1 ≤ policy.allowed →
      policy.allowed-(calls+1) = left →
      ∃ retries last, (∀ i < retries, failsTransiently (outcomes (calls+i))) ∧
        calls+1+retries ≤ policy.allowed ∧
        (¬ failsTransiently (outcomes (calls+retries)) ∨ calls+1+retries = policy.allowed) ∧
        UInt32.toNat last = calls+1+retries ∧
        retryLoop policy outcomes calls made =
          (turns policy.delay (calls+1) retries,conclude (outcomes (calls+retries)) last) := by
  induction left with
  | zero =>
    intro calls made hmade hallowed hleft
    have hend : calls+1 = policy.allowed := by omega
    rcases retryLoop_turn policy outcomes calls made with ⟨-,hrun⟩ | ⟨-,hlt,-,-⟩
    · exact ⟨0,made,fun i hi => absurd hi (Nat.not_lt_zero i),hallowed,.inr hend,hmade,hrun⟩
    · rw [RetryPolicy.allowed] at hend
      omega
  | succ left ih =>
    intro calls made hmade hallowed hleft
    rcases retryLoop_turn policy outcomes calls made with ⟨hstop,hrun⟩ |
      ⟨htransient,hlt,hsucc,hrun⟩
    · have hends : ¬ failsTransiently (outcomes calls) ∨ calls+1 = policy.allowed := by
        refine hstop.imp_right fun hle => ?_
        rw [RetryPolicy.allowed] at hleft hallowed ⊢
        omega
      exact ⟨0,made,fun i hi => absurd hi (Nat.not_lt_zero i),hallowed,hends,hmade,hrun⟩
    · have hnext : calls+1+1 ≤ policy.allowed := by omega
      obtain ⟨retries,last,hretried,hwithin,hends,hlast,hrest⟩ :=
        ih (calls+1) (made+1) (by omega) hnext (by omega)
      have hshift : calls+(retries+1) = calls+1+retries := by omega
      refine ⟨retries+1,last,fun i hi => ?_,by omega,?_,by omega,?_⟩
      · cases i with
        | zero => exact htransient
        | succ i =>
          have := hretried i (by omega)
          rwa [show calls+1+i = calls+(i+1) by omega] at this
      · rw [hshift]
        exact hends.imp_right fun h => by omega
      · rw [hrun,hrest,hmade,hshift]
        rfl

/-- The attempts end at the first that is not a transient failure, or when none is left. -/
theorem retryTransient_runs (policy : RetryPolicy) (outcomes : Outcomes α) :
    ∃ made delay, 1 ≤ made ∧ made ≤ max 1 policy.attempts.toNat ∧
      (∀ i < made-1, failsTransiently (outcomes i)) ∧
      (¬ failsTransiently (outcomes (made-1)) ∨ made = max 1 policy.attempts.toNat) ∧
      (∀ k, Duration.total (delay k) =
        min (policy.firstDelay.total*min (2^(k-1)) (2^32-1)) Duration.max.total) ∧
      (retryTransient policy outcomes).1 = turns delay 1 (made-1) ∧
      (∀ value, outcomes (made-1) = .ok value →
        (retryTransient policy outcomes).2 = .ok value) ∧
      (∀ err, outcomes (made-1) = .error err → ¬ isTransient err →
        (retryTransient policy outcomes).2 = .error err) ∧
      (∀ err, outcomes (made-1) = .error err → isTransient err →
        ∃ last, (retryTransient policy outcomes).2 = .error (exhausted err last) ∧
          (exhausted err last).kind = err.kind ∧ last.toNat = made) := by
  obtain ⟨retries,last,hretried,hwithin,hends,hlast,hrun⟩ :=
    retryLoop_runs policy outcomes _ 0 1 rfl (Nat.le_max_left _ _) rfl
  rw [Nat.zero_add] at hends
  have hmade : 0+1+retries-1 = retries := by omega
  refine ⟨0+1+retries,policy.delay,by omega,hwithin,fun i hi => ?_,?_,total_delay policy,?_,
    fun value hvalue => ?_,fun err herr hfinal => ?_,fun err herr htransient => ?_⟩
  · have := hretried i (by omega)
    rwa [Nat.zero_add] at this
  · rw [hmade]
    exact hends
  · rw [hmade,retryTransient,hrun]
  · rw [hmade] at hvalue
    simp [retryTransient,hrun,hvalue,conclude]
  · rw [hmade] at herr
    simp [retryTransient,hrun,herr,conclude,hfinal]
  · rw [hmade] at herr
    refine ⟨last,?_,exhausted_kind err last,hlast⟩
    simp [retryTransient,hrun,herr,conclude,htransient]

/-- Two timeouts, then a value: the shared policy waits one second and then two. -/
example : (retryTransient .sharedCluster fun call =>
    if call < 2 then .error ⟨.other,⟨[.lifecycleTimeout],false⟩⟩ else .ok call).1 =
      turns RetryPolicy.sharedCluster.delay 1 2 := by
  decide +kernel

end PgEmbedSetup.TestSupport
