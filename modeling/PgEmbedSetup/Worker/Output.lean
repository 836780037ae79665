import PgEmbedSetup.Library.Utf8

set_option autoImplicit false

/-!
`src/cluster/worker_operation.rs` and `src/worker_process/output.rs`: the names of the
operations, and how the parent reports what went wrong with a worker.
-/

namespace PgEmbedSetup.Worker.Subprocess
open Library

inductive WorkerOperation where
  | setup
  | start
  | stop
  | cleanup
  | cleanupFull
  deriving DecidableEq, Repr

def WorkerOperation.asStr : WorkerOperation → Text
  | .setup => "setup".toList
  | .start => "start".toList
  | .stop => "stop".toList
  | .cleanup => "cleanup".toList
  | .cleanupFull => "cleanup-full".toList

def WorkerOperation.errorContext : WorkerOperation → Text
  | .setup => "postgresql_embedded::setup() failed".toList
  | .start => "postgresql_embedded::start() failed".toList
  | .stop => "postgresql_embedded::stop() failed".toList
  | .cleanup => "pg_worker cleanup operation failed".toList
  | .cleanupFull => "pg_worker cleanup-full operation failed".toList

/-! ### Reports -/

/-- An `eyre` report shows its message only; what it was wrapped around comes after it. -/
structure Report where
  message : Text
  causes : List Text
  deriving DecidableEq, Repr

/-- `eyre!`. -/
def Report.new (message : Text) : Report := ⟨message,[]⟩

/-- `.context(..)` on an error that displays as `cause`. -/
def Report.context (context : String) (cause : Text) : Report := ⟨context.toList,[cause]⟩

inductive ExitStatus where
  | code (n : Nat)
  | signal (n : Nat)
  deriving DecidableEq, Repr

def ExitStatus.success : ExitStatus → Bool
  | .code n => n = 0
  | .signal _ => false

structure Output where
  status : ExitStatus
  stdout : Bytes
  stderr : Bytes
  deriving DecidableEq, Repr

/-! ### Truncation -/

def outputCharLimit : Nat := 2048

def truncationSuffix : Text := "… [truncated]".toList

/-- The loop that pushes so many characters: what it has pushed and what is left, or nothing
when the text ends before. -/
def pushChars : Nat → Text → Option (Text × Text)
  | 0, rest => some ([],rest)
  | _+1, [] => none
  | n+1, c :: rest => (pushChars n rest).map fun (out,left) => (c :: out,left)

def truncateOutput (text : Text) : Text :=
  match pushChars outputCharLimit text with
  | none => text
  | some (out,left) => if left.isEmpty then text else out ++ truncationSuffix

theorem pushChars_eq (n : Nat) (text : Text) :
    pushChars n text = if n ≤ text.length then some (text.take n,text.drop n) else none := by
  induction n generalizing text with
  | zero => simp [pushChars]
  | succ n ih =>
    cases text with
    | nil => simp [pushChars]
    | cons c rest =>
      rw [pushChars,ih]
      by_cases hle : n ≤ rest.length
      · simp [hle]
      · simp [hle]

theorem truncateOutput_eq (text : Text) :
    truncateOutput text = if text.length ≤ outputCharLimit then text
      else text.take outputCharLimit ++ truncationSuffix := by
  rw [truncateOutput,pushChars_eq]
  by_cases hle : text.length ≤ outputCharLimit
  · rw [if_pos hle]
    by_cases heq : outputCharLimit ≤ text.length
    · have hleft : (text.drop outputCharLimit).isEmpty = true := by
        simp [List.drop_eq_nil_of_le hle]
      simp [heq,hleft]
    · simp [heq]
  · have hge : outputCharLimit ≤ text.length := Nat.le_of_not_le hle
    have hleft : (text.drop outputCharLimit).isEmpty = false := by
      rw [List.isEmpty_eq_false_iff,Ne,List.drop_eq_nil_iff]
      exact hle
    simp [hge,hle,hleft]

/-- What is shown of a text begins as the text does, and is bounded whatever the text is. -/
theorem truncateOutput_bounded (text : Text) :
    text.take outputCharLimit <+: truncateOutput text ∧
      (truncateOutput text).length ≤ outputCharLimit+truncationSuffix.length := by
  rw [truncateOutput_eq]
  split
  · next hle =>
    rw [List.take_of_length_le hle]
    exact ⟨List.prefix_rfl,Nat.le_add_right_of_le hle⟩
  · refine ⟨List.prefix_append _ _,?_⟩
    rw [List.length_append]
    exact Nat.add_le_add_right (List.length_take_le _ _) _

/-! ### Rendering -/

def renderFailure (context : Text) (output : Output) : Report :=
  let stdout := truncateOutput (fromUtf8Lossy output.stdout)
  let stderr := truncateOutput (fromUtf8Lossy output.stderr)
  .new (context ++ "\nstdout: ".toList ++ stdout ++ "\nstderr: ".toList ++ stderr)

def combineErrors (primary cleanup : Report) : Report :=
  .new (primary.message ++ "\nSecondary failure whilst removing worker payload: ".toList ++
    cleanup.message)

/-- Writing to a `String` does not fail, so the fallback text is never used. -/
def appendErrorContext (message : Text) (detail : String) (error : Text) : Text :=
  message ++ "; ".toList ++ detail.toList ++ ": ".toList ++ error

theorem renderFailure_context (context : Text) (output : Output) :
    context <+: (renderFailure context output).message := by
  simp only [renderFailure,Report.new,List.append_assoc]
  exact List.prefix_append _ _

theorem renderFailure_length (context : Text) (output : Output) :
    (renderFailure context output).message.length ≤
      context.length+18+2*(outputCharLimit+truncationSuffix.length) := by
  have hout := (truncateOutput_bounded (fromUtf8Lossy output.stdout)).2
  have herr := (truncateOutput_bounded (fromUtf8Lossy output.stderr)).2
  have hlabels : "\nstdout: ".toList.length = 9 ∧ "\nstderr: ".toList.length = 9 := by decide
  simp only [renderFailure,Report.new,List.length_append]
  omega

theorem combineErrors_both (primary cleanup : Report) :
    primary.message <:+: (combineErrors primary cleanup).message ∧
      cleanup.message <:+: (combineErrors primary cleanup).message := by
  constructor
  · simp only [combineErrors,Report.new,List.append_assoc]
    exact (List.prefix_append _ _).isInfix
  · exact (List.suffix_append _ _).isInfix

end PgEmbedSetup.Worker.Subprocess
