import PgEmbedSetup.Startup.Exclusion

set_option autoImplicit false

/-!
The files that starts put into install trees and cache entries, one after the other, and which of
them an extension hook wrote.
-/

namespace PgEmbedSetup.Startup.Files
open Library

structure File where
  name : Place Text
  byHook : Bool
  deriving DecidableEq, Repr

/-- A file dealt with. Only `Setup` chooses the directory as well. -/
structure Piece where
  dir : Path Bytes
  file : File
  deriving DecidableEq

/-- What a call of a start comes to. -/
inductive Act where
  /-- Whether the process is killed here. -/
  | dies (me : RunId)
  /-- The kernel closes what a killed process had open. -/
  | closeFiles (me : RunId)
  /-- The call begins, and will come to these files. -/
  | begins (op : Op)
  | piece (op : Op) (x : Piece)
  | returns (op : Op)
  deriving DecidableEq

abbrev Answer : Act → Type
  | .dies _ => Bool
  | .closeFiles _ | .piece _ _ => Unit
  | .begins _ => List Piece
  | .returns op => Reply op

abbrev Steps (α : Type) := Process Act Answer α

def act (a : Act) : Steps (Answer a) := Process.perform a

def survives {α : Type} (me : RunId) (next : Steps (Option α)) : Steps (Option α) := do
  if ← act (.dies me) then do
    act (.closeFiles me)
    pure none
  else next

def finish (me : RunId) (op : Op) : List Piece → Steps (Option (Reply op))
  | [] => survives me do
    let r ← act (.returns op)
    pure (some r)
  | x :: rest => survives me do
    act (.piece op x)
    finish me op rest

/-- A call file by file. It may fail after any of them, or its process be killed. -/
def perform (me : RunId) (op : Op) : Steps (Option (Reply op)) :=
  survives me do
    let xs ← act (.begins op)
    finish me op xs

/-! ### Trees and entries -/

abbrev Contents := List File

/-- A file replaces the one of its name. -/
def Contents.add (files : Contents) (f : File) : Contents :=
  f :: files.filter (fun g => g.name ≠ f.name)

def pristine (files : Contents) : Bool := files.all fun f => !f.byHook

/-- `trees` are the version directories, `entries` the versions' entries in the binary cache. -/
structure World where
  locks : Locks
  trees : Path Bytes → Contents
  entries : Text → Contents

def World.install (w : World) (dir : Path Bytes) (f : File) : World :=
  { w with trees := Function.update w.trees dir ((w.trees dir).add f) }

def World.store (w : World) (version : Text) (f : File) : World :=
  { w with entries := Function.update w.entries version ((w.entries version).add f) }

def World.touch (w : World) (x : Piece) : Op → World
  | .copyFromCache _ version target =>
    if x.file ∈ w.entries version then w.install target x.file else w
  | .setup _ _ false => w.install x.dir { x.file with byHook := false }
  | .populateCache _ version source =>
    if x.file ∈ w.trees source then w.store version x.file else w
  | .installExtensions _ _ dir => w.install dir { x.file with byHook := true }
  | _ => w

/-- What lookups and all other calls return is left open but for the locks. -/
def answerAct (w : World) : (a : Act) → Answer a → Option World
  | .dies _, _ | .begins _, _ => some w
  | .closeFiles me, _ => some { w with locks := w.locks.close me }
  | .piece op x, _ => some (w.touch x op)
  | .returns op, r => (answer w.locks op r).map fun d => { w with locks := d }

/-- What the user does. -/
inductive UserAction where
  | deleteEntry (version : Text)
  | deleteTree (dir : Path Bytes)
  deriving DecidableEq

def userStep (w : World) : UserAction → Option World
  | .deleteEntry version => some { w with entries := Function.update w.entries version [] }
  | .deleteTree dir => some { w with trees := Function.update w.trees dir [] }

def machine : Machine Act Answer World UserAction where
  answer := answerAct
  spawned _ := []
  env := userStep
  aborted w := w

abbrev State := Pool Act Answer World

abbrev Action := PoolAction Act Answer UserAction

/-- No run is cut off but by the death of its process. -/
def Uncut (_ : State) : Action → Prop
  | .abort _ => False
  | _ => True

section Runs
variable (isVersion : Text → Bool)

def program (me : RunId) (r : Run) : Steps Unit := (r.program isVersion me).handle (perform me)

def begin (trees : Path Bytes → Contents) (entries : Text → Contents) (runs : List Run) : State :=
  ⟨⟨.empty,trees,entries⟩,runs.mapIdx (program isVersion)⟩

/-- No hook has been at the trees and the cache yet. -/
def Untouched (runs : List Run) (s : State) : Prop :=
  ∃ trees entries, (∀ dir, pristine (trees dir) = true) ∧
    (∀ version, pristine (entries version) = true) ∧ s = begin isVersion trees entries runs

/-- Any starts and setup-only runs, in any processes, interleaved. -/
def starts (runs : List Run) : System State Action :=
  (machine.system (Untouched isVersion runs)).restrict Uncut

end Runs

/-- No cache entry has a file from a hook, and none comes from the cache into an install tree. -/
structure ExtensionFree (s : State) : Prop where
  entries : ∀ version f, f ∈ s.world.entries version → f.byHook = false
  received : ∀ i me version target x t,
    machine.step s (.advance i (.piece (.copyFromCache me version target) x) ()) = some t →
      ∀ f, f ∈ t.world.trees target → f ∈ s.world.trees target ∨ f.byHook = false

/-- No population begins from a tree in which a hook has left a file. -/
def meets (s : State) : Action → Bool
  | .advance _ (.begins (.populateCache _ _ source)) _ => pristine (s.world.trees source)
  | .abort _ => false
  | _ => true

end PgEmbedSetup.Startup.Files
