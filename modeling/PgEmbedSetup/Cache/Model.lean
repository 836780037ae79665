import PgEmbedSetup.Cache.Copy
import PgEmbedSetup.Library.Transition

set_option autoImplicit false

/-!
`src/cluster/cache_integration.rs` over `src/cache/operations`: one version's entry of the binary
cache, and the processes that fill it from their installations or copy it into them.
-/

namespace PgEmbedSetup.Cache
open Library

/-- A start; those of one process exclude one another as those of several do. -/
abbrev Pid := Nat

/-- Numbers the install trees that hold the version. -/
abbrev TreeId := Nat

/-- `try_use_binary_cache` and `try_populate_binary_cache`. -/
inductive Task where
  | use
  | populate
  deriving DecidableEq, Repr

/-- Where a process is. All but `idle` are under the setup lock of the tree. -/
inductive Phase where
  | idle
  | ready (i : TreeId)
  /-- The lookup without the cache lock; `marked` once it has seen the marker. -/
  | look (task : Task) (i : TreeId) (marked : Bool)
  | acquire (task : Task) (i : TreeId)
  /-- The lookup under the cache lock. -/
  | check (task : Task) (i : TreeId) (marked : Bool)
  /-- `create_dir_all` of the copy's target. -/
  | create (task : Task) (i : TreeId)
  | copy (task : Task) (i : TreeId) (c : Copying)
  | writeMarker (i : TreeId)
  /-- The cache lock drops. -/
  | release (task : Task) (i : TreeId)

/-- `populatedFrom` is what the last population to begin found in its tree. -/
structure State where
  entry : Tree
  trees : TreeId → Tree
  setupLock : TreeId → Option Pid
  exclusive : Option Pid
  shared : List Pid
  phase : Pid → Phase
  populatedFrom : Option Tree

/-- An empty cache, whatever the install trees hold. -/
def State.initial (trees : TreeId → Tree) : State where
  entry := .absent
  trees := trees
  setupLock _ := none
  exclusive := none
  shared := []
  phase _ := .idle
  populatedFrom := none

def State.goto (s : State) (p : Pid) (phase : Phase) : State :=
  { s with phase := Function.update s.phase p phase }

def State.setTree (s : State) (i : TreeId) (t : Tree) : State :=
  { s with trees := Function.update s.trees i t }

/-- A closed lock file. -/
def State.unlock (s : State) (p : Pid) : State :=
  { s with
    exclusive := if s.exclusive = some p then none else s.exclusive
    shared := s.shared.filter (· ≠ p) }

def State.unlockSetup (s : State) (p : Pid) : State :=
  { s with setupLock := fun i => if s.setupLock i = some p then none else s.setupLock i }

def completionMarker : Place Text := [".complete".toList]

def binDir : Place Text := ["bin".toList]

section Following
variable (follow : Follow)

/-- `check_cache`; its two tests one after the other are `look` and `check`. -/
def isCacheEntryComplete (entry : Tree) : Bool :=
  (entry.stat follow completionMarker).isSome &&
    (entry.stat follow binDir).any Entry.isDir

/-- Whether a task goes on after a hit or miss. -/
def Task.goesOn : Task → Bool → Bool
  | .use, hit => hit
  | .populate, hit => !hit

def looked (task : Task) (i : TreeId) (hit : Bool) : Phase :=
  if task.goesOn hit then .acquire task i else .ready i

def checked (task : Task) (i : TreeId) (hit : Bool) : Phase :=
  if task.goesOn hit then .create task i else .release task i

/-- From where to where a task copies. -/
def State.copyFrom (s : State) : Task → TreeId → Tree
  | .use, _ => s.entry
  | .populate, i => s.trees i

def State.copyTo (s : State) : Task → TreeId → Tree
  | .use, i => s.trees i
  | .populate, _ => s.entry

def State.setCopyTo (s : State) (t : Tree) : Task → TreeId → State
  | .use, i => s.setTree i t
  | .populate, _ => { s with entry := t }

/-- `create_dir_all`, where it can be done. -/
def createDirAll (t : Tree) : Option Tree :=
  match t.stat follow [] with
  | some .dir => some t
  | some _ => none
  | none => if t.linked [] = false ∧ t.takes [] = true then some (t.put [] .dir) else none

/-- A population begins. -/
def State.began (s : State) : Task → TreeId → State
  | .use, _ => s
  | .populate, i => { s with populatedFrom := some (s.trees i) }

def afterCopy : Task → TreeId → Phase
  | .use, i => .release .use i
  | .populate, i => .writeMarker i

def phaseStep (s : State) (p : Pid) : Phase → Choice → Option State
  | .look task i false, .proceed =>
    if (s.entry.stat follow completionMarker).isSome then some (s.goto p (.look task i true))
    else some (s.goto p (looked task i false))
  | .look task i true, .proceed =>
    some (s.goto p (looked task i ((s.entry.stat follow binDir).any Entry.isDir)))
  | .acquire .use i, .proceed =>
    if s.exclusive = none then
      some ({ s with shared := p :: s.shared }.goto p (.check .use i false))
    else none
  | .acquire .populate i, .proceed =>
    if s.exclusive = none ∧ s.shared = [] then
      some ({ s with exclusive := some p }.goto p (.check .populate i false))
    else none
  | .check task i false, .proceed =>
    if (s.entry.stat follow completionMarker).isSome then some (s.goto p (.check task i true))
    else some (s.goto p (checked task i false))
  | .check task i true, .proceed =>
    some (s.goto p (checked task i ((s.entry.stat follow binDir).any Entry.isDir)))
  | .create task i, .proceed =>
    (createDirAll follow (s.copyTo task i)).map fun t =>
      ((s.setCopyTo t task i).began task i).goto p (.copy task i (.enter [] []))
  | .copy task i (.next []), .proceed => some (s.goto p (afterCopy task i))
  | .copy task i c, choice =>
    (copyStep follow (s.copyFrom task i) (s.copyTo task i) c choice).map fun (c,t) =>
      (s.setCopyTo t task i).goto p (.copy task i c)
  | .writeMarker i, .proceed =>
    if s.entry.linked completionMarker = false ∧ s.entry.takes completionMarker = true then
      some ({ s with entry := s.entry.put completionMarker (.file []) }.goto p
        (.release .populate i))
    else none
  | .writeMarker i, .through t =>
    if s.entry.linked completionMarker = true then
      some ({ s with entry := t }.goto p (.release .populate i))
    else none
  | .release _ i, .proceed => some ((s.unlock p).goto p (.ready i))
  | _, _ => none

/-- An I/O error: a test that fails counts as one that finds nothing, a copy is given up. -/
def failStep (s : State) (p : Pid) : Phase → Option State
  | .look task i _ => some (s.goto p (looked task i false))
  | .acquire _ i => some (s.goto p (.ready i))
  | .check task i _ => some (s.goto p (checked task i false))
  | .create task i | .copy task i _ => some (s.goto p (.release task i))
  | .writeMarker i => some (s.goto p (.release .populate i))
  | .idle | .ready _ | .release _ _ => none

inductive Action where
  | takeSetupLock (p : Pid) (i : TreeId)
  | dropSetupLock (p : Pid)
  | begin (p : Pid) (task : Task)
  /-- `Setup` or the extension hook, for what they leave of the tree. -/
  | install (p : Pid) (t : Tree)
  | step (p : Pid) (choice : Choice)
  | fail (p : Pid)
  | crash (p : Pid)
  /-- The user changes an install tree nobody uses, or deletes the entry while nobody does. -/
  | alter (i : TreeId) (t : Tree)
  | deleteEntry

def step (s : State) : Action → Option State
  | .takeSetupLock p i =>
    match s.phase p, s.setupLock i with
    | .idle, none =>
      some ({ s with setupLock := Function.update s.setupLock i (some p) }.goto p (.ready i))
    | _, _ => none
  | .dropSetupLock p =>
    match s.phase p with
    | .ready _ => some ((s.unlockSetup p).goto p .idle)
    | _ => none
  | .begin p task =>
    match s.phase p with
    | .ready i => some (s.goto p (.look task i false))
    | _ => none
  | .install p t =>
    match s.phase p with
    | .ready i => some (s.setTree i t)
    | _ => none
  | .step p choice => phaseStep follow s p (s.phase p) choice
  | .fail p => failStep s p (s.phase p)
  | .crash p => some (((s.unlock p).unlockSetup p).goto p .idle)
  | .alter i t => if s.setupLock i = none then some (s.setTree i t) else none
  | .deleteEntry =>
    if s.exclusive = none ∧ s.shared = [] then
      some { s with entry := .absent, populatedFrom := none }
    else none

/-- Any processes with any install trees, from an empty cache. -/
def system : System State Action :=
  .ofStep (fun s => ∃ trees, s = .initial trees) (step follow)

/-- Whenever the entry counts as complete and nobody has its exclusive lock, it has all of what
it was populated from. -/
def Complete (s : State) : Prop :=
  s.exclusive = none → isCacheEntryComplete follow s.entry = true →
    ∃ source, s.populatedFrom = some source ∧ Covers source s.entry

end Following

/-- No population begins in an entry or from a tree that holds a completion marker already, none
is led through a link, and none takes another file of the same size for installed. -/
def meets (s : State) : Action → Bool
  | .step p _ =>
    match s.phase p with
    | .create .populate i =>
      ((s.trees i).node completionMarker).isNone && (s.entry.node completionMarker).isNone
    | .copy .populate i c => c.clear (s.trees i) s.entry
    | _ => true
  | _ => true

end PgEmbedSetup.Cache
