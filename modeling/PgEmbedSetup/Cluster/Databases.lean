import Mathlib.Logic.Function.Basic
import PgEmbedSetup.Cluster.Statements
import PgEmbedSetup.Library.Process

set_option autoImplicit false

/-!
`src/cluster/temporary_database.rs` and the calls of `src/cluster/lifecycle.rs` that make and drop
databases, any number of them at once on one server.
-/

namespace PgEmbedSetup.Cluster.Databases
open Library Library.SqlLexer Statements

abbrev Caller := Nat

abbrev BootstrapResult (α : Type) := Except Text α

/-- What becomes of a statement. One whose answer is lost took effect all the same. -/
inductive Served where
  | done
  | lost
  | refused
  deriving DecidableEq, Repr

def Served.happened : Served → Bool
  | .done | .lost => true
  | .refused => false

def Served.ok : Served → Bool
  | .done => true
  | .lost | .refused => false

theorem Served.happened_of_ok {s : Served} (h : s.ok = true) : s.happened = true := by
  cases s with
  | done => rfl
  | lost => cases h
  | refused => cases h

inductive Op where
  | connectAdmin (c : Caller)
  | send (c : Caller) (sent : Sent)
  | warn (c : Caller) (error : Text)
  /-- A call that leaves no guard behind is over. -/
  | returned (c : Caller) (r : BootstrapResult Unit)
  /-- The guard is gone, after a call with the given result or at the end of its scope. -/
  | ended (c : Caller) (r : Option (BootstrapResult Unit))
  deriving DecidableEq

abbrev Reply : Op → Type
  | .connectAdmin _ => BootstrapResult Unit
  | .send _ _ => Served
  | .warn _ _ | .returned _ _ | .ended _ _ => Unit

abbrev Code (α : Type) := Process Op Reply α

def call (op : Op) : Code (Reply op) := Process.perform op

/-! ### The calls -/

def failureText : Call → Sent → Text
  | .createDatabase name, _ => "failed to create database '".toList ++ name ++ ['\'']
  | .createDatabaseFromTemplate name template, _ =>
    "failed to create database '".toList ++ name ++ "' from template '".toList ++ template ++ ['\'']
  | .temporaryForceDrop name, .execute _ _ =>
    "failed to terminate connections to database '".toList ++ name ++ ['\'']
  | .dropDatabase name, _ | .temporaryDrop name, _ | .temporaryForceDrop name, .batchExecute _ =>
    "failed to drop database '".toList ++ name ++ ['\'']

def connectAdmin (c : Caller) : Code (BootstrapResult Unit) := do
  match ← call (.connectAdmin c) with
  | .ok () => pure (.ok ())
  | .error reason => pure (.error ("failed to connect to admin database: ".toList ++ reason))

def sendEach (c : Caller) (failure : Sent → Text) : List Sent → Code (BootstrapResult Unit)
  | [] => pure (.ok ())
  | sent :: rest => do
    match ← call (.send c sent) with
    | .done => sendEach c failure rest
    | .lost | .refused => pure (.error (failure sent))

def run (c : Caller) (request : Call) : Code (BootstrapResult Unit) := do
  match ← connectAdmin c with
  | .error e => pure (.error e)
  | .ok () => sendEach c (failureText request) request.sent

/-- How a test parts with its guard. -/
inductive Parting where
  | scope
  | dropDatabase
  | forceDrop
  deriving DecidableEq, Repr

structure TemporaryDatabase where
  name : Text
  template : Option Text
  parting : Parting
  deriving DecidableEq, Repr

def createCall (name : Text) : Option Text → Call
  | none => .createDatabase name
  | some template => .createDatabaseFromTemplate name template

/-- `Drop::drop`. -/
def dropGuard (c : Caller) (name : Text) : Code Unit := do
  match ← run c (.temporaryDrop name) with
  | .ok () => pure ()
  | .error e => call (.warn c e)

/-- The methods take the guard by value, so that it is dropped as they return. -/
def TemporaryDatabase.part (c : Caller) (t : TemporaryDatabase) :
    Code (Option (BootstrapResult Unit)) :=
  match t.parting with
  | .scope => do
    dropGuard c t.name
    pure none
  | .dropDatabase => do
    let r ← run c (.temporaryDrop t.name)
    dropGuard c t.name
    pure (some r)
  | .forceDrop => do
    let r ← run c (.temporaryForceDrop t.name)
    dropGuard c t.name
    pure (some r)

/-- What a test does: one call, or all that becomes of a temporary database. -/
inductive Task where
  | create (name : Text) (template : Option Text)
  | drop (name : Text)
  | temporary (t : TemporaryDatabase)
  deriving DecidableEq, Repr

def Task.code (c : Caller) : Task → Code Unit
  | .create name template => do
    let r ← run c (createCall name template)
    call (.returned c r)
  | .drop name => do
    let r ← run c (.dropDatabase name)
    call (.returned c r)
  | .temporary t => do
    match ← run c (createCall t.name t.template) with
    | .error e => call (.returned c (.error e))
    | .ok () => do
      let r ← t.part c
      call (.ended c r)

/-! ### The server -/

/-- The name a database is kept under: long ones are cut. -/
structure Server where
  stored : Text → Text
  stored_stored : ∀ name, stored (stored name) = stored name

def readDdl : List Token → Option Ddl
  | [.word verb,.word object,.quoted name] =>
    if [verb,object] = ["CREATE".toList,"DATABASE".toList] then some (.createDatabase name none)
    else if [verb,object] = ["DROP".toList,"DATABASE".toList] then some (.dropDatabase name)
    else none
  | [.word verb,.word object,.quoted name,.word clause,.quoted template] =>
    if [verb,object,clause] = ["CREATE".toList,"DATABASE".toList,"TEMPLATE".toList] then
      some (.createDatabase name (some template))
    else none
  | _ => none

/-- A text with a zero in it is not sent at all. -/
def understands (sql : Text) : Option Ddl :=
  if nul ∈ sql then none else (lex sql).bind readDdl

/-- `disconnected`: the sessions of the database are ended. -/
inductive Event where
  | created (c : Caller) (name : Text) (oid : Nat)
  | dropped (c : Caller) (name : Text) (oid : Nat)
  | disconnected (c : Caller) (name : Text) (oid : Nat)
  | warned (c : Caller)
  | returned (c : Caller) (r : BootstrapResult Unit)
  | ended (c : Caller) (r : Option (BootstrapResult Unit))
  deriving DecidableEq

/-- Databases are told apart by number, since their names come again. -/
structure World where
  databases : Text → Option Nat
  fresh : Nat
  events : List Event

def World.log (w : World) (e : Event) : World := { w with events := w.events ++ [e] }

section Server
variable (server : Server)

def World.create (w : World) (c : Caller) (name : Text) : World where
  databases := Function.update w.databases (server.stored name) (some w.fresh)
  fresh := w.fresh+1
  events := w.events ++ [.created c (server.stored name) w.fresh]

def World.drop (w : World) (c : Caller) (name : Text) (oid : Nat) : World where
  databases := Function.update w.databases (server.stored name) none
  fresh := w.fresh
  events := w.events ++ [.dropped c (server.stored name) oid]

def apply (w : World) (c : Caller) : Ddl → Option World
  | .createDatabase name template =>
    if (w.databases (server.stored name)).isNone ∧
        template.all (fun t => (w.databases (server.stored t)).isSome) then
      some (w.create server c name)
    else none
  | .dropDatabase name => (w.databases (server.stored name)).map (w.drop server c name)

/-- The parameter is compared with the names as they are kept. -/
def World.disconnect (w : World) (c : Caller) (name : Text) : World :=
  match w.databases name with
  | none => w
  | some oid => w.log (.disconnected c name oid)

/-- A statement may fail for any reason. -/
def answer (w : World) : (op : Op) → Reply op → Option World
  | .connectAdmin _, _ => some w
  | .send c (.batchExecute sql), served =>
    if served.happened then (understands sql).bind (apply server w c) else some w
  | .send c (.execute sql params), served =>
    if served.happened then
      (if sql = terminateBackends then params.head? else none).map (w.disconnect c)
    else some w
  | .warn c _, _ => some (w.log (.warned c))
  | .returned c r, _ => some (w.log (.returned c r))
  | .ended c r, _ => some (w.log (.ended c r))

/-- The calls are the only ones to make or drop databases. One may be cut off anywhere. -/
def machine : Machine Op Reply World Empty where
  answer := answer server
  spawned _ := []
  env _ e := e.elim
  aborted w := w

abbrev State := Pool Op Reply World

abbrev Action := PoolAction Op Reply Empty

/-- What a server starts from: some databases, and numbers not yet given. -/
structure Catalog (w : World) : Prop where
  stored : ∀ {name oid}, w.databases name = some oid → server.stored name = name
  fresh : ∀ {name oid}, w.databases name = some oid → oid < w.fresh
  apart : ∀ {name name' oid}, w.databases name = some oid → w.databases name' = some oid →
    name = name'

def begins (tasks : List Task) (s : State) : Prop :=
  s.threads = tasks.mapIdx Task.code ∧ s.world.events = [] ∧ Catalog server s.world

def tests (tasks : List Task) : System State Action := (machine server).system (begins server tasks)

end Server

end PgEmbedSetup.Cluster.Databases
