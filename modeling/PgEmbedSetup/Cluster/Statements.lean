import PgEmbedSetup.Library.SqlLexer

set_option autoImplicit false

/-!
`src/cluster/connection.rs`, `src/cluster/lifecycle.rs` and `src/cluster/temporary_database.rs`:
the SQL texts that create and drop databases.
-/

namespace PgEmbedSetup.Cluster.Statements
open Library Library.SqlLexer

/-! ### Building -/

/-- `str::replace` from left to right, for a pattern that is not empty; `skip` characters belong
to a match already replaced. -/
def replaceFrom (pattern by' : Text) : Nat → Text → Text
  | _, [] => []
  | skip+1, _ :: rest => replaceFrom pattern by' skip rest
  | 0, c :: rest =>
    if pattern.isPrefixOf (c :: rest) then by' ++ replaceFrom pattern by' (pattern.length-1) rest
    else c :: replaceFrom pattern by' 0 rest

def replace (text pattern by' : Text) : Text := replaceFrom pattern by' 0 text

def escapeIdentifier (name : Text) : Text := replace name ['"'] ['"','"']

/-- What a client is asked to run: a text alone, or a text with parameters apart from it. -/
inductive Sent where
  | batchExecute (sql : Text)
  | execute (sql : Text) (params : List Text)
  deriving DecidableEq, Repr

def executeDdlCommand (sqlTemplate name : Text) : List Sent :=
  let escaped := escapeIdentifier name
  [.batchExecute (replace sqlTemplate "\x7b\x7d".toList ('"' :: escaped ++ ['"']))]

def createDatabase (name : Text) : List Sent :=
  executeDdlCommand "CREATE DATABASE \x7b\x7d".toList name

def createDatabaseFromTemplate (name template : Text) : List Sent :=
  let escapedName := escapeIdentifier name
  let escapedTemplate := escapeIdentifier template
  [.batchExecute ("CREATE DATABASE \"".toList ++ escapedName ++ "\" TEMPLATE \"".toList ++
    escapedTemplate ++ "\"".toList)]

def dropDatabase (name : Text) : List Sent :=
  executeDdlCommand "DROP DATABASE \x7b\x7d".toList name

def terminateBackends : Text :=
  ("SELECT pg_terminate_backend(pid) FROM pg_stat_activity WHERE datname = $1 AND " ++
    "pid <> pg_backend_pid()").toList

def tryDrop (name : Text) : List Sent :=
  let escaped := escapeIdentifier name
  [.batchExecute ("DROP DATABASE \"".toList ++ escaped ++ "\"".toList)]

def forceDrop (name : Text) : List Sent :=
  let escaped := escapeIdentifier name
  [.execute terminateBackends [name],
    .batchExecute ("DROP DATABASE \"".toList ++ escaped ++ "\"".toList)]

inductive Call where
  | createDatabase (name : Text)
  | createDatabaseFromTemplate (name template : Text)
  | dropDatabase (name : Text)
  | temporaryDrop (name : Text)
  | temporaryForceDrop (name : Text)
  deriving DecidableEq, Repr

def Call.sent : Call → List Sent
  | .createDatabase name => Statements.createDatabase name
  | .createDatabaseFromTemplate name template => Statements.createDatabaseFromTemplate name template
  | .dropDatabase name => Statements.dropDatabase name
  | .temporaryDrop name => tryDrop name
  | .temporaryForceDrop name => forceDrop name

def Call.names : Call → List Text
  | .createDatabaseFromTemplate name template => [name,template]
  | .createDatabase name | .dropDatabase name | .temporaryDrop name | .temporaryForceDrop name =>
    [name]

/-- The texts a server gets with the names spliced in. -/
def Call.batches (call : Call) : List Text :=
  call.sent.filterMap fun
    | .batchExecute sql => some sql
    | .execute _ _ => none

/-! ### What the server reads -/

inductive Ddl where
  | createDatabase (name : Text) (template : Option Text)
  | dropDatabase (name : Text)
  deriving DecidableEq, Repr

def Ddl.tokens : Ddl → List Token
  | .createDatabase name none => [.word "CREATE".toList,.word "DATABASE".toList,.quoted name]
  | .createDatabase name (some template) =>
    [.word "CREATE".toList,.word "DATABASE".toList,.quoted name,.word "TEMPLATE".toList,
      .quoted template]
  | .dropDatabase name => [.word "DROP".toList,.word "DATABASE".toList,.quoted name]

def Ddl.names : Ddl → List Text
  | .createDatabase name none | .dropDatabase name => [name]
  | .createDatabase name (some template) => [name,template]

/-- The statement with its names quoted. -/
def Ddl.text : Ddl → Text
  | .createDatabase name none => "CREATE DATABASE ".toList ++ quote name
  | .createDatabase name (some template) =>
    "CREATE DATABASE ".toList ++ (quote name ++ " TEMPLATE ".toList ++ quote template)
  | .dropDatabase name => "DROP DATABASE ".toList ++ quote name

def Call.ddl : Call → Ddl
  | .createDatabase name => .createDatabase name none
  | .createDatabaseFromTemplate name template => .createDatabase name (some template)
  | .dropDatabase name | .temporaryDrop name | .temporaryForceDrop name => .dropDatabase name

/-! ### Escaping -/

theorem escapeIdentifier_eq (name : Text) : escapeIdentifier name = doubled name := by
  rw [escapeIdentifier,replace]
  induction name with
  | nil => rfl
  | cons c name ih =>
    rw [replaceFrom,doubled_cons,← ih]
    by_cases hquote : c = '"'
    · subst hquote
      rfl
    · have hno : List.isPrefixOf ['"'] (c :: name) = false := by
        simpa [List.isPrefixOf] using fun h : '"' = c => hquote h.symm
      simp [hno,hquote]

/-! ### Reading back -/

/-- A verb, the word `DATABASE`, and what comes behind them. -/
theorem lex_database {c : Char} {verb tail : Text} {tokens : List Token}
    (hspace : isSpace c = false) (hstart : isIdentStart c) (hverb : ∀ d ∈ verb, isIdentCont d)
    (htail : lex tail = some tokens) :
    lex (c :: verb ++ " DATABASE ".toList ++ tail) =
      some (.word (c :: verb) :: .word "DATABASE".toList :: tokens) := by
  have hshape : c :: verb ++ " DATABASE ".toList ++ tail =
      c :: verb ++ ' ' :: ('D' :: "ATABASE".toList ++ ' ' :: tail) := by simp
  have hrest : ∀ d ∈ "ATABASE".toList, isIdentCont d :=
    List.all_eq_true.mp (by decide : "ATABASE".toList.all isIdentCont = true)
  rw [hshape,lex,lexFrom_keyword _ hspace hstart hverb,
    lexFrom_keyword _ (by decide) (by decide) hrest,← lex,htail]
  rfl

theorem lex_quote {name : Text} (h : nul ∉ name) : lex (quote name) = some [.quoted name] := by
  have hquote := lexFrom_quote name [] h
  rwa [List.append_nil] at hquote

theorem lex_quote_template {name template : Text} (hname : nul ∉ name) (htemplate : nul ∉ template) :
    lex (quote name ++ " TEMPLATE ".toList ++ quote template) =
      some [.quoted name,.word "TEMPLATE".toList,.quoted template] := by
  have hshape : quote name ++ " TEMPLATE ".toList ++ quote template =
      quote name ++ ' ' :: ('T' :: "EMPLATE".toList ++ ' ' :: quote template) := by simp
  have hrest : ∀ d ∈ "EMPLATE".toList, isIdentCont d :=
    List.all_eq_true.mp (by decide : "EMPLATE".toList.all isIdentCont = true)
  have hspace : step (.closing name) ' ' = some ([.quoted name],.between) := by
    have hsp : isSpace ' ' = true := by decide
    simp [step,begin,hsp]
  rw [hshape,lex,lexFrom_quote _ _ hname,lexFrom_cons _ hspace,
    lexFrom_keyword _ (by decide) (by decide) hrest,← lex,lex_quote htemplate]
  rfl

theorem lex_create {tail : Text} {tokens : List Token} (h : lex tail = some tokens) :
    lex ("CREATE DATABASE ".toList ++ tail) =
      some (.word "CREATE".toList :: .word "DATABASE".toList :: tokens) := by
  have hverb : ∀ d ∈ "REATE".toList, isIdentCont d :=
    List.all_eq_true.mp (by decide : "REATE".toList.all isIdentCont = true)
  simpa using lex_database (by decide) (by decide : isIdentStart 'C') hverb h

theorem lex_drop {tail : Text} {tokens : List Token} (h : lex tail = some tokens) :
    lex ("DROP DATABASE ".toList ++ tail) =
      some (.word "DROP".toList :: .word "DATABASE".toList :: tokens) := by
  have hverb : ∀ d ∈ "ROP".toList, isIdentCont d :=
    List.all_eq_true.mp (by decide : "ROP".toList.all isIdentCont = true)
  simpa using lex_database (by decide) (by decide : isIdentStart 'D') hverb h

theorem lex_text (ddl : Ddl) (h : ∀ name ∈ ddl.names, nul ∉ name) :
    lex ddl.text = some ddl.tokens := by
  match ddl with
  | .createDatabase name none => exact lex_create (lex_quote (h name (by simp [Ddl.names])))
  | .createDatabase name (some template) =>
    exact lex_create (lex_quote_template (h name (by simp [Ddl.names]))
      (h template (by simp [Ddl.names])))
  | .dropDatabase name => exact lex_drop (lex_quote (h name (by simp [Ddl.names])))

/-- No quoted identifier counts as an end of statement. -/
theorem statements_tokens (ddl : Ddl) : statements ddl.tokens = [ddl.tokens] := by
  match ddl with
  | .createDatabase name none => simp [statements,Ddl.tokens,List.splitOnP_cons_eq_if_modifyHead]
  | .createDatabase name (some template) =>
    simp [statements,Ddl.tokens,List.splitOnP_cons_eq_if_modifyHead]
  | .dropDatabase name => simp [statements,Ddl.tokens,List.splitOnP_cons_eq_if_modifyHead]

/-! ### Calls -/

/-- The template's braces give way to the quoted name. -/
theorem executeDdlCommand_eq (verb name : Text) (h : '\x7b' ∉ verb) :
    executeDdlCommand (verb ++ "\x7b\x7d".toList) name =
      [.batchExecute (verb ++ quote name)] := by
  have hreplace : replace (verb ++ "\x7b\x7d".toList) "\x7b\x7d".toList (quote name) =
      verb ++ quote name := by
    rw [replace]
    induction verb with
    | nil => simp [replaceFrom]
    | cons c verb ih =>
      have hc : ¬ '\x7b' = c := fun heq => h (heq ▸ List.mem_cons_self)
      rw [List.cons_append,replaceFrom]
      simpa [hc] using ih fun hmem => h (List.mem_cons_of_mem c hmem)
  rw [executeDdlCommand,escapeIdentifier_eq,← hreplace]
  rfl

theorem sent_tryDrop (name : Text) :
    tryDrop name = [.batchExecute ("DROP DATABASE ".toList ++ quote name)] := by
  have hquote : "DROP DATABASE \"".toList = "DROP DATABASE ".toList ++ ['"'] := by decide
  rw [tryDrop,escapeIdentifier_eq,hquote,quote]
  simp only [List.append_assoc,List.cons_append]
  rfl

theorem sent_createDatabaseFromTemplate (name template : Text) :
    createDatabaseFromTemplate name template =
      [.batchExecute ("CREATE DATABASE ".toList ++
        (quote name ++ " TEMPLATE ".toList ++ quote template))] := by
  have hcreate : "CREATE DATABASE \"".toList = "CREATE DATABASE ".toList ++ ['"'] := by decide
  have htemplate : "\" TEMPLATE \"".toList = ['"'] ++ (" TEMPLATE ".toList ++ ['"']) := by decide
  rw [createDatabaseFromTemplate,escapeIdentifier_eq,escapeIdentifier_eq,hcreate,htemplate,quote,
    quote]
  simp only [List.append_assoc,List.cons_append]
  rfl

/-- Each call splices its names in once, each of them quoted. -/
theorem batches_eq (call : Call) : call.batches = [call.ddl.text] := by
  cases call with
  | createDatabase name =>
    have hsent : (Call.createDatabase name).sent =
        [.batchExecute ("CREATE DATABASE ".toList ++ quote name)] :=
      executeDdlCommand_eq "CREATE DATABASE ".toList name (by decide)
    rw [Call.batches,hsent]
    rfl
  | createDatabaseFromTemplate name template =>
    rw [Call.batches,Call.sent,sent_createDatabaseFromTemplate]
    rfl
  | dropDatabase name =>
    have hsent : (Call.dropDatabase name).sent =
        [.batchExecute ("DROP DATABASE ".toList ++ quote name)] :=
      executeDdlCommand_eq "DROP DATABASE ".toList name (by decide)
    rw [Call.batches,hsent]
    rfl
  | temporaryDrop name =>
    rw [Call.batches,Call.sent,sent_tryDrop]
    rfl
  | temporaryForceDrop name =>
    have hsent : (Call.temporaryForceDrop name).sent =
        .execute terminateBackends [name] :: tryDrop name := rfl
    rw [Call.batches,hsent,sent_tryDrop]
    rfl

theorem ddl_names (call : Call) : call.ddl.names = call.names := by
  cases call <;> rfl

/-- Whatever the names are, the server reads the one statement the call is about. -/
theorem call_batches_lex (call : Call) (h : ∀ name ∈ call.names, nul ∉ name) :
    ∃ sql, call.batches = [sql] ∧ lex sql = some call.ddl.tokens ∧
      statements call.ddl.tokens = [call.ddl.tokens] := by
  rw [← ddl_names] at h
  exact ⟨call.ddl.text,batches_eq call,lex_text call.ddl h,statements_tokens call.ddl⟩

def hostileName : Text := "a\"; DROP DATABASE \"b\"\n\x7b\x7d--".toList

theorem call_batches_lex_hostile :
    (∀ name ∈ (Call.createDatabaseFromTemplate hostileName []).names, nul ∉ name) ∧
      ∃ sql, (Call.createDatabaseFromTemplate hostileName []).batches = [sql] ∧
        lex sql = some (Ddl.createDatabase hostileName (some [])).tokens ∧
        statements (Ddl.createDatabase hostileName (some [])).tokens =
          [(Ddl.createDatabase hostileName (some [])).tokens] := by
  have hnames : ∀ name ∈ (Call.createDatabaseFromTemplate hostileName []).names, nul ∉ name := by
    decide
  exact ⟨hnames,call_batches_lex _ hnames⟩

/-- Two calls with the same text are about the same statement. -/
theorem ddl_of_batches {first second : Call} (hfirst : ∀ name ∈ first.names, nul ∉ name)
    (hsecond : ∀ name ∈ second.names, nul ∉ name) (h : first.batches = second.batches) :
    first.ddl.tokens = second.ddl.tokens := by
  rw [batches_eq,batches_eq,List.singleton_inj] at h
  rw [← ddl_names] at hfirst hsecond
  exact Option.some.inj ((lex_text _ hfirst).symm.trans (h ▸ lex_text _ hsecond))

end PgEmbedSetup.Cluster.Statements
