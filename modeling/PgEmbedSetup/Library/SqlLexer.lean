import PgEmbedSetup.Library.Text

set_option autoImplicit false

/-!
SQL's lexical structure, as far as key words and quoted identifiers use it.
-/

namespace PgEmbedSetup.Library.SqlLexer

inductive Token where
  | word (text : Text)
  | quoted (name : Text)
  | semicolon
  deriving DecidableEq, Repr

/-- `closing`: a quote was read that ends the identifier, unless one more follows. -/
inductive Mode where
  | between
  | word (read : Text)
  | inside (read : Text)
  | closing (read : Text)
  deriving DecidableEq, Repr

def isSpace (c : Char) : Bool :=
  c = ' ' || c = '\t' || c = '\n' || c = '\r' || c.toNat = 11 || c.toNat = 12

def isIdentStart (c : Char) : Bool := c.isAlpha || c = '_' || decide (128 ≤ c.toNat)

def isIdentCont (c : Char) : Bool := isIdentStart c || c.isDigit || c = '$'

def nul : Char := Char.ofNat 0

/-- Characters that start no word, identifier or statement are not read. -/
def begin (c : Char) : Option (List Token × Mode) :=
  if isSpace c then some ([],.between)
  else if isIdentStart c then some ([],.word [c])
  else if c = '"' then some ([],.inside [])
  else if c = ';' then some ([.semicolon],.between)
  else none

def step : Mode → Char → Option (List Token × Mode)
  | .between, c => begin c
  | .word read, c =>
    if isIdentCont c then some ([],.word (read ++ [c]))
    else (begin c).map fun (out,mode) => (.word read :: out,mode)
  | .inside read, c =>
    if c = '"' then some ([],.closing read)
    else if c = nul then none
    else some ([],.inside (read ++ [c]))
  | .closing read, c =>
    if c = '"' then some ([],.inside (read ++ [c]))
    else (begin c).map fun (out,mode) => (.quoted read :: out,mode)

def finish : Mode → Option (List Token)
  | .between => some []
  | .word read => some [.word read]
  | .inside _ => none
  | .closing read => some [.quoted read]

def lexFrom (mode : Mode) : Text → Option (List Token)
  | [] => finish mode
  | c :: rest =>
    match step mode c with
    | none => none
    | some (out,next) => (lexFrom next rest).map (out ++ ·)

def lex (sql : Text) : Option (List Token) := lexFrom .between sql

def statements (tokens : List Token) : List (List Token) :=
  (tokens.splitOnP (· == .semicolon)).filter (· ≠ [])

theorem lexFrom_cons {mode next : Mode} {c : Char} {out : List Token} (rest : Text)
    (h : step mode c = some (out,next)) :
    lexFrom mode (c :: rest) = (lexFrom next rest).map (out ++ ·) := by
  rw [lexFrom,h]

theorem lexFrom_silent {mode next : Mode} {c : Char} (rest : Text)
    (h : step mode c = some ([],next)) : lexFrom mode (c :: rest) = lexFrom next rest := by
  rw [lexFrom_cons rest h]
  simp

/-! ### Words -/

theorem lexFrom_word (read word rest : Text) (h : ∀ c ∈ word, isIdentCont c) :
    lexFrom (.word read) (word ++ rest) = lexFrom (.word (read ++ word)) rest := by
  induction word generalizing read with
  | nil => simp
  | cons c word ih =>
    have hstep : step (.word read) c = some ([],.word (read ++ [c])) := by
      simp [step,h c (List.mem_cons_self)]
    rw [List.cons_append,lexFrom_silent _ hstep,ih _ fun d hd => h d (List.mem_cons_of_mem c hd)]
    simp

/-- A key word and the space behind it. -/
theorem lexFrom_keyword {c : Char} {word : Text} (rest : Text) (hspace : isSpace c = false)
    (hstart : isIdentStart c) (hword : ∀ d ∈ word, isIdentCont d) :
    lexFrom .between (c :: word ++ ' ' :: rest) =
      (lexFrom .between rest).map (.word (c :: word) :: ·) := by
  have hbegin : step .between c = some ([],.word [c]) := by simp [step,begin,hspace,hstart]
  have hend : step (.word ([c] ++ word)) ' ' = some ([.word ([c] ++ word)],.between) := by
    have hcont : isIdentCont ' ' = false := by decide
    have hsp : isSpace ' ' = true := by decide
    simp [step,begin,hcont,hsp]
  rw [List.cons_append,lexFrom_silent _ hbegin,lexFrom_word _ _ _ hword,lexFrom_cons _ hend]
  rfl

/-! ### Quoted identifiers -/

/-- Every quote of the name is written twice. -/
def doubled (name : Text) : Text := name.flatMap fun c => if c = '"' then ['"','"'] else [c]

def quote (name : Text) : Text := '"' :: doubled name ++ ['"']

theorem doubled_cons (c : Char) (name : Text) :
    doubled (c :: name) = (if c = '"' then ['"','"'] else [c]) ++ doubled name := by
  rw [doubled,List.flatMap_cons,← doubled]

theorem lexFrom_doubled (read name rest : Text) (h : nul ∉ name) :
    lexFrom (.inside read) (doubled name ++ rest) = lexFrom (.inside (read ++ name)) rest := by
  induction name generalizing read with
  | nil => simp [doubled]
  | cons c name ih =>
    have hc : c ≠ nul := fun heq => h (heq ▸ List.mem_cons_self)
    have hname : nul ∉ name := fun hmem => h (List.mem_cons_of_mem c hmem)
    rw [doubled_cons,List.append_assoc]
    by_cases hquote : c = '"'
    · have hfirst : step (.inside read) '"' = some ([],.closing read) := by simp [step]
      have hsecond : step (.closing read) '"' = some ([],.inside (read ++ [c])) := by
        simp [step,hquote]
      rw [if_pos hquote,List.cons_append,lexFrom_silent _ hfirst,List.singleton_append,
        lexFrom_silent _ hsecond,ih _ hname]
      simp
    · have hplain : step (.inside read) c = some ([],.inside (read ++ [c])) := by
        simp [step,hquote,hc]
      rw [if_neg hquote,List.singleton_append,lexFrom_silent _ hplain,ih _ hname]
      simp

/-- A quoted name decodes to the name when no quote follows it. -/
theorem lexFrom_quote (name rest : Text) (h : nul ∉ name) :
    lexFrom .between (quote name ++ rest) = lexFrom (.closing name) rest := by
  have hopen : step .between '"' = some ([],.inside []) := by decide
  have hclose : step (.inside ([] ++ name)) '"' = some ([],.closing ([] ++ name)) := by simp [step]
  rw [quote,List.append_assoc,List.cons_append,lexFrom_silent _ hopen,lexFrom_doubled _ _ _ h,
    List.singleton_append,lexFrom_silent _ hclose]
  rfl

end PgEmbedSetup.Library.SqlLexer
