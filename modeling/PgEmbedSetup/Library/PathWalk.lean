import Mathlib.Data.List.Basic

set_option autoImplicit false

/-!
How a Unix kernel finds the file a path names: component by component, following
symbolic links, with a bound on how many it follows.
-/

namespace PgEmbedSetup.Library

variable {ν : Type}

/-- Where a file really is: its names, from its own up to the root's entry. -/
abbrev Place (ν : Type) := List ν

inductive Part (ν : Type) where
  | name (n : ν)
  | up
  | here
  deriving DecidableEq, Repr

/-- A path as a program writes it. -/
structure Path (ν : Type) where
  absolute : Bool
  parts : List (Part ν)
  deriving DecidableEq, Repr

def Path.join (path : Path ν) (n : ν) : Path ν := { path with parts := path.parts ++ [.name n] }

inductive Kind (ν : Type) where
  | dir
  | leaf
  | link (target : Path ν)
  deriving DecidableEq, Repr

/-- What is where. Whatever exists lies in a directory. -/
structure Layout (ν : Type) where
  kind : Place ν → Option (Kind ν)
  root_dir : kind [] = some .dir
  parent_dir : ∀ n p k, kind (n :: p) = some k → kind p = some .dir

inductive WalkError where
  | notFound
  | notDir
  | loop
  | escapes
  deriving DecidableEq, Repr

structure WalkRules where
  /-- Whether a link in the last place is followed. -/
  follow : Bool
  /-- Whether the walk must stay under the place it starts from. -/
  beneath : Bool
  deriving DecidableEq, Repr

/-- A walk up to the first link that has to be followed. -/
inductive Scan (ν : Type) where
  | done (p : Place ν)
  | jump (p : Place ν) (target : Path ν) (rest : List (Part ν))
  | fail (e : WalkError)
  deriving DecidableEq, Repr

def Layout.enter (l : Layout ν) (r : WalkRules) (p : Place ν) (n : ν) (rest : List (Part ν))
    (next : Place ν → Scan ν) : Scan ν :=
  match l.kind (n :: p) with
  | none => .fail .notFound
  | some (.link target) => if rest.isEmpty && !r.follow then .done (n :: p) else .jump p target rest
  | some _ => next (n :: p)

def Layout.scan (l : Layout ν) (r : WalkRules) : Place ν → List (Part ν) → Scan ν
  | p, [] => .done p
  | p, part :: rest =>
    match l.kind p, part, p with
    | none, _, _ => .fail .notFound
    | some .leaf, _, _ | some (.link _), _, _ => .fail .notDir
    | some .dir, .here, p => l.scan r p rest
    | some .dir, .up, [] => if r.beneath then .fail .escapes else l.scan r [] rest
    | some .dir, .up, _ :: q => l.scan r q rest
    | some .dir, .name n, p => l.enter r p n rest (fun q => l.scan r q rest)

/-- The first argument is how many links may still be followed. -/
def Layout.walk (l : Layout ν) (r : WalkRules) :
    Nat → Place ν → List (Part ν) → Except WalkError (Place ν)
  | 0, p, parts =>
    match l.scan r p parts with
    | .done q => .ok q
    | .fail e => .error e
    | .jump .. => .error .loop
  | budget+1, p, parts =>
    match l.scan r p parts with
    | .done q => .ok q
    | .fail e => .error e
    | .jump q target rest =>
      if target.absolute then
        if r.beneath then .error .escapes else l.walk r budget [] (target.parts ++ rest)
      else l.walk r budget q (target.parts ++ rest)

/-- Linux and the path library give up after the fortieth link. -/
def maxLinks : Nat := 40

/-- Absolute paths start at the root, the others in `cwd`. -/
def Layout.resolve (l : Layout ν) (r : WalkRules) (cwd : Place ν) (path : Path ν) :
    Except WalkError (Place ν) :=
  if path.absolute then
    if r.beneath then .error .escapes else l.walk r maxLinks [] path.parts
  else l.walk r maxLinks cwd path.parts

/-! ### One component at a time -/

variable {l : Layout ν} {r : WalkRules}

theorem scan_nil (p : Place ν) : l.scan r p [] = .done p := rfl

theorem scan_cons (p : Place ν) (part : Part ν) (rest : List (Part ν)) :
    l.scan r p (part :: rest) =
      match l.kind p, part, p with
      | none, _, _ => .fail .notFound
      | some .leaf, _, _ | some (.link _), _, _ => .fail .notDir
      | some .dir, .here, p => l.scan r p rest
      | some .dir, .up, [] => if r.beneath then .fail .escapes else l.scan r [] rest
      | some .dir, .up, _ :: q => l.scan r q rest
      | some .dir, .name n, p => l.enter r p n rest (fun q => l.scan r q rest) := rfl

theorem scan_name {p : Place ν} (n : ν) (rest : List (Part ν)) (hp : l.kind p = some .dir) :
    l.scan r p (.name n :: rest) = l.enter r p n rest (fun q => l.scan r q rest) := by
  cases p <;> simp [scan_cons,hp]

theorem scan_last {p : Place ν} {n : ν} (hp : l.kind p = some .dir)
    (hn : l.kind (n :: p) = some .dir ∨ l.kind (n :: p) = some .leaf) :
    l.scan r p [.name n] = .done (n :: p) := by
  rw [scan_name n [] hp,Layout.enter]
  rcases hn with hn | hn <;> simp [hn,scan_nil]

/-- Carries a scan on with the parts that come after it. -/
def Scan.andThen (s : Scan ν) (qs : List (Part ν)) (next : Place ν → Scan ν) : Scan ν :=
  match s with
  | .done q => next q
  | .jump q target rest => .jump q target (rest ++ qs)
  | .fail e => .fail e

theorem enter_append (hr : r.follow = true) (p : Place ν) (n : ν) (ps qs : List (Part ν))
    {f g : Place ν → Scan ν} (hf : f (n :: p) = (g (n :: p)).andThen qs (fun q => l.scan r q qs)) :
    l.enter r p n (ps ++ qs) f = (l.enter r p n ps g).andThen qs (fun q => l.scan r q qs) := by
  simp only [Layout.enter,hr]
  cases hn : l.kind (n :: p) with
  | none => rfl
  | some k =>
    cases k with
    | dir => exact hf
    | leaf => exact hf
    | link target => simp [Scan.andThen]

theorem scan_append (hr : r.follow = true) (p : Place ν) (ps qs : List (Part ν)) :
    l.scan r p (ps ++ qs) = (l.scan r p ps).andThen qs (fun q => l.scan r q qs) := by
  induction ps generalizing p with
  | nil => rfl
  | cons part ps ih =>
    simp only [List.cons_append,scan_cons]
    cases hk : l.kind p with
    | none => rfl
    | some k =>
      cases k with
      | leaf => rfl
      | link target => rfl
      | dir =>
        cases part with
        | here => exact ih p
        | name n => exact enter_append hr p n ps qs (ih (n :: p))
        | up =>
          cases p with
          | cons m q => exact ih q
          | nil =>
            cases hb : r.beneath with
            | true => rfl
            | false => simpa [hb] using ih []

/-- Where a scan that follows every link stops, there is no link. -/
theorem scan_stop (hr : r.follow = true) {p q : Place ν} {ps : List (Part ν)}
    (hp : l.kind p = some .dir ∨ l.kind p = some .leaf) (h : l.scan r p ps = .done q) :
    l.kind q = some .dir ∨ l.kind q = some .leaf := by
  induction ps generalizing p with
  | nil =>
    simp only [scan_nil,Scan.done.injEq] at h
    exact h ▸ hp
  | cons part ps ih =>
    rcases hp with hp | hp
    · cases part with
      | here =>
        simp only [scan_cons,hp] at h
        exact ih (.inl hp) h
      | up =>
        cases p with
        | nil =>
          cases hb : r.beneath with
          | true => simp [scan_cons,hp,hb] at h
          | false =>
            simp only [scan_cons,hp,hb] at h
            exact ih (.inl hp) h
        | cons m q =>
          simp only [scan_cons,hp] at h
          exact ih (.inl (l.parent_dir m q _ hp)) h
      | name n =>
        rw [scan_name n ps hp,Layout.enter] at h
        cases hn : l.kind (n :: p) with
        | none => simp [hn] at h
        | some k =>
          cases k with
          | link target => simp [hn,hr] at h
          | dir =>
            simp only [hn] at h
            exact ih (.inl hn) h
          | leaf =>
            simp only [hn] at h
            exact ih (.inr hn) h
    · simp [scan_cons,hp] at h

theorem scan_jump_dir {p q : Place ν} {target : Path ν} {ps rest : List (Part ν)}
    (h : l.scan r p ps = .jump q target rest) : l.kind q = some .dir := by
  induction ps generalizing p with
  | nil => simp [scan_nil] at h
  | cons part ps ih =>
    simp only [scan_cons] at h
    cases hk : l.kind p with
    | none => simp [hk] at h
    | some k =>
      cases k with
      | leaf => simp [hk] at h
      | link t => simp [hk] at h
      | dir =>
        cases part with
        | here =>
          simp only [hk] at h
          exact ih h
        | up =>
          cases p with
          | cons m p =>
            simp only [hk] at h
            exact ih h
          | nil =>
            cases hb : r.beneath with
            | true => simp [hk,hb] at h
            | false =>
              simp only [hk,hb] at h
              exact ih h
        | name n =>
          simp only [hk,Layout.enter] at h
          cases hn : l.kind (n :: p) with
          | none => simp [hn] at h
          | some k =>
            cases k with
            | dir =>
              simp only [hn] at h
              exact ih h
            | leaf =>
              simp only [hn] at h
              exact ih h
            | link t =>
              simp only [hn] at h
              split at h
              · simp at h
              · simp only [Scan.jump.injEq] at h
                exact h.1 ▸ hk

/-! ### Whole walks -/

theorem walk_of_done {b : Nat} {p q : Place ν} {ps : List (Part ν)}
    (h : l.scan r p ps = .done q) : l.walk r b p ps = .ok q := by
  cases b <;> simp [Layout.walk,h]

theorem walk_of_fail {b : Nat} {p : Place ν} {ps : List (Part ν)} {e : WalkError}
    (h : l.scan r p ps = .fail e) : l.walk r b p ps = .error e := by
  cases b <;> simp [Layout.walk,h]

/-- A walk that follows every link never ends on one. -/
theorem walk_stop (hr : r.follow = true) {b : Nat} {p q : Place ν} {ps : List (Part ν)}
    (hp : l.kind p = some .dir) (h : l.walk r b p ps = .ok q) :
    l.kind q = some .dir ∨ l.kind q = some .leaf := by
  induction b generalizing p ps with
  | zero =>
    cases hs : l.scan r p ps with
    | done x =>
      rw [walk_of_done hs,Except.ok.injEq] at h
      exact scan_stop hr (.inl hp) (h ▸ hs)
    | fail e => simp [walk_of_fail hs] at h
    | jump x t rest => simp [Layout.walk,hs] at h
  | succ b ih =>
    cases hs : l.scan r p ps with
    | done x =>
      rw [walk_of_done hs,Except.ok.injEq] at h
      exact scan_stop hr (.inl hp) (h ▸ hs)
    | fail e => simp [walk_of_fail hs] at h
    | jump x t rest =>
      simp only [Layout.walk,hs] at h
      split at h
      · split at h
        · simp at h
        · exact ih l.root_dir h
      · exact ih (scan_jump_dir hs) h

/-- One more name below a directory that a walk has reached costs no link. -/
theorem walk_append_name (hr : r.follow = true) {b : Nat} {p q : Place ν} {ps : List (Part ν)}
    {n : ν} (h : l.walk r b p ps = .ok q) (hq : l.kind q = some .dir)
    (hn : l.kind (n :: q) = some .dir ∨ l.kind (n :: q) = some .leaf) :
    l.walk r b p (ps ++ [.name n]) = .ok (n :: q) := by
  have hlast := scan_last (r := r) hq hn
  induction b generalizing p ps with
  | zero =>
    cases hs : l.scan r p ps with
    | done x =>
      rw [walk_of_done hs,Except.ok.injEq] at h
      subst h
      exact walk_of_done (by rw [scan_append hr,hs]; exact hlast)
    | fail e => simp [walk_of_fail hs] at h
    | jump x t rest => simp [Layout.walk,hs] at h
  | succ b ih =>
    cases hs : l.scan r p ps with
    | done x =>
      rw [walk_of_done hs,Except.ok.injEq] at h
      subst h
      exact walk_of_done (by rw [scan_append hr,hs]; exact hlast)
    | fail e => simp [walk_of_fail hs] at h
    | jump x t rest =>
      have hsa : l.scan r p (ps ++ [.name n]) = .jump x t (rest ++ [.name n]) := by
        rw [scan_append hr,hs]
        rfl
      simp only [Layout.walk,hs,hsa] at h ⊢
      split
      · rename_i ha
        simp only [ha,if_true] at h
        split
        · rename_i hb
          simp [hb] at h
        · rename_i hb
          simp only [hb,if_false,Bool.false_eq_true] at h
          rw [← List.append_assoc]
          exact ih h
      · rename_i ha
        simp only [ha,if_false,Bool.false_eq_true] at h
        rw [← List.append_assoc]
        exact ih h

/-! ### More files do not change where a path leads -/

def Layout.Within (l l' : Layout ν) : Prop := ∀ p k, l.kind p = some k → l'.kind p = some k

theorem scan_mono {l' : Layout ν} (h : l.Within l') {p : Place ν} {ps : List (Part ν)}
    (hs : ∀ e, l.scan r p ps ≠ .fail e) : l'.scan r p ps = l.scan r p ps := by
  induction ps generalizing p with
  | nil => rfl
  | cons part ps ih =>
    rw [scan_cons] at hs
    rw [scan_cons,scan_cons]
    cases hk : l.kind p with
    | none =>
      rw [hk] at hs
      exact absurd rfl (hs .notFound)
    | some k =>
      rw [h p k hk]
      cases k with
      | leaf => rfl
      | link target => rfl
      | dir =>
        simp only [hk] at hs
        cases part with
        | here => exact ih hs
        | up =>
          cases p with
          | cons m p => exact ih hs
          | nil =>
            cases hb : r.beneath with
            | true => rfl
            | false =>
              simp only [hb,Bool.false_eq_true,if_false] at hs
              simpa only [hb,Bool.false_eq_true,if_false] using ih hs
        | name n =>
          simp only [Layout.enter] at hs ⊢
          cases hn : l.kind (n :: p) with
          | none =>
            rw [hn] at hs
            exact absurd rfl (hs .notFound)
          | some k =>
            rw [h _ k hn]
            cases k with
            | link target => rfl
            | dir =>
              simp only [hn] at hs
              exact ih hs
            | leaf =>
              simp only [hn] at hs
              exact ih hs

theorem walk_mono {l' : Layout ν} (h : l.Within l') {b : Nat} {p q : Place ν}
    {ps : List (Part ν)} (hw : l.walk r b p ps = .ok q) : l'.walk r b p ps = .ok q := by
  induction b generalizing p ps with
  | zero =>
    have hs : ∀ e, l.scan r p ps ≠ .fail e := by
      intro e he
      simp [walk_of_fail he] at hw
    simpa only [Layout.walk,scan_mono h hs] using hw
  | succ b ih =>
    have hs : ∀ e, l.scan r p ps ≠ .fail e := by
      intro e he
      simp [walk_of_fail he] at hw
    simp only [Layout.walk,scan_mono h hs] at hw ⊢
    cases hscan : l.scan r p ps with
    | done x => simpa only [hscan] using hw
    | fail e => exact absurd hscan (hs e)
    | jump x t rest =>
      simp only [hscan] at hw ⊢
      split at hw
      · next ha =>
        split at hw
        · cases hw
        · next hb =>
          rw [if_pos ha,if_neg hb]
          exact ih hw
      · next ha =>
        rw [if_neg ha]
        exact ih hw

/-! ### Paths through real directories -/

/-- The path that spells a place out from the root down. -/
def namesTo (p : Place ν) : List (Part ν) := p.reverse.map .name

theorem namesTo_cons (n : ν) (p : Place ν) : namesTo (n :: p) = namesTo p ++ [.name n] := by
  simp [namesTo]

theorem scan_namesTo (hr : r.follow = true) {p : Place ν} (hp : l.kind p = some .dir) :
    l.scan r [] (namesTo p) = .done p := by
  induction p with
  | nil => rfl
  | cons n p ih =>
    have hdir := l.parent_dir n p _ hp
    rw [namesTo_cons,scan_append hr,ih hdir]
    exact scan_last hdir (.inl hp)

/-- Down to a place that is missing, through real directories as far as they exist. -/
theorem scan_namesTo_absent (hr : r.follow = true) {p : Place ν} (hp : l.kind p = none)
    (hclear : ∀ q, q <:+ p → l.kind q = none ∨ l.kind q = some .dir) :
    l.scan r [] (namesTo p) = .fail .notFound := by
  induction p with
  | nil => simp [l.root_dir] at hp
  | cons n p ih =>
    rw [namesTo_cons,scan_append hr]
    rcases hclear p (List.suffix_cons n p) with hdir | hdir
    · rw [ih hdir (fun q hq => hclear q (hq.trans (List.suffix_cons n p)))]
      rfl
    · rw [scan_namesTo hr hdir]
      simp only [Scan.andThen,scan_name n [] hdir,Layout.enter,hp]

end PgEmbedSetup.Library
