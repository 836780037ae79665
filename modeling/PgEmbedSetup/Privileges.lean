import Mathlib.Data.List.Nodup
import Mathlib.Data.List.Forall2
import PgEmbedSetup.Library.PathWalk
import PgEmbedSetup.Library.Text

set_option autoImplicit false

/-!
`src/privileges.rs`: the recursive change of ownership that the root bootstrap runs over
the install and data directories before it hands them to `nobody`.
-/

namespace PgEmbedSetup.Privileges
open Library
open scoped List

abbrev Name := Bytes

inductive Node where
  | dir
  | file
  | symlink (target : Path Name)
  deriving DecidableEq, Repr

def Node.kind : Node → Kind Name
  | .dir => .dir
  | .file => .leaf
  | .symlink target => .link target

/-- The entries of a file system other than its root, in the order `readdir` gives them. -/
structure FileSystem where
  entries : List (Place Name × Node)
  nodup : (entries.map Prod.fst).Nodup
  closed : ∀ e ∈ entries, e.1 ≠ [] ∧ (e.1.tail = [] ∨ (e.1.tail,Node.dir) ∈ entries)

def FileSystem.node (fs : FileSystem) (p : Place Name) : Option Node :=
  if p = [] then some .dir else (fs.entries.find? (fun e => e.1 = p)).map Prod.snd

def childName (dir : Place Name) (p : Place Name) : Option Name :=
  match p with
  | [] => none
  | n :: parent => if parent = dir then some n else none

def FileSystem.readDir (fs : FileSystem) (dir : Place Name) : List Name :=
  fs.entries.filterMap (fun e => childName dir e.1)

theorem FileSystem.node_of_mem (fs : FileSystem) {p : Place Name} {node : Node}
    (h : (p,node) ∈ fs.entries) : fs.node p = some node := by
  have hne : p ≠ [] := (fs.closed _ h).1
  rw [FileSystem.node,if_neg hne]
  cases hf : fs.entries.find? (fun e => e.1 = p) with
  | none =>
    have := List.find?_eq_none.mp hf _ h
    simp at this
  | some e =>
    have hp : e.1 = p := by simpa using List.find?_some hf
    have he : e = (p,node) :=
      List.inj_on_of_nodup_map fs.nodup (List.mem_of_find?_eq_some hf) h hp
    simp [he]

theorem FileSystem.mem_of_node (fs : FileSystem) {p : Place Name} {node : Node} (hne : p ≠ [])
    (h : fs.node p = some node) : (p,node) ∈ fs.entries := by
  rw [FileSystem.node,if_neg hne] at h
  cases hf : fs.entries.find? (fun e => e.1 = p) with
  | none => simp [hf] at h
  | some e =>
    have hp : e.1 = p := by simpa using List.find?_some hf
    simp only [hf,Option.map_some,Option.some.injEq] at h
    have hmem := List.mem_of_find?_eq_some hf
    rwa [show e = (p,node) from Prod.ext hp h] at hmem

theorem FileSystem.node_parent (fs : FileSystem) {n : Name} {p : Place Name} {node : Node}
    (h : fs.node (n :: p) = some node) : fs.node p = some .dir := by
  rcases (fs.closed _ (fs.mem_of_node (by simp) h)).2 with hp | hp
  · simp only [List.tail_cons] at hp
    simp [FileSystem.node,hp]
  · exact fs.node_of_mem hp

def FileSystem.layout (fs : FileSystem) : Layout Name where
  kind p := (fs.node p).map Node.kind
  root_dir := rfl
  parent_dir n p k h := by
    cases hn : fs.node (n :: p) with
    | none => simp [hn] at h
    | some node => simp [fs.node_parent hn,Node.kind]

theorem FileSystem.mem_readDir (fs : FileSystem) {n : Name} {dir : Place Name} :
    n ∈ fs.readDir dir ↔ ∃ node, fs.node (n :: dir) = some node := by
  simp only [FileSystem.readDir,List.mem_filterMap]
  constructor
  · rintro ⟨⟨p,node⟩,hmem,hc⟩
    cases p with
    | nil => simp [childName] at hc
    | cons m parent =>
      simp only [childName,Option.ite_none_right_eq_some,Option.some.injEq] at hc
      obtain ⟨rfl,rfl⟩ := hc
      exact ⟨node,fs.node_of_mem hmem⟩
  · rintro ⟨node,h⟩
    exact ⟨(n :: dir,node),fs.mem_of_node (by simp) h,by simp [childName]⟩

theorem FileSystem.readDir_nodup (fs : FileSystem) (dir : Place Name) :
    (fs.readDir dir).Nodup := by
  have h : fs.readDir dir = (fs.entries.map Prod.fst).filterMap (childName dir) := by
    rw [List.filterMap_map]
    rfl
  rw [h]
  apply List.Nodup.filterMap _ fs.nodup
  intro p q n hp hq
  cases p with
  | nil => simp [childName] at hp
  | cons m p =>
    cases q with
    | nil => simp [childName] at hq
    | cons k q =>
      simp only [childName,Option.mem_def,Option.ite_none_right_eq_some,Option.some.injEq] at hp hq
      rw [hp.1,hp.2,hq.1,hq.2]

/-! ### The system calls -/

inductive Errno where
  | walk (e : WalkError)
  | other (code : Nat)
  deriving DecidableEq, Repr

inductive Call where
  | openDir (path : Path Name)
  | readDir (path : Path Name)
  | iterate (path : Path Name) (name : Name)
  | fileType (path : Path Name) (name : Name)
  | chown (path : Path Name)
  deriving DecidableEq, Repr

/-- What the walk runs on; `fault` makes single system calls fail. -/
structure Machine where
  fs : FileSystem
  cwd : Place Name
  cwd_dir : fs.node cwd = some .dir
  fault : Call → Option Errno

/-- Resolution that follows a link in the last place too, as `open` and `chown` do. -/
def followAll : WalkRules := ⟨true,false⟩

def Machine.locate (m : Machine) (path : Path Name) : Except Errno (Place Name) :=
  (m.fs.layout.resolve followAll m.cwd path).mapError .walk

/-- `Dir::open_ambient_dir`. -/
def Machine.openAmbientDir (m : Machine) (path : Path Name) : Except Errno (Place Name) :=
  match m.fault (.openDir path) with
  | some e => .error e
  | none =>
    match m.locate path with
    | .error e => .error e
    | .ok p => if m.fs.node p = some .dir then .ok p else .error (.walk .notDir)

/-- `chown(2)`: the place whose owner has changed. -/
def Machine.chown (m : Machine) (path : Path Name) : Except Errno (Place Name) :=
  match m.fault (.chown path) with
  | some e => .error e
  | none => m.locate path

/-! ### The walk -/

inductive PrivilegeError where
  | openDirectory (path : Path Name) (e : Errno)
  | readDir (path : Path Name) (e : Errno)
  | iterate (path : Path Name) (e : Errno)
  | nonUtf8 (path : Path Name)
  | chown (path : Path Name) (e : Errno)
  deriving DecidableEq, Repr

structure Progress where
  stack : List (Path Name)
  updated : Nat
  /-- The places whose owner has changed, the first one first. -/
  changed : List (Place Name)
  deriving DecidableEq, Repr

def openDirectoryIfExists (m : Machine) (path : Path Name) :
    Option (Except PrivilegeError (Place Name)) :=
  match m.openAmbientDir path with
  | .ok dir => some (.ok dir)
  | .error (.walk .notFound) => none
  | .error e => some (.error (.openDirectory path e))

def resolveEntryPath (path : Path Name) (name : Name) : Except PrivilegeError (Path Name) :=
  if (decodeUtf8 name).isSome then .ok (path.join name) else .error (.nonUtf8 path)

def chownEntry (m : Machine) (path : Path Name) : Except PrivilegeError (Place Name) :=
  (m.chown path).mapError (.chown path)

/-- The entry's own type: a link to a directory is no directory here. -/
def isDirectory (m : Machine) (path : Path Name) (dir : Place Name) (name : Name) : Bool :=
  (m.fault (.fileType path name)).isNone && m.fs.node (name :: dir) = some .dir

def visitEntries (m : Machine) (path : Path Name) (dir : Place Name) :
    List Name → Progress → Progress × Except PrivilegeError Unit
  | [], st => (st,.ok ())
  | name :: rest, st =>
    match m.fault (.iterate path name) with
    | some e => (st,.error (.iterate path e))
    | none =>
      match resolveEntryPath path name with
      | .error e => (st,.error e)
      | .ok entryPath =>
        match chownEntry m entryPath with
        | .error e => (st,.error e)
        | .ok place =>
          visitEntries m path dir rest
            { stack := if isDirectory m path dir name then entryPath :: st.stack else st.stack,
              updated := st.updated+1,
              changed := st.changed ++ [place] }

/-- The loop body, once `path` is off the stack. -/
def visitPath (m : Machine) (path : Path Name) (st : Progress) :
    Progress × Except PrivilegeError Unit :=
  match openDirectoryIfExists m path with
  | none => (st,.ok ())
  | some (.error e) => (st,.error e)
  | some (.ok dir) =>
    match m.fault (.readDir path) with
    | some e => (st,.error (.readDir path e))
    | none => visitEntries m path dir (m.fs.readDir dir) st

/-- `while let Some(path_buf) = stack.pop()`, for at most `fuel` turns. -/
def walkStack (m : Machine) : Nat → Progress → Option (Progress × Except PrivilegeError Unit)
  | fuel, st =>
    match st.stack, fuel with
    | [], _ => some (st,.ok ())
    | _ :: _, 0 => none
    | path :: stack, fuel+1 =>
      match visitPath m path { st with stack } with
      | (st,.error e) => some (st,.error e)
      | (st,.ok ()) => walkStack m fuel st

def ensureTreeOwnedByUser (m : Machine) (fuel : Nat) (root : Path Name) :
    Option (Progress × Except PrivilegeError Unit) :=
  walkStack m fuel ⟨[root],0,[]⟩

/-! ### Links are never what changes -/

def Settled (fs : FileSystem) (p : Place Name) : Prop :=
  fs.node p = some .dir ∨ fs.node p = some .file

theorem settled_of_kind {fs : FileSystem} {p : Place Name}
    (h : fs.layout.kind p = some .dir ∨ fs.layout.kind p = some .leaf) : Settled fs p := by
  simp only [FileSystem.layout,Option.map_eq_some_iff] at h
  rcases h with ⟨node,hn,hk⟩ | ⟨node,hn,hk⟩
  · cases node with
    | dir => exact .inl hn
    | file => simp [Node.kind] at hk
    | symlink target => simp [Node.kind] at hk
  · cases node with
    | dir => simp [Node.kind] at hk
    | file => exact .inr hn
    | symlink target => simp [Node.kind] at hk

theorem locate_settled {m : Machine} {path : Path Name} {p : Place Name}
    (h : m.locate path = .ok p) : Settled m.fs p := by
  cases hr : m.fs.layout.resolve followAll m.cwd path with
  | error e => simp [Machine.locate,hr,Except.mapError] at h
  | ok q =>
    simp only [Machine.locate,hr,Except.mapError,Except.ok.injEq] at h
    subst h
    apply settled_of_kind
    have hcwd : m.fs.layout.kind m.cwd = some .dir := by
      simp [FileSystem.layout,m.cwd_dir,Node.kind]
    cases ha : path.absolute with
    | true =>
      simp only [Layout.resolve,ha,if_true,followAll,Bool.false_eq_true,if_false] at hr
      exact walk_stop rfl m.fs.layout.root_dir hr
    | false =>
      simp only [Layout.resolve,ha,Bool.false_eq_true,if_false] at hr
      exact walk_stop rfl hcwd hr

theorem chown_settled {m : Machine} {path : Path Name} {p : Place Name}
    (h : m.chown path = .ok p) : Settled m.fs p := by
  simp only [Machine.chown] at h
  split at h
  · simp at h
  · exact locate_settled h

def ChangedSettled (m : Machine) (st : Progress) : Prop := ∀ p ∈ st.changed, Settled m.fs p

theorem visitEntries_settled {m : Machine} {path : Path Name} {dir : Place Name}
    {names : List Name} {st : Progress} (h : ChangedSettled m st) :
    ChangedSettled m (visitEntries m path dir names st).1 := by
  induction names generalizing st with
  | nil => exact h
  | cons name rest ih =>
    simp only [visitEntries,chownEntry]
    split
    · exact h
    · split
      · exact h
      · rename_i entryPath _
        cases hc : m.chown entryPath with
        | error e => exact h
        | ok place =>
          apply ih
          intro p hp
          rcases List.mem_append.mp hp with hp | hp
          · exact h p hp
          · rw [List.mem_singleton.mp hp]
            exact chown_settled hc

theorem visitPath_settled {m : Machine} {st : Progress} (path : Path Name)
    (h : ChangedSettled m st) : ChangedSettled m (visitPath m path st).1 := by
  simp only [visitPath]
  split
  · exact h
  · exact h
  · split
    · exact h
    · exact visitEntries_settled h

theorem walkStack_empty {m : Machine} {fuel : Nat} {st : Progress} (h : st.stack = []) :
    walkStack m fuel st = some (st,.ok ()) := walkStack.eq_1 m st fuel h

theorem walkStack_settled {m : Machine} {fuel : Nat} {st final : Progress}
    {result : Except PrivilegeError Unit} (h : ChangedSettled m st)
    (hrun : walkStack m fuel st = some (final,result)) : ChangedSettled m final := by
  induction fuel generalizing st with
  | zero =>
    cases hstack : st.stack with
    | nil =>
      simp only [walkStack_empty hstack,Option.some.injEq,Prod.mk.injEq] at hrun
      exact hrun.1 ▸ h
    | cons path stack => simp [walkStack.eq_2 m st path stack hstack] at hrun
  | succ fuel ih =>
    cases hstack : st.stack with
    | nil =>
      simp only [walkStack_empty hstack,Option.some.injEq,Prod.mk.injEq] at hrun
      exact hrun.1 ▸ h
    | cons path stack =>
      have htop : ChangedSettled m { st with stack } := h
      have hv := visitPath_settled path htop
      rw [walkStack.eq_3 m st path stack fuel hstack] at hrun
      split at hrun
      · rename_i st' e hs
        simp only [Option.some.injEq,Prod.mk.injEq] at hrun
        rw [hs] at hv
        exact hrun.1 ▸ hv
      · rename_i st' hs
        rw [hs] at hv
        exact ih hv hrun

/-! ### What lies below a directory -/

/-- Strictly below. -/
def Below (top p : Place Name) : Prop := top <:+ p ∧ p ≠ top

instance (top p : Place Name) : Decidable (Below top p) := inferInstanceAs (Decidable (_ ∧ _))

def FileSystem.below (fs : FileSystem) (top : Place Name) : List (Place Name) :=
  (fs.entries.map Prod.fst).filter (fun p => Below top p)

def FileSystem.children (fs : FileSystem) (dir : Place Name) : List (Place Name) :=
  (fs.readDir dir).map (fun n => n :: dir)

def FileSystem.childDirs (fs : FileSystem) (dir : Place Name) : List (Place Name) :=
  (fs.children dir).filter (fun p => fs.node p = some .dir)

theorem Below.ne_nil {top p : Place Name} (h : Below top p) : p ≠ [] := by
  rintro rfl
  exact h.2 (List.suffix_nil.mp h.1).symm

theorem below_cons {n : Name} {top p : Place Name} :
    Below top (n :: p) ↔ p = top ∨ Below top p := by
  constructor
  · rintro ⟨hs,hne⟩
    rcases List.suffix_cons_iff.mp hs with h | h
    · exact absurd h.symm hne
    · by_cases hp : p = top
      · exact .inl hp
      · exact .inr ⟨h,hp⟩
  · rintro (rfl | ⟨hs,hne⟩)
    · exact ⟨List.suffix_cons n p,by simp⟩
    · refine ⟨hs.trans (List.suffix_cons n p),?_⟩
      intro he
      have hl := hs.length_le
      rw [← he] at hl
      simp at hl

theorem Below.trans {a b c : Place Name} (hab : Below a b) (hbc : Below b c) : Below a c := by
  refine ⟨hab.1.trans hbc.1,?_⟩
  rintro rfl
  exact hab.2 (List.IsSuffix.eq_of_length_le hab.1 hbc.1.length_le).symm

theorem FileSystem.mem_below (fs : FileSystem) {top p : Place Name} :
    p ∈ fs.below top ↔ Below top p ∧ ∃ node, fs.node p = some node := by
  simp only [FileSystem.below,List.mem_filter,List.mem_map,Prod.exists,exists_and_right,
    exists_eq_right,decide_eq_true_eq]
  constructor
  · rintro ⟨⟨node,hmem⟩,hb⟩
    exact ⟨hb,node,fs.node_of_mem hmem⟩
  · rintro ⟨hb,node,hn⟩
    exact ⟨⟨node,fs.mem_of_node hb.ne_nil hn⟩,hb⟩

theorem FileSystem.below_nodup (fs : FileSystem) (top : Place Name) : (fs.below top).Nodup :=
  fs.nodup.filter _

theorem FileSystem.mem_children (fs : FileSystem) {dir p : Place Name} :
    p ∈ fs.children dir ↔ ∃ n node, p = n :: dir ∧ fs.node p = some node := by
  simp only [FileSystem.children,List.mem_map,fs.mem_readDir]
  constructor
  · rintro ⟨n,⟨node,hn⟩,rfl⟩
    exact ⟨n,node,rfl,hn⟩
  · rintro ⟨n,node,rfl,hn⟩
    exact ⟨n,⟨node,hn⟩,rfl⟩

/-- Whatever has something below it is a directory. -/
theorem FileSystem.dir_of_below (fs : FileSystem) {dir p : Place Name} {node : Node}
    (h : Below dir p) (hp : fs.node p = some node) : fs.node dir = some .dir := by
  induction p generalizing node with
  | nil => exact absurd rfl h.ne_nil
  | cons n p ih =>
    rcases below_cons.mp h with rfl | h
    · exact fs.node_parent hp
    · exact ih h (fs.node_parent hp)

/-- A place below a directory is one of its entries or lies below one. -/
theorem below_split {dir p : Place Name} (h : Below dir p) :
    ∃ n, p = n :: dir ∨ Below (n :: dir) p := by
  induction p with
  | nil => exact absurd rfl h.ne_nil
  | cons n p ih =>
    rcases below_cons.mp h with rfl | h
    · exact ⟨n,.inl rfl⟩
    · obtain ⟨k,hk⟩ := ih h
      exact ⟨k,.inr (below_cons.mpr (hk.imp (fun e => e) id))⟩

theorem below_child_unique {dir p : Place Name} {m n : Name} (hm : m :: dir <:+ p)
    (hn : n :: dir <:+ p) : m = n := by
  have h := List.suffix_of_suffix_length_le hm hn (by simp)
  have he := h.eq_of_length (by simp)
  exact (List.cons.inj he).1

theorem FileSystem.children_nodup (fs : FileSystem) (dir : Place Name) :
    (fs.children dir).Nodup :=
  (fs.readDir_nodup dir).map (fun _ _ h => (List.cons.inj h).1)

theorem FileSystem.below_perm (fs : FileSystem) (dir : Place Name) :
    (fs.below dir).Perm (fs.children dir ++ (fs.childDirs dir).flatMap fs.below) := by
  have hnodup : (fs.children dir ++ (fs.childDirs dir).flatMap fs.below).Nodup := by
    refine List.nodup_append.mpr ⟨fs.children_nodup dir,?_,?_⟩
    · refine List.nodup_flatMap.mpr ⟨fun d _ => fs.below_nodup d,?_⟩
      refine List.Pairwise.imp_of_mem ?_ ((fs.children_nodup dir).filter _)
      intro a b ha hb hab p hpa hpb
      obtain ⟨m,_,rfl,_⟩ := fs.mem_children.mp (List.mem_filter.mp ha).1
      obtain ⟨n,_,rfl,_⟩ := fs.mem_children.mp (List.mem_filter.mp hb).1
      have hmn := below_child_unique (fs.mem_below.mp hpa).1.1 (fs.mem_below.mp hpb).1.1
      exact hab (by rw [hmn])
    · intro a ha b hb hab
      obtain ⟨d,hd,hbelow⟩ := List.mem_flatMap.mp hb
      obtain ⟨m,_,rfl,_⟩ := fs.mem_children.mp ha
      obtain ⟨n,_,rfl,_⟩ := fs.mem_children.mp (List.mem_filter.mp hd).1
      subst hab
      have hlt := (fs.mem_below.mp hbelow).1
      exact hlt.2 (List.IsSuffix.eq_of_length hlt.1 (by simp)).symm
  refine (List.perm_ext_iff_of_nodup (fs.below_nodup dir) hnodup).mpr (fun p => ?_)
  simp only [List.mem_append,List.mem_flatMap]
  constructor
  · intro hp
    obtain ⟨hb,node,hn⟩ := fs.mem_below.mp hp
    obtain ⟨n,rfl | hsplit⟩ := below_split hb
    · exact .inl (fs.mem_children.mpr ⟨n,node,rfl,hn⟩)
    · have hdir := fs.dir_of_below hsplit hn
      refine .inr ⟨n :: dir,?_,fs.mem_below.mpr ⟨hsplit,node,hn⟩⟩
      exact List.mem_filter.mpr ⟨fs.mem_children.mpr ⟨n,_,rfl,hdir⟩,by simpa using hdir⟩
  · rintro (hp | ⟨d,hd,hp⟩)
    · obtain ⟨n,node,rfl,hn⟩ := fs.mem_children.mp hp
      exact fs.mem_below.mpr ⟨below_cons.mpr (.inl rfl),node,hn⟩
    · obtain ⟨n,_,rfl,_⟩ := fs.mem_children.mp (List.mem_filter.mp hd).1
      obtain ⟨hb,hex⟩ := fs.mem_below.mp hp
      exact fs.mem_below.mpr ⟨(below_cons.mpr (.inl rfl)).trans hb,hex⟩

/-! ### The walk over a tree without links -/

/-- `path` names the directory `dir`. -/
def Opens (m : Machine) (path : Path Name) (dir : Place Name) : Prop :=
  m.locate path = .ok dir ∧ m.fs.node dir = some .dir

theorem locate_join {m : Machine} {path : Path Name} {dir : Place Name} {n : Name}
    (h : Opens m path dir) (hn : Settled m.fs (n :: dir)) :
    m.locate (path.join n) = .ok (n :: dir) := by
  obtain ⟨hloc,hdir⟩ := h
  have hk : m.fs.layout.kind dir = some .dir := by simp [FileSystem.layout,hdir,Node.kind]
  have hkn : m.fs.layout.kind (n :: dir) = some .dir ∨
      m.fs.layout.kind (n :: dir) = some .leaf := by
    rcases hn with hn | hn
    · exact .inl (by simp [FileSystem.layout,hn,Node.kind])
    · exact .inr (by simp [FileSystem.layout,hn,Node.kind])
  cases hr : m.fs.layout.resolve followAll m.cwd path with
  | error e => simp [Machine.locate,hr,Except.mapError] at hloc
  | ok q =>
    simp only [Machine.locate,hr,Except.mapError,Except.ok.injEq] at hloc
    subst hloc
    have hjoin : m.fs.layout.resolve followAll m.cwd (path.join n) = .ok (n :: q) := by
      cases ha : path.absolute with
      | true =>
        simp only [Layout.resolve,Path.join,ha,if_true,followAll,Bool.false_eq_true,
          if_false] at hr ⊢
        exact walk_append_name rfl hr hk hkn
      | false =>
        simp only [Layout.resolve,Path.join,ha,Bool.false_eq_true,if_false] at hr ⊢
        exact walk_append_name rfl hr hk hkn
    simp [Machine.locate,hjoin,Except.mapError]

/-- The paths the walk pushes for the entries of one directory, the last one first. -/
def pushes (m : Machine) (path : Path Name) (dir : Place Name) (names : List Name) :
    List (Path Name) :=
  ((names.filter (fun n => m.fs.node (n :: dir) = some .dir)).map path.join).reverse

theorem pushes_cons (m : Machine) (path : Path Name) (dir : Place Name) (n : Name)
    (names : List Name) (stack : List (Path Name)) :
    pushes m path dir (n :: names) ++ stack = pushes m path dir names ++
      (if m.fs.node (n :: dir) = some .dir then path.join n :: stack else stack) := by
  by_cases h : m.fs.node (n :: dir) = some .dir <;> simp [pushes,h]

/-- No system call fails by itself. -/
def Reliable (m : Machine) : Prop := ∀ c, m.fault c = none

theorem visitEntries_plain {m : Machine} (hm : Reliable m) {path : Path Name} {dir : Place Name}
    (hopen : Opens m path dir) {names : List Name} (st : Progress)
    (hutf : ∀ n ∈ names, (decodeUtf8 n).isSome) (hset : ∀ n ∈ names, Settled m.fs (n :: dir)) :
    visitEntries m path dir names st = (⟨pushes m path dir names ++ st.stack,
      st.updated+names.length,st.changed ++ names.map (fun n => n :: dir)⟩,.ok ()) := by
  induction names generalizing st with
  | nil => simp [visitEntries,pushes]
  | cons n names ih =>
    have hloc := locate_join hopen (hset n (by simp))
    have hrest := ih
      { stack := if isDirectory m path dir n then path.join n :: st.stack else st.stack,
        updated := st.updated+1,
        changed := st.changed ++ [n :: dir] }
      (fun k hk => hutf k (by simp [hk])) (fun k hk => hset k (by simp [hk]))
    simp only [visitEntries,hm (.iterate path n),resolveEntryPath,hutf n (by simp),if_true,
      chownEntry,Machine.chown,hm (.chown (path.join n)),hloc,Except.mapError,hrest]
    rw [pushes_cons]
    simp only [isDirectory,hm (.fileType path n),Option.isNone_none,Bool.true_and,
      decide_eq_true_eq,Prod.mk.injEq,Progress.mk.injEq,List.length_cons,List.map_cons,
      List.append_assoc,List.singleton_append,and_true,true_and]
    omega

theorem openDirectory_plain {m : Machine} (hm : Reliable m) {path : Path Name} {dir : Place Name}
    (h : Opens m path dir) : openDirectoryIfExists m path = some (.ok dir) := by
  simp [openDirectoryIfExists,Machine.openAmbientDir,hm (.openDir path),h.1,h.2]

/-- The tree below `top` has only names the walk can print and no links. -/
structure Plain (fs : FileSystem) (top : Place Name) : Prop where
  utf8 : ∀ n p node, Below top (n :: p) → fs.node (n :: p) = some node → (decodeUtf8 n).isSome
  settled : ∀ p node, Below top p → fs.node p = some node → Settled fs p

theorem Plain.sub {fs : FileSystem} {top dir : Place Name} (h : Plain fs top)
    (hd : dir = top ∨ Below top dir) : Plain fs dir := by
  rcases hd with rfl | hd
  · exact h
  · exact ⟨fun n p node hb => h.utf8 n p node (hd.trans hb),
      fun p node hb => h.settled p node (hd.trans hb)⟩

/-- What the directories on the stack still have below them. -/
def pending (m : Machine) (dirs : List (Place Name)) : List (Place Name) :=
  dirs.flatMap m.fs.below

theorem visitPath_plain {m : Machine} (hm : Reliable m) {path : Path Name} {dir : Place Name}
    (hopen : Opens m path dir) (hplain : Plain m.fs dir) (st : Progress) :
    visitPath m path st = (⟨pushes m path dir (m.fs.readDir dir) ++ st.stack,
      st.updated+(m.fs.readDir dir).length,st.changed ++ m.fs.children dir⟩,.ok ()) := by
  have hchild : ∀ n ∈ m.fs.readDir dir, ∃ node, m.fs.node (n :: dir) = some node :=
    fun n hn => m.fs.mem_readDir.mp hn
  have hbelow : ∀ n, Below dir (n :: dir) := fun n => below_cons.mpr (.inl rfl)
  simp only [visitPath,openDirectory_plain hm hopen,hm (.readDir path)]
  refine visitEntries_plain hm hopen st (fun n hn => ?_) (fun n hn => ?_)
  · obtain ⟨node,hnode⟩ := hchild n hn
    exact hplain.utf8 n dir node (hbelow n) hnode
  · obtain ⟨node,hnode⟩ := hchild n hn
    exact hplain.settled _ node (hbelow n) hnode

/-- Each path of the stack names one of `dirs`, and these lie in a plain tree. -/
def StackNames (m : Machine) (stack : List (Path Name)) (dirs : List (Place Name)) : Prop :=
  List.Forall₂ (fun path dir => Opens m path dir ∧ Plain m.fs dir) stack dirs

theorem stackNames_pushes {m : Machine} {path : Path Name} {dir : Place Name}
    (hopen : Opens m path dir) (hplain : Plain m.fs dir) :
    StackNames m (pushes m path dir (m.fs.readDir dir)) (m.fs.childDirs dir).reverse := by
  have heq : m.fs.childDirs dir = ((m.fs.readDir dir).filter
      (fun n => m.fs.node (n :: dir) = some .dir)).map (fun n => n :: dir) := by
    simp only [FileSystem.childDirs,FileSystem.children,List.filter_map]
    rfl
  rw [StackNames,pushes,List.forall₂_reverse_iff,heq,List.forall₂_map_left_iff,
    List.forall₂_map_right_iff,List.forall₂_same]
  intro n hn
  have hdir : m.fs.node (n :: dir) = some .dir := by simpa using (List.mem_filter.mp hn).2
  exact ⟨⟨locate_join hopen (.inl hdir),hdir⟩,hplain.sub (.inr (below_cons.mpr (.inl rfl)))⟩

theorem pending_perm (m : Machine) (dir : Place Name) (dirs : List (Place Name)) :
    m.fs.children dir ++ pending m ((m.fs.childDirs dir).reverse ++ dirs) ~
      pending m (dir :: dirs) := by
  have hrev : pending m (m.fs.childDirs dir).reverse ~ pending m (m.fs.childDirs dir) :=
    (m.fs.childDirs dir).reverse_perm.flatMap_right _
  calc m.fs.children dir ++ pending m ((m.fs.childDirs dir).reverse ++ dirs)
      = m.fs.children dir ++ pending m (m.fs.childDirs dir).reverse ++ pending m dirs := by
        simp [pending]
    _ ~ m.fs.children dir ++ pending m (m.fs.childDirs dir) ++ pending m dirs :=
        (hrev.append_left _).append_right _
    _ ~ m.fs.below dir ++ pending m dirs := (m.fs.below_perm dir).symm.append_right _

/-- One turn pays for itself: it changes an entry for each directory it pushes. -/
theorem pending_turn (m : Machine) (dir : Place Name) (dirs : List (Place Name)) :
    ((m.fs.childDirs dir).reverse ++ dirs).length +
      (pending m ((m.fs.childDirs dir).reverse ++ dirs)).length <
    (dir :: dirs).length+(pending m (dir :: dirs)).length := by
  have hperm := (pending_perm m dir dirs).length_eq
  have hle : (m.fs.childDirs dir).length ≤ (m.fs.children dir).length :=
    List.length_filter_le _ _
  simp only [List.length_append,List.length_reverse,List.length_cons] at hperm ⊢
  omega

theorem walkStack_plain {m : Machine} (hm : Reliable m) {fuel : Nat} {st : Progress}
    {dirs : List (Place Name)} (hstack : StackNames m st.stack dirs)
    (hfuel : dirs.length+(pending m dirs).length ≤ fuel) :
    ∃ final, walkStack m fuel st = some (final,.ok ()) ∧
      final.changed ~ st.changed ++ pending m dirs := by
  induction fuel generalizing st dirs with
  | zero =>
    obtain rfl : dirs = [] := List.eq_nil_of_length_eq_zero (by omega)
    exact ⟨st,walkStack_empty (List.forall₂_nil_right_iff.mp hstack),by simp [pending]⟩
  | succ fuel ih =>
    cases dirs with
    | nil => exact ⟨st,walkStack_empty (List.forall₂_nil_right_iff.mp hstack),by simp [pending]⟩
    | cons dir dirs =>
      obtain ⟨path,stack,⟨hopen,hplain⟩,hrest,hcons⟩ := List.forall₂_cons_right_iff.mp hstack
      have hturn := visitPath_plain hm hopen hplain { st with stack }
      have hless := pending_turn m dir dirs
      have hnames : StackNames m (visitPath m path { st with stack }).1.stack
          ((m.fs.childDirs dir).reverse ++ dirs) := by
        rw [hturn]
        exact List.rel_append (stackNames_pushes hopen hplain) hrest
      obtain ⟨final,hrun,hchanged⟩ := ih hnames (by omega)
      refine ⟨final,?_,?_⟩
      · rw [walkStack.eq_3 m st path stack fuel hcons]
        rw [hturn] at hrun ⊢
        exact hrun
      · rw [hturn] at hchanged
        refine hchanged.trans ?_
        rw [List.append_assoc]
        exact (pending_perm m dir dirs).append_left _

/-! ### The walk over any tree -/

/-- What a directory's entries add when all of them go through. -/
structure Visited (m : Machine) (path : Path Name) (dir : Place Name) (names : List Name)
    (st st' : Progress) : Prop where
  stack : st'.stack = pushes m path dir names ++ st.stack
  kept : ∀ p ∈ st.changed, p ∈ st'.changed
  settled : ∀ n ∈ names, Settled m.fs (n :: dir) → n :: dir ∈ st'.changed
  only : (∀ n ∈ names, Settled m.fs (n :: dir)) →
    ∀ p ∈ st'.changed, p ∈ st.changed ∨ ∃ n ∈ names, p = n :: dir

theorem visitEntries_ok {m : Machine} (hm : Reliable m) {path : Path Name} {dir : Place Name}
    (hopen : Opens m path dir) {names : List Name} {st st' : Progress}
    (h : visitEntries m path dir names st = (st',.ok ())) : Visited m path dir names st st' := by
  induction names generalizing st with
  | nil =>
    obtain rfl : st = st' := congrArg Prod.fst h
    exact ⟨by simp [pushes],fun _ hp => hp,by simp,fun _ p hp => .inl hp⟩
  | cons n names ih =>
    simp only [visitEntries,hm (.iterate path n)] at h
    split at h
    · cases congrArg Prod.snd h
    · rename_i entryPath hentry
      cases hchown : chownEntry m entryPath with
      | error e =>
        rw [hchown] at h
        cases congrArg Prod.snd h
      | ok place =>
        rw [hchown] at h
        have hrest := ih h
        have hpath : entryPath = path.join n := by
          rw [resolveEntryPath] at hentry
          split at hentry
          · exact (Except.ok.inj hentry).symm
          · cases hentry
        have hplace : Settled m.fs (n :: dir) → place = n :: dir := by
          intro hset
          rw [hpath,chownEntry,Machine.chown,hm (.chown (path.join n)),
            locate_join hopen hset] at hchown
          exact (Except.ok.inj hchown).symm
        refine ⟨?_,fun p hp => hrest.kept p (List.mem_append_left _ hp),?_,?_⟩
        · rw [hrest.stack,pushes_cons,hpath]
          simp only [isDirectory,hm (.fileType path n),Option.isNone_none,Bool.true_and,
            decide_eq_true_eq]
        · intro k hk hset
          rcases List.mem_cons.mp hk with rfl | hk
          · exact hrest.kept _ (by simp [hplace hset])
          · exact hrest.settled k hk hset
        · intro hset p hp
          rcases hrest.only (fun k hk => hset k (List.mem_cons_of_mem _ hk)) p hp with hp | hp
          · rcases List.mem_append.mp hp with hp | hp
            · exact .inl hp
            · rw [List.mem_singleton.mp hp,hplace (hset n (List.mem_cons_self ..))]
              exact .inr ⟨n,List.mem_cons_self ..,rfl⟩
          · obtain ⟨k,hk,rfl⟩ := hp
            exact .inr ⟨k,List.mem_cons_of_mem _ hk,rfl⟩

theorem visitPath_ok {m : Machine} (hm : Reliable m) {path : Path Name} {dir : Place Name}
    (hopen : Opens m path dir) {st st' : Progress} (h : visitPath m path st = (st',.ok ())) :
    Visited m path dir (m.fs.readDir dir) st st' := by
  simp only [visitPath,openDirectory_plain hm hopen,hm (.readDir path)] at h
  exact visitEntries_ok hm hopen h

/-- Each path of the stack opens one of `dirs`. -/
def StackOpens (m : Machine) (stack : List (Path Name)) (dirs : List (Place Name)) : Prop :=
  List.Forall₂ (Opens m) stack dirs

theorem stackOpens_pushes {m : Machine} {path : Path Name} {dir : Place Name}
    (hopen : Opens m path dir) :
    StackOpens m (pushes m path dir (m.fs.readDir dir)) (m.fs.childDirs dir).reverse := by
  have heq : m.fs.childDirs dir = ((m.fs.readDir dir).filter
      (fun n => m.fs.node (n :: dir) = some .dir)).map (fun n => n :: dir) := by
    simp only [FileSystem.childDirs,FileSystem.children,List.filter_map]
    rfl
  rw [StackOpens,pushes,List.forall₂_reverse_iff,heq,List.forall₂_map_left_iff,
    List.forall₂_map_right_iff,List.forall₂_same]
  intro n hn
  have hdir : m.fs.node (n :: dir) = some .dir := by simpa using (List.mem_filter.mp hn).2
  exact ⟨locate_join hopen (.inl hdir),hdir⟩

/-- Below a directory are its entries and what is below its directories. -/
theorem below_childDirs {m : Machine} {dir q : Place Name} {node : Node} (h : Below dir q)
    (hq : m.fs.node q = some node) :
    q ∈ m.fs.children dir ∨ ∃ d ∈ m.fs.childDirs dir, Below d q := by
  obtain ⟨n,rfl | hsplit⟩ := below_split h
  · exact .inl (m.fs.mem_children.mpr ⟨n,node,rfl,hq⟩)
  · have hdir := m.fs.dir_of_below hsplit hq
    refine .inr ⟨n :: dir,List.mem_filter.mpr ⟨?_,by simpa using hdir⟩,hsplit⟩
    exact m.fs.mem_children.mpr ⟨n,_,rfl,hdir⟩

theorem childDirs_below {m : Machine} {dir d : Place Name} (h : d ∈ m.fs.childDirs dir) :
    Below dir d := by
  obtain ⟨n,_,rfl,_⟩ := m.fs.mem_children.mp (List.mem_filter.mp h).1
  exact below_cons.mpr (.inl rfl)

/-- A walk that goes through has changed everything below but links, and nothing else where
there are no links. -/
structure Walked (m : Machine) (dirs : List (Place Name)) (st final : Progress) : Prop where
  kept : ∀ p ∈ st.changed, p ∈ final.changed
  settled : ∀ d ∈ dirs, ∀ q, Below d q → Settled m.fs q → q ∈ final.changed
  only : (∀ d ∈ dirs, ∀ q node, Below d q → m.fs.node q = some node → Settled m.fs q) →
    ∀ p ∈ final.changed, p ∈ st.changed ∨ ∃ d ∈ dirs, Below d p

theorem Walked.turn {m : Machine} {path : Path Name} {dir : Place Name} {dirs : List (Place Name)}
    {st st' final : Progress} (hv : Visited m path dir (m.fs.readDir dir) st st')
    (hw : Walked m ((m.fs.childDirs dir).reverse ++ dirs) st' final) :
    Walked m (dir :: dirs) st final := by
  refine ⟨fun p hp => hw.kept p (hv.kept p hp),?_,?_⟩
  · intro d hd q hb hq
    rcases List.mem_cons.mp hd with rfl | hd
    · obtain ⟨node,hnode⟩ : ∃ node, m.fs.node q = some node := hq.elim (⟨_,·⟩) (⟨_,·⟩)
      rcases below_childDirs hb hnode with hchild | ⟨c,hc,hcb⟩
      · obtain ⟨n,_,rfl,_⟩ := m.fs.mem_children.mp hchild
        exact hw.kept _ (hv.settled n (m.fs.mem_readDir.mpr ⟨node,hnode⟩) hq)
      · exact hw.settled c (List.mem_append_left _ (List.mem_reverse.mpr hc)) q hcb hq
    · exact hw.settled d (List.mem_append_right _ hd) q hb hq
  · intro hset p hp
    have hset' : ∀ d ∈ (m.fs.childDirs dir).reverse ++ dirs, ∀ q node, Below d q →
        m.fs.node q = some node → Settled m.fs q := by
      intro d hd q node hb hq
      rcases List.mem_append.mp hd with hd | hd
      · have hd' := childDirs_below (List.mem_reverse.mp hd)
        exact hset dir (List.mem_cons_self ..) q node (hd'.trans hb) hq
      · exact hset d (List.mem_cons_of_mem _ hd) q node hb hq
    rcases hw.only hset' p hp with hp | ⟨d,hd,hb⟩
    · have hnames : ∀ n ∈ m.fs.readDir dir, Settled m.fs (n :: dir) := by
        intro n hn
        obtain ⟨node,hnode⟩ := m.fs.mem_readDir.mp hn
        exact hset dir (List.mem_cons_self ..) _ node (below_cons.mpr (.inl rfl)) hnode
      rcases hv.only hnames p hp with hp | ⟨n,-,rfl⟩
      · exact .inl hp
      · exact .inr ⟨dir,List.mem_cons_self ..,below_cons.mpr (.inl rfl)⟩
    · rcases List.mem_append.mp hd with hd | hd
      · have hd' := childDirs_below (List.mem_reverse.mp hd)
        exact .inr ⟨dir,List.mem_cons_self ..,hd'.trans hb⟩
      · exact .inr ⟨d,List.mem_cons_of_mem _ hd,hb⟩

theorem walkStack_ok_empty {m : Machine} {fuel : Nat} {st final : Progress}
    {dirs : List (Place Name)} (hempty : st.stack = []) (hstack : StackOpens m st.stack dirs)
    (hrun : walkStack m fuel st = some (final,.ok ())) : Walked m dirs st final := by
  rw [hempty] at hstack
  rw [walkStack_empty hempty,Option.some.injEq,Prod.mk.injEq] at hrun
  obtain rfl : dirs = [] := List.forall₂_nil_left_iff.mp hstack
  exact hrun.1 ▸ ⟨fun _ hp => hp,by simp,fun _ p hp => .inl hp⟩

theorem walkStack_ok {m : Machine} (hm : Reliable m) {fuel : Nat} {st final : Progress}
    {dirs : List (Place Name)} (hstack : StackOpens m st.stack dirs)
    (hrun : walkStack m fuel st = some (final,.ok ())) : Walked m dirs st final := by
  induction fuel generalizing st dirs with
  | zero =>
    cases hcons : st.stack with
    | nil => exact walkStack_ok_empty hcons hstack hrun
    | cons path stack => simp [walkStack.eq_2 m st path stack hcons] at hrun
  | succ fuel ih =>
    cases hcons : st.stack with
    | nil => exact walkStack_ok_empty hcons hstack hrun
    | cons path stack =>
      rw [hcons] at hstack
      obtain ⟨dir,rest,hopen,hrest,rfl⟩ := List.forall₂_cons_left_iff.mp hstack
      rw [walkStack.eq_3 m st path stack fuel hcons] at hrun
      split at hrun
      · cases congrArg (fun r => (r.map Prod.snd)) hrun
      · rename_i st' hvisit
        have hv := visitPath_ok hm hopen hvisit
        have hstack' : StackOpens m st'.stack ((m.fs.childDirs dir).reverse ++ rest) := by
          rw [hv.stack]
          exact List.rel_append (stackOpens_pushes hopen) hrest
        have hw := Walked.turn hv (ih hstack' hrun)
        exact ⟨hw.kept,hw.settled,hw.only⟩

/-- Every directory is opened once, so this many turns are enough. -/
theorem walkStack_ends {m : Machine} (hm : Reliable m) {fuel : Nat} {st : Progress}
    {dirs : List (Place Name)} (hstack : StackOpens m st.stack dirs)
    (hfuel : dirs.length+(pending m dirs).length ≤ fuel) : ∃ r, walkStack m fuel st = some r := by
  induction fuel generalizing st dirs with
  | zero =>
    obtain rfl : dirs = [] := List.eq_nil_of_length_eq_zero (by omega)
    exact ⟨_,walkStack_empty (List.forall₂_nil_right_iff.mp hstack)⟩
  | succ fuel ih =>
    cases hcons : st.stack with
    | nil => exact ⟨_,walkStack_empty hcons⟩
    | cons path stack =>
      rw [hcons] at hstack
      obtain ⟨dir,rest,hopen,hrest,rfl⟩ := List.forall₂_cons_left_iff.mp hstack
      rw [walkStack.eq_3 m st path stack fuel hcons]
      split
      · exact ⟨_,rfl⟩
      · rename_i st' hvisit
        have hv := visitPath_ok hm hopen hvisit
        have hless := pending_turn m dir rest
        have hstack' : StackOpens m st'.stack ((m.fs.childDirs dir).reverse ++ rest) := by
          rw [hv.stack]
          exact List.rel_append (stackOpens_pushes hopen) hrest
        exact ih hstack' (by omega)

/-- The walk ends well and has changed the owner of each place below `top` once, and of
no other place. -/
def OwnsExactly (m : Machine) (root : Path Name) (top : Place Name) : Prop :=
  ∃ fuel final, ensureTreeOwnedByUser m fuel root = some (final,.ok ()) ∧ final.changed.Nodup ∧
    ∀ p, p ∈ final.changed ↔ Below top p ∧ ∃ node, m.fs.node p = some node

theorem ownsExactly_of_plain {m : Machine} (hm : Reliable m) {root : Path Name}
    {top : Place Name} (hopen : Opens m root top) (hplain : Plain m.fs top) :
    OwnsExactly m root top := by
  have hstack : StackNames m (Progress.stack ⟨[root],0,[]⟩) [top] :=
    .cons ⟨hopen,hplain⟩ .nil
  obtain ⟨final,hrun,hperm⟩ := walkStack_plain hm hstack le_rfl
  have hbelow : final.changed ~ m.fs.below top := by simpa [pending] using hperm
  exact ⟨_,final,hrun,hbelow.nodup_iff.mpr (m.fs.below_nodup top),
    fun p => hbelow.mem_iff.trans m.fs.mem_below⟩

theorem not_link_of_ownsExactly {m : Machine} {root : Path Name} {top p : Place Name}
    {target : Path Name} (h : OwnsExactly m root top) (hb : Below top p) :
    m.fs.node p ≠ some (.symlink target) := by
  intro hlink
  obtain ⟨fuel,final,hrun,-,hmem⟩ := h
  have hsettled : ChangedSettled m final :=
    walkStack_settled (fun q hq => absurd hq (by simp)) hrun
  rcases hsettled p ((hmem p).mpr ⟨hb,_,hlink⟩) with h | h
  · rw [hlink] at h
    simp at h
  · rw [hlink] at h
    simp at h

/-- Exactly the trees without a symbolic link are handed over as the documentation says:
`chown` follows a link, so the link keeps its owner and what it points to changes. -/
theorem ensureTreeOwnedByUser_iff (m : Machine) (hm : Reliable m) (root : Path Name)
    (top : Place Name) (hroot : m.locate root = .ok top) (htop : m.fs.node top = some .dir)
    (hutf8 : ∀ n p node, Below top (n :: p) → m.fs.node (n :: p) = some node →
      (decodeUtf8 n).isSome) :
    OwnsExactly m root top ↔
      ∀ p target, Below top p → m.fs.node p ≠ some (.symlink target) := by
  constructor
  · intro h p target hb
    exact not_link_of_ownsExactly h hb
  · intro hlinks
    refine ownsExactly_of_plain hm ⟨hroot,htop⟩ ⟨hutf8,fun p node hb hn => ?_⟩
    cases node with
    | dir => exact .inl hn
    | file => exact .inr hn
    | symlink target => exact absurd hn (hlinks p target hb)

def installPlace : Place Name := [ascii "install"]

def installRoot : Path Name := ⟨true,[.name (ascii "install")]⟩

def passwdPlace : Place Name := [ascii "passwd",ascii "etc"]

/-- An install tree `/install/bin/postgres` next to `/etc/passwd`. -/
def plainFiles : FileSystem where
  entries := [(installPlace,.dir),(ascii "bin" :: installPlace,.dir),
    (ascii "postgres" :: ascii "bin" :: installPlace,.file),([ascii "etc"],.dir),
    (passwdPlace,.file)]
  nodup := by decide
  closed := by decide

/-- The same machine once the user has put a link to `/etc/passwd` into the tree. -/
def linkedFiles : FileSystem where
  entries := [(installPlace,.dir),
    (ascii "link" :: installPlace,.symlink ⟨true,[.name (ascii "etc"),.name (ascii "passwd")]⟩),
    ([ascii "etc"],.dir),(passwdPlace,.file)]
  nodup := by decide
  closed := by decide

def machineWith (fs : FileSystem) : Machine := ⟨fs,[],rfl,fun _ => none⟩

theorem ensureTreeOwnedByUser_iff_plain :
    OwnsExactly (machineWith plainFiles) installRoot installPlace := by
  have hforall : ∀ e ∈ plainFiles.entries,
      (∀ n ∈ e.1, (decodeUtf8 n).isSome) ∧ (e.2 = .dir ∨ e.2 = .file) := by decide
  refine (ensureTreeOwnedByUser_iff (machineWith plainFiles) (fun _ => rfl) installRoot
    installPlace (by decide) (by decide) ?_).mpr ?_
  · intro n p node hb hn
    exact (hforall _ (plainFiles.mem_of_node (by simp) hn)).1 n (by simp)
  · intro p target hb hn
    have h := (hforall _ (plainFiles.mem_of_node hb.ne_nil hn)).2
    simp at h

/-- The walk over the linked tree ends well after handing `/etc/passwd` to the user. -/
theorem ensureTreeOwnedByUser_follows_link :
    (machineWith linkedFiles).locate installRoot = .ok installPlace ∧
      linkedFiles.node installPlace = some .dir ∧
      ensureTreeOwnedByUser (machineWith linkedFiles) 1 installRoot =
        some (⟨[],1,[passwdPlace]⟩,.ok ()) ∧
      ¬ OwnsExactly (machineWith linkedFiles) installRoot installPlace := by
  refine ⟨by decide,by decide,by decide,fun h => ?_⟩
  exact not_link_of_ownsExactly (p := ascii "link" :: installPlace) h (by decide) rfl

end PgEmbedSetup.Privileges
