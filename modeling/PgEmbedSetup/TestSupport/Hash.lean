import Mathlib.Data.List.Lex
import Mathlib.Data.List.Sort
import Mathlib.Data.Char
import PgEmbedSetup.Library.Text

set_option autoImplicit false

/-!
`src/test_support/hash.rs`: what is hashed of a directory, and which directories are told apart
by it.
-/

namespace PgEmbedSetup.TestSupport
open Library

/-- The entries of a directory in the order in which they are listed. -/
inductive Listing where
  | nil
  | file (name : Text) (contents : Bytes) (rest : Listing)
  | dir (name : Text) (entries : Listing) (rest : Listing)
  /-- A symbolic link or a special file. -/
  | other (name : Text) (rest : Listing)
  deriving DecidableEq

/-! ### What is hashed -/

/-- `Path::join` on a relative path. -/
def joinRelative (relative name : Text) : Text :=
  if relative.isEmpty then name else relative ++ '/' :: name

/-- `sort_by_key` on the names. -/
def sortByName (chunks : List (Text × Bytes)) : List (Text × Bytes) :=
  chunks.insertionSort (fun a b => a.1 ≤ b.1)

/-- The bytes that are fed for each entry, by its name. -/
def Listing.chunks (relative : Text) : Listing → List (Text × Bytes)
  | .nil => []
  | .file name contents rest =>
    (name,encodeUtf8 (joinRelative relative name)++contents) :: rest.chunks relative
  | .dir name entries rest =>
    (name,encodeUtf8 (joinRelative relative name)++
      (sortByName (entries.chunks (joinRelative relative name))).flatMap (·.2)) ::
      rest.chunks relative
  | .other name rest => (name,encodeUtf8 (joinRelative relative name)) :: rest.chunks relative

/-- `hash_directory_recursive`: the bytes that reach the hasher. -/
def hashDirectoryRecursive (relative : Text) (entries : Listing) : Bytes :=
  (sortByName (entries.chunks relative)).flatMap (·.2)

def hashInput (entries : Listing) : Bytes := hashDirectoryRecursive [] entries

def lowerHexDigit (nibble : Nat) : Char :=
  if nibble < 10 then Char.ofNat ('0'.toNat+nibble) else Char.ofNat ('a'.toNat+nibble-10)

def hashDirectory (sha256 : Bytes → Bytes) (entries : Listing) : Text :=
  (sha256 (hashInput entries)).flatMap fun byte =>
    [lowerHexDigit (byte.toNat/16),lowerHexDigit (byte.toNat%16)]

/-! ### Trees of files and directories -/

/-- What a file system takes as the name of an entry. -/
def ValidName (name : Text) : Prop :=
  name ≠ [] ∧ '/' ∉ name ∧ Char.ofNat 0 ∉ name ∧ name ≠ ['.'] ∧ name ≠ ['.','.']

def Listing.names : Listing → List Text
  | .nil => []
  | .file name _ rest | .dir name _ rest | .other name rest => name :: rest.names

/-- Files and directories only, with different names that are valid. -/
def Listing.WellFormed : Listing → Prop
  | .nil => True
  | .file name _ rest => ValidName name ∧ name ∉ rest.names ∧ rest.WellFormed
  | .dir name entries rest =>
    ValidName name ∧ name ∉ rest.names ∧ entries.WellFormed ∧ rest.WellFormed
  | .other _ _ => False

/-- What is at a path: a file with its contents, or a directory. -/
inductive At where
  | file (contents : Bytes)
  | dir
  deriving DecidableEq

/-- The paths below, with what is there. -/
def Listing.nodes : Listing → List (List Text × At)
  | .nil => []
  | .file name contents rest => ([name],.file contents) :: rest.nodes
  | .dir name entries rest =>
    ([name],.dir) :: (entries.nodes.map fun node => (name :: node.1,node.2))++rest.nodes
  | .other _ rest => rest.nodes

/-- The same paths of files and directories, and the same contents. -/
def SameTree (entries entries' : Listing) : Prop :=
  ∀ node, node ∈ entries.nodes ↔ node ∈ entries'.nodes

/-- `entries'` is no other tree, whatever the order in which it is listed, if and only if the
same bytes are hashed of it. -/
def HashTells (entries : Listing) : Prop :=
  ∀ entries', entries'.WellFormed →
    (hashInput entries' = hashInput entries ↔ SameTree entries' entries)

/-- Nothing at all, or one file with contents, whose name alone is a valid name in front and
after whose name no later name follows. -/
def Distinctive (entries : Listing) : Prop :=
  entries = .nil ∨ ∃ name contents, entries = .file name contents .nil ∧ contents ≠ [] ∧
    (∀ other, ValidName other → encodeUtf8 other <+: encodeUtf8 name++contents → other = name) ∧
    ∀ other, ValidName other → name < other → ¬ encodeUtf8 other <:+: contents

/-! ### The order of a listing -/

instance sortOrder_total : Std.Total (fun a b : Text × Bytes => a.1 ≤ b.1) :=
  ⟨fun a b => le_total a.1 b.1⟩

instance sortOrder_trans : IsTrans (Text × Bytes) (fun a b => a.1 ≤ b.1) :=
  ⟨fun _ _ _ h h' => le_trans h h'⟩

theorem sortByName_perm (chunks : List (Text × Bytes)) : (sortByName chunks).Perm chunks :=
  List.perm_insertionSort _ chunks

/-- With different names there is one order. -/
theorem sortByName_eq_of_perm {chunks chunks' : List (Text × Bytes)}
    (hnames : (chunks.map (·.1)).Nodup) (h : chunks.Perm chunks') :
    sortByName chunks = sortByName chunks' := by
  refine List.Perm.eq_of_pairwise ?_ (List.pairwise_insertionSort _ chunks)
    (List.pairwise_insertionSort _ chunks')
    ((sortByName_perm chunks).trans (h.trans (sortByName_perm chunks').symm))
  intro a b ha hb hab hba
  have ha' := (sortByName_perm chunks).mem_iff.mp ha
  have hb' := h.mem_iff.mpr ((sortByName_perm chunks').mem_iff.mp hb)
  exact List.inj_on_of_nodup_map hnames ha' hb' (le_antisymm hab hba)

theorem names_chunks (relative : Text) (entries : Listing) :
    (entries.chunks relative).map (·.1) = entries.names := by
  induction entries with
  | nil => rfl
  | file name contents rest ih => exact congrArg (name :: ·) ih
  | dir name sub rest _ ih => exact congrArg (name :: ·) ih
  | other name rest ih => exact congrArg (name :: ·) ih

theorem Listing.WellFormed.nodup {entries : Listing} (h : entries.WellFormed) :
    entries.names.Nodup := by
  induction entries with
  | nil => exact List.nodup_nil
  | file name contents rest ih => exact List.nodup_cons.mpr ⟨h.2.1,ih h.2.2⟩
  | dir name sub rest _ ih => exact List.nodup_cons.mpr ⟨h.2.1,ih h.2.2.2⟩
  | other name rest => exact h.elim

/-- A path begins with the name of an entry. -/
theorem node_name {entries : Listing} {node : List Text × At} (h : node ∈ entries.nodes) :
    ∃ name ∈ entries.names, ∃ path, node.1 = name :: path := by
  induction entries with
  | nil => cases h
  | file name contents rest ih =>
    rcases List.mem_cons.mp h with rfl | h
    · exact ⟨name,List.mem_cons_self,[],rfl⟩
    · obtain ⟨n,hn,path,hpath⟩ := ih h
      exact ⟨n,List.mem_cons_of_mem _ hn,path,hpath⟩
  | dir name sub rest _ ih =>
    rcases List.mem_cons.mp h with rfl | h
    · exact ⟨name,List.mem_cons_self,[],rfl⟩
    · rcases List.mem_append.mp h with h | h
      · obtain ⟨below,-,rfl⟩ := List.mem_map.mp h
        exact ⟨name,List.mem_cons_self,below.1,rfl⟩
      · obtain ⟨n,hn,path,hpath⟩ := ih h
        exact ⟨n,List.mem_cons_of_mem _ hn,path,hpath⟩
  | other name rest ih =>
    obtain ⟨n,hn,path,hpath⟩ := ih h
    exact ⟨n,List.mem_cons_of_mem _ hn,path,hpath⟩

theorem not_mem_nodes {entries : Listing} {name : Text} (h : name ∉ entries.names)
    (path : List Text) (x : At) : (name :: path,x) ∉ entries.nodes := by
  intro hmem
  obtain ⟨n,hn,rest,hpath⟩ := node_name hmem
  cases hpath
  exact h hn

theorem nil_not_mem_nodes {entries : Listing} (x : At) : ([],x) ∉ entries.nodes := by
  intro hmem
  obtain ⟨n,-,rest,hpath⟩ := node_name hmem
  cases hpath

/-- One entry of a listing. -/
inductive Item where
  | file (contents : Bytes)
  | dir (entries : Listing)

def Item.bytes (relative name : Text) : Item → Bytes
  | .file contents => encodeUtf8 (joinRelative relative name)++contents
  | .dir entries => encodeUtf8 (joinRelative relative name)++
      hashDirectoryRecursive (joinRelative relative name) entries

def Item.nodes (name : Text) : Item → List (List Text × At)
  | .file contents => [([name],.file contents)]
  | .dir entries => ([name],.dir) :: entries.nodes.map fun node => (name :: node.1,node.2)

def Item.WellFormed : Item → Prop
  | .file _ => True
  | .dir entries => entries.WellFormed

/-- The listing is that of `rest` with one more entry somewhere. -/
structure Splits (entries : Listing) (name : Text) (item : Item) (rest : Listing) : Prop where
  item_wellFormed : item.WellFormed
  rest_wellFormed : rest.WellFormed
  fresh : name ∉ rest.names
  names : ∀ n, n ∈ entries.names ↔ n = name ∨ n ∈ rest.names
  chunks : ∀ relative, (entries.chunks relative).Perm
    ((name,item.bytes relative name) :: rest.chunks relative)
  nodes : ∀ node, node ∈ entries.nodes ↔ node ∈ item.nodes name ∨ node ∈ rest.nodes

theorem splits_file {name : Text} {contents : Bytes} {rest : Listing}
    (h : (Listing.file name contents rest).WellFormed) :
    Splits (.file name contents rest) name (.file contents) rest where
  item_wellFormed := trivial
  rest_wellFormed := h.2.2
  fresh := h.2.1
  names _ := List.mem_cons
  chunks _ := .refl _
  nodes _ := by simp [Listing.nodes,Item.nodes]

theorem splits_dir {name : Text} {sub rest : Listing}
    (h : (Listing.dir name sub rest).WellFormed) :
    Splits (.dir name sub rest) name (.dir sub) rest where
  item_wellFormed := h.2.2.1
  rest_wellFormed := h.2.2.2
  fresh := h.2.1
  names _ := List.mem_cons
  chunks _ := .refl _
  nodes _ := by simp [Listing.nodes,Item.nodes,or_assoc]

theorem exists_splits {entries : Listing} (hwf : entries.WellFormed) {name : Text}
    (h : name ∈ entries.names) : ∃ item rest, Splits entries name item rest := by
  induction entries with
  | nil => cases h
  | other => exact hwf.elim
  | file first contents others ih =>
    by_cases hfirst : name = first
    · subst hfirst
      exact ⟨_,_,splits_file hwf⟩
    · obtain ⟨item,rest,hsplits⟩ := ih hwf.2.2 ((List.mem_cons.mp h).resolve_left hfirst)
      refine ⟨item,.file first contents rest,hsplits.item_wellFormed,
        ⟨hwf.1,fun hmem => hwf.2.1 ((hsplits.names first).mpr (.inr hmem)),
          hsplits.rest_wellFormed⟩,?_,?_,?_,?_⟩
      · exact fun hmem => (List.mem_cons.mp hmem).elim hfirst hsplits.fresh
      · intro n
        simp only [Listing.names,List.mem_cons,hsplits.names]
        exact or_left_comm
      · exact fun relative => ((hsplits.chunks relative).cons _).trans (.swap _ _ _)
      · intro node
        simp only [Listing.nodes,List.mem_cons,hsplits.nodes]
        exact or_left_comm
  | dir first sub others _ ih =>
    by_cases hfirst : name = first
    · subst hfirst
      exact ⟨_,_,splits_dir hwf⟩
    · obtain ⟨item,rest,hsplits⟩ := ih hwf.2.2.2 ((List.mem_cons.mp h).resolve_left hfirst)
      refine ⟨item,.dir first sub rest,hsplits.item_wellFormed,
        ⟨hwf.1,fun hmem => hwf.2.1 ((hsplits.names first).mpr (.inr hmem)),hwf.2.2.1,
          hsplits.rest_wellFormed⟩,?_,?_,?_,?_⟩
      · exact fun hmem => (List.mem_cons.mp hmem).elim hfirst hsplits.fresh
      · intro n
        simp only [Listing.names,List.mem_cons,hsplits.names]
        exact or_left_comm
      · exact fun relative => ((hsplits.chunks relative).cons _).trans (.swap _ _ _)
      · intro node
        simp only [Listing.nodes,List.mem_cons,List.mem_append,hsplits.nodes,or_left_comm]

theorem item_nodes_head {name : Text} {item : Item} {node : List Text × At}
    (h : node ∈ item.nodes name) : ∃ path, node.1 = name :: path := by
  cases item with
  | file contents =>
    rw [List.mem_singleton.mp h]
    exact ⟨[],rfl⟩
  | dir entries =>
    rcases List.mem_cons.mp h with rfl | h
    · exact ⟨[],rfl⟩
    · obtain ⟨below,-,rfl⟩ := List.mem_map.mp h
      exact ⟨below.1,rfl⟩

/-- The entry of a name and the others are each the same. -/
theorem SameTree.split {entries entries' rest rest' : Listing} {name : Text} {item item' : Item}
    (h : SameTree entries entries') (hs : Splits entries name item rest)
    (hs' : Splits entries' name item' rest') :
    (∀ node, node ∈ item.nodes name ↔ node ∈ item'.nodes name) ∧ SameTree rest rest' := by
  have hheads : ∀ {others : Listing}, name ∉ others.names → ∀ {node : List Text × At},
      node ∈ others.nodes → ∀ path, node.1 ≠ name :: path := by
    intro others hfresh node hmem path hpath
    exact not_mem_nodes hfresh path node.2 (hpath ▸ hmem)
  have hboth : ∀ node, node ∈ item.nodes name ∨ node ∈ rest.nodes ↔
      node ∈ item'.nodes name ∨ node ∈ rest'.nodes := by
    intro node
    rw [← hs.nodes,← hs'.nodes]
    exact h node
  constructor
  · intro node
    constructor
    · intro hnode
      obtain ⟨path,hpath⟩ := item_nodes_head hnode
      exact ((hboth node).mp (.inl hnode)).resolve_right fun hrest => hheads hs'.fresh hrest path hpath
    · intro hnode
      obtain ⟨path,hpath⟩ := item_nodes_head hnode
      exact ((hboth node).mpr (.inl hnode)).resolve_right fun hrest => hheads hs.fresh hrest path hpath
  · intro node
    constructor
    · intro hnode
      refine ((hboth node).mp (.inr hnode)).resolve_left fun hitem => ?_
      obtain ⟨path,hpath⟩ := item_nodes_head hitem
      exact hheads hs.fresh hnode path hpath
    · intro hnode
      refine ((hboth node).mpr (.inr hnode)).resolve_left fun hitem => ?_
      obtain ⟨path,hpath⟩ := item_nodes_head hitem
      exact hheads hs'.fresh hnode path hpath

theorem mem_names_of_node {entries : Listing} {name : Text} {path : List Text} {x : At}
    (h : (name :: path,x) ∈ entries.nodes) : name ∈ entries.names := by
  obtain ⟨n,hn,rest,hpath⟩ := node_name h
  cases hpath
  exact hn

theorem eq_nil_of_sameTree {entries : Listing} (hwf : entries.WellFormed)
    (h : SameTree .nil entries) : entries = .nil := by
  cases entries with
  | nil => rfl
  | file name contents rest => exact absurd ((h _).mpr List.mem_cons_self) List.not_mem_nil
  | dir name sub rest => exact absurd ((h _).mpr List.mem_cons_self) List.not_mem_nil
  | other => exact hwf.elim

/-- The same tree gives the same chunks, in whatever order it is listed. -/
theorem chunks_perm {entries entries' : Listing} (hwf : entries.WellFormed)
    (hwf' : entries'.WellFormed) (h : SameTree entries entries') (relative : Text) :
    (entries.chunks relative).Perm (entries'.chunks relative) := by
  induction entries generalizing entries' relative with
  | nil =>
    rw [eq_nil_of_sameTree hwf' h]
  | other => exact hwf.elim
  | file name contents rest ih =>
    have hnode : ([name],At.file contents) ∈ entries'.nodes := (h _).mp List.mem_cons_self
    obtain ⟨item,rest',hsplits⟩ := exists_splits hwf' (mem_names_of_node hnode)
    obtain ⟨hitem,hrest⟩ := h.split (splits_file hwf) hsplits
    have hfound := (hitem ([name],.file contents)).mp List.mem_cons_self
    cases item with
    | file contents' =>
      simp only [Item.nodes,List.mem_singleton,Prod.mk.injEq,true_and,At.file.injEq] at hfound
      subst hfound
      exact ((ih hwf.2.2 hsplits.rest_wellFormed hrest relative).cons _).trans
        (hsplits.chunks relative).symm
    | dir sub => simp [Item.nodes,nil_not_mem_nodes] at hfound
  | dir name sub rest ihsub ih =>
    have hnode : ([name],At.dir) ∈ entries'.nodes := (h _).mp List.mem_cons_self
    obtain ⟨item,rest',hsplits⟩ := exists_splits hwf' (mem_names_of_node hnode)
    obtain ⟨hitem,hrest⟩ := h.split (splits_dir hwf) hsplits
    cases item with
    | file contents' =>
      have hfound := (hitem ([name],.dir)).mp List.mem_cons_self
      simp [Item.nodes] at hfound
    | dir sub' =>
      have hsub : SameTree sub sub' := by
        intro node
        have hbelow := hitem (name :: node.1,node.2)
        have hne : node.1 = [] → node ∉ sub.nodes ∧ node ∉ sub'.nodes := by
          intro hnil
          have hnode : node = ([],node.2) := Prod.ext hnil rfl
          rw [hnode]
          exact ⟨nil_not_mem_nodes _,nil_not_mem_nodes _⟩
        by_cases hnil : node.1 = []
        · exact iff_of_false (hne hnil).1 (hne hnil).2
        · simpa [Item.nodes,hnil] using hbelow
      have hhash := sortByName_eq_of_perm
        ((names_chunks _ sub).symm ▸ hwf.2.2.1.nodup)
        (ihsub hwf.2.2.1 hsplits.item_wellFormed hsub (joinRelative relative name))
      have hchunks := hsplits.chunks relative
      simp only [Item.bytes,hashDirectoryRecursive,← hhash] at hchunks
      exact ((ih hwf.2.2.2 hsplits.rest_wellFormed hrest relative).cons _).trans hchunks.symm

theorem hashInput_sameTree {entries entries' : Listing} (hwf : entries.WellFormed)
    (hwf' : entries'.WellFormed) (h : SameTree entries entries') :
    hashInput entries = hashInput entries' := by
  unfold hashInput hashDirectoryRecursive
  rw [sortByName_eq_of_perm ((names_chunks _ entries).symm ▸ hwf.nodup)
    (chunks_perm hwf hwf' h [])]

/-! ### What comes first in what is hashed -/

theorem encodeUtf8_append (text text' : Text) :
    encodeUtf8 (text++text') = encodeUtf8 text++encodeUtf8 text' := by
  simp [encodeUtf8]

theorem encodeUtf8_ne_nil {text : Text} (h : text ≠ []) : encodeUtf8 text ≠ [] := by
  cases text with
  | nil => exact absurd rfl h
  | cons c rest => simp [encodeUtf8]

theorem Listing.WellFormed.validName {entries : Listing} (hwf : entries.WellFormed) {name : Text}
    (h : name ∈ entries.names) : ValidName name := by
  induction entries with
  | nil => cases h
  | other => exact hwf.elim
  | file first contents rest ih =>
    rcases List.mem_cons.mp h with rfl | h
    · exact hwf.1
    · exact ih hwf.2.2 h
  | dir first sub rest _ ih =>
    rcases List.mem_cons.mp h with rfl | h
    · exact hwf.1
    · exact ih hwf.2.2.2 h

/-- The name and the bytes after it come first, then what is hashed of the other entries. -/
theorem exists_first {entries : Listing} (hwf : entries.WellFormed) (hne : entries ≠ .nil)
    (relative : Text) :
    ∃ name item rest, Splits entries name item rest ∧ (∀ other ∈ rest.names, name < other) ∧
      hashDirectoryRecursive relative entries =
        item.bytes relative name++hashDirectoryRecursive relative rest := by
  have hmin : ∃ name ∈ entries.names, ∀ other ∈ entries.names, name ≤ other := by
    cases hsorted : sortByName (entries.chunks relative) with
    | nil =>
      have hempty := hsorted ▸ sortByName_perm (entries.chunks relative)
      rw [List.nil_perm] at hempty
      cases entries with
      | nil => exact absurd rfl hne
      | _ => cases hempty
    | cons chunk chunks =>
      have hperm := hsorted ▸ sortByName_perm (entries.chunks relative)
      have hpairs : (chunk :: chunks).Pairwise (fun a b => a.1 ≤ b.1) :=
        hsorted ▸ List.pairwise_insertionSort _ _
      rw [← names_chunks relative entries]
      refine ⟨chunk.1,List.mem_map_of_mem (hperm.mem_iff.mp List.mem_cons_self),?_⟩
      intro other hother
      obtain ⟨found,hfound,rfl⟩ := List.mem_map.mp hother
      rcases List.mem_cons.mp (hperm.mem_iff.mpr hfound) with rfl | hlater
      · exact le_refl _
      · exact (List.pairwise_cons.mp hpairs).1 found hlater
  obtain ⟨name,hname,hleast⟩ := hmin
  obtain ⟨item,rest,hsplits⟩ := exists_splits hwf hname
  have hlater : ∀ other ∈ rest.names, name < other := by
    intro other hother
    refine lt_of_le_of_ne (hleast other ((hsplits.names other).mpr (.inr hother))) ?_
    rintro rfl
    exact hsplits.fresh hother
  refine ⟨name,item,rest,hsplits,hlater,?_⟩
  have hsorted : sortByName (entries.chunks relative) =
      (name,item.bytes relative name) :: sortByName (rest.chunks relative) := by
    rw [sortByName_eq_of_perm ((names_chunks _ entries).symm ▸ hwf.nodup)
      (hsplits.chunks relative)]
    refine List.insertionSort_cons_of_forall_rel _ fun chunk hchunk => ?_
    have hnamed := List.mem_map_of_mem (f := Prod.fst) hchunk
    rw [names_chunks] at hnamed
    exact le_of_lt (hlater chunk.1 hnamed)
  unfold hashDirectoryRecursive
  rw [hsorted,List.flatMap_cons]

theorem hash_nil (relative : Text) : hashDirectoryRecursive relative .nil = [] := rfl

@[simp] theorem join_nil (name : Text) : joinRelative [] name = name := rfl

theorem item_bytes_first (relative name : Text) (item : Item) :
    encodeUtf8 (joinRelative relative name) <+: item.bytes relative name := by
  cases item <;> exact List.prefix_append _ _

theorem name_prefix_join {relative : Text} (h : relative ≠ []) (name : Text) :
    encodeUtf8 relative <+: encodeUtf8 (joinRelative relative name) := by
  unfold joinRelative
  rw [if_neg (by simpa using h),encodeUtf8_append]
  exact List.prefix_append _ _

/-- What is hashed below a directory begins with the directory's name. -/
theorem hash_below {entries : Listing} (hwf : entries.WellFormed) (hne : entries ≠ .nil)
    {relative : Text} (h : relative ≠ []) :
    encodeUtf8 relative <+: hashDirectoryRecursive relative entries := by
  obtain ⟨name,item,rest,-,-,hhash⟩ := exists_first hwf hne relative
  rw [hhash]
  exact (name_prefix_join h name).trans
    ((item_bytes_first relative name item).trans (List.prefix_append _ _))

/-- What is hashed at the top begins with the name of an entry. -/
theorem hash_top {entries : Listing} (hwf : entries.WellFormed) (hne : entries ≠ .nil) :
    ∃ name ∈ entries.names, encodeUtf8 name <+: hashInput entries := by
  obtain ⟨name,item,rest,hsplits,-,hhash⟩ := exists_first hwf hne []
  refine ⟨name,(hsplits.names name).mpr (.inl rfl),?_⟩
  unfold hashInput
  rw [hhash]
  exact (item_bytes_first [] name item).trans (List.prefix_append _ _)

theorem hashInput_ne_nil {entries : Listing} (hwf : entries.WellFormed) (hne : entries ≠ .nil) :
    hashInput entries ≠ [] := by
  obtain ⟨name,hname,hstart⟩ := hash_top hwf hne
  intro hnil
  rw [hnil,List.prefix_nil] at hstart
  exact encodeUtf8_ne_nil (hwf.validName hname).1 hstart

theorem hashInput_file (name : Text) (contents : Bytes) :
    hashInput (.file name contents .nil) = encodeUtf8 name++contents := by
  simp [hashInput,hashDirectoryRecursive,Listing.chunks,sortByName]

theorem hashInput_dir (name : Text) : hashInput (.dir name .nil .nil) = encodeUtf8 name := by
  simp [hashInput,hashDirectoryRecursive,Listing.chunks,sortByName]

theorem hashInput_files {name later : Text} (h : name < later) (contents contents' : Bytes) :
    hashInput (.file name contents (.file later contents' .nil)) =
      encodeUtf8 name++contents++(encodeUtf8 later++contents') := by
  simp [hashInput,hashDirectoryRecursive,Listing.chunks,sortByName,le_of_lt h]

theorem validName_append {name other : Text} (h : ValidName name) (h' : ValidName other) :
    ValidName (name++other) := by
  obtain ⟨hne,hslash,hnul,hdot,-⟩ := h
  obtain ⟨hne',hslash',hnul',hdot',-⟩ := h'
  refine ⟨by simp [hne],by simp [hslash,hslash'],by simp [hnul,hnul'],?_,?_⟩
  · intro heq
    rcases List.append_eq_singleton_iff.mp heq with ⟨h,-⟩ | ⟨-,h⟩
    · exact hne h
    · exact hne' h
  · intro heq
    cases name with
    | nil => exact hne rfl
    | cons c rest =>
      cases rest with
      | nil =>
        simp only [List.cons_append,List.nil_append,List.cons.injEq] at heq
        exact hdot (by rw [heq.1])
      | cons d rest =>
        simp only [List.cons_append,List.cons.injEq,List.append_eq_nil_iff] at heq
        exact hne' heq.2.2.2

/-! ### Which directories are told apart -/

theorem eq_file_of_sameTree {entries : Listing} (hwf : entries.WellFormed) {name : Text}
    {contents : Bytes} (h : SameTree (.file name contents .nil) entries) :
    entries = .file name contents .nil := by
  cases entries with
  | nil => exact absurd ((h _).mp List.mem_cons_self) List.not_mem_nil
  | other => exact hwf.elim
  | dir first sub rest =>
    have hnode := (h ([first],.dir)).mpr List.mem_cons_self
    simp [Listing.nodes] at hnode
  | file first found rest =>
    have hnode := (h ([first],.file found)).mpr List.mem_cons_self
    simp only [Listing.nodes,List.mem_singleton,Prod.mk.injEq,List.cons.injEq,and_true,
      At.file.injEq] at hnode
    obtain ⟨rfl,rfl⟩ := hnode
    have hrest : SameTree .nil rest := by
      intro node
      refine iff_of_false List.not_mem_nil fun hmem => ?_
      have hone := (h node).mpr (List.mem_cons_of_mem _ hmem)
      rw [List.mem_singleton.mp hone] at hmem
      exact not_mem_nodes hwf.2.1 [] _ hmem
    rw [eq_nil_of_sameTree hwf.2.2 hrest]

theorem distinctive_of_hashTells {entries : Listing} (hwf : entries.WellFormed)
    (h : HashTells entries) : Distinctive entries := by
  by_cases hne : entries = .nil
  · exact .inl hne
  obtain ⟨name,hname,contents,hcontents⟩ := hash_top hwf hne
  have hvalid := hwf.validName hname
  have hwf₁ : (Listing.file name contents .nil).WellFormed := ⟨hvalid,List.not_mem_nil,trivial⟩
  have hsame := (h _ hwf₁).mp ((hashInput_file name contents).trans hcontents)
  obtain rfl := eq_file_of_sameTree hwf hsame
  refine .inr ⟨name,contents,rfl,?_,?_,?_⟩
  · -- an empty directory of that name would do
    rintro rfl
    have hwf₂ : (Listing.dir name .nil .nil).WellFormed :=
      ⟨hvalid,List.not_mem_nil,trivial,trivial⟩
    have hsame₂ := (h _ hwf₂).mp (by rw [hashInput_dir,← hcontents,List.append_nil])
    have hnode := (hsame₂ ([name],.dir)).mp List.mem_cons_self
    simp [Listing.nodes] at hnode
  · -- a file of that other name would do
    rintro other hother ⟨after,hafter⟩
    have hwf₂ : (Listing.file other after .nil).WellFormed := ⟨hother,List.not_mem_nil,trivial⟩
    have hsame₂ := (h _ hwf₂).mp (by rw [hashInput_file,hafter,hcontents])
    have hnode := (hsame₂ ([other],.file after)).mp List.mem_cons_self
    simp only [Listing.nodes,List.mem_singleton,Prod.mk.injEq,List.cons.injEq,and_true] at hnode
    exact hnode.1
  · -- a second file of that later name would do
    rintro other hother hlater ⟨before,after,hsplit⟩
    have hwf₂ : (Listing.file name before (.file other after .nil)).WellFormed :=
      ⟨hvalid,by simpa [Listing.names] using ne_of_lt hlater,hother,List.not_mem_nil,trivial⟩
    have hsame₂ := (h _ hwf₂).mp (by
      rw [hashInput_files hlater,← hcontents,← hsplit]
      simp [List.append_assoc])
    have hnode := (hsame₂ ([other],.file after)).mp
      (List.mem_cons_of_mem _ List.mem_cons_self)
    simp only [Listing.nodes,List.mem_singleton,Prod.mk.injEq,List.cons.injEq,and_true] at hnode
    exact absurd hnode.1 (ne_of_gt hlater)

theorem eq_nil_of_rest {rest : Listing} (hwf : rest.WellFormed) {name : Text} {contents : Bytes}
    (hlater : ∀ other ∈ rest.names, name < other) (hinside : hashInput rest <:+: contents)
    (hnone : ∀ other, ValidName other → name < other → ¬ encodeUtf8 other <:+: contents) :
    rest = .nil := by
  by_contra hne
  obtain ⟨other,hother,hstart⟩ := hash_top hwf hne
  exact hnone other (hwf.validName hother) (hlater other hother)
    (hstart.isInfix.trans hinside)

/-- Reading the bytes back can only give the one file. -/
theorem eq_file_of_hash {entries : Listing} (hwf : entries.WellFormed) {name : Text}
    {contents : Bytes} (hvalid : ValidName name) (hcontents : contents ≠ [])
    (honly : ∀ other, ValidName other → encodeUtf8 other <+: encodeUtf8 name++contents →
      other = name)
    (hnone : ∀ other, ValidName other → name < other → ¬ encodeUtf8 other <:+: contents)
    (h : hashInput entries = encodeUtf8 name++contents) :
    SameTree entries (.file name contents .nil) := by
  have hne : entries ≠ .nil := by
    rintro rfl
    exact encodeUtf8_ne_nil hvalid.1 (List.append_eq_nil_iff.mp h.symm).1
  obtain ⟨first,item,rest,hsplits,hlater,hhash⟩ := exists_first hwf hne []
  have hfirst : first = name := by
    refine honly first (hwf.validName ((hsplits.names first).mpr (.inl rfl))) ?_
    rw [← h]
    unfold hashInput
    rw [hhash]
    exact (item_bytes_first [] first item).trans (List.prefix_append _ _)
  subst hfirst
  have hbytes : item.bytes [] first++hashInput rest = encodeUtf8 first++contents :=
    hhash.symm.trans h
  cases item with
  | file found =>
    simp only [Item.bytes,join_nil,List.append_assoc,List.append_cancel_left_eq] at hbytes
    have hrest : rest = .nil := eq_nil_of_rest hsplits.rest_wellFormed hlater
      (hbytes ▸ (List.suffix_append _ _).isInfix) hnone
    subst hrest
    have hfound : found = contents := by simpa [hashInput,hash_nil] using hbytes
    subst hfound
    intro node
    rw [hsplits.nodes]
    simp [Item.nodes,Listing.nodes]
  | dir sub =>
    simp only [Item.bytes,join_nil,List.append_assoc,List.append_cancel_left_eq] at hbytes
    by_cases hsub : sub = .nil
    · subst hsub
      rw [hash_nil,List.nil_append] at hbytes
      have hrest : rest = .nil := eq_nil_of_rest hsplits.rest_wellFormed hlater
        (hbytes ▸ List.infix_refl _) hnone
      rw [hrest] at hbytes
      exact absurd hbytes.symm hcontents
    · -- the name of the directory would come twice
      have htwice : encodeUtf8 (first++first) <+: encodeUtf8 first++contents := by
        rw [encodeUtf8_append,List.prefix_append_right_inj,← hbytes]
        exact (hash_below hsplits.item_wellFormed hsub hvalid.1).trans (List.prefix_append _ _)
      have hsame := honly (first++first) (validName_append hvalid hvalid) htwice
      exact absurd (List.append_right_eq_self.mp hsame) hvalid.1

theorem hashTells_of_distinctive {entries : Listing} (hwf : entries.WellFormed)
    (h : Distinctive entries) : HashTells entries := by
  intro entries' hwf'
  refine ⟨fun heq => ?_,fun hsame => hashInput_sameTree hwf' hwf hsame⟩
  rcases h with rfl | ⟨name,contents,rfl,hcontents,honly,hnone⟩
  · by_cases hne : entries' = .nil
    · subst hne
      exact fun _ => Iff.rfl
    · exact absurd heq (hashInput_ne_nil hwf' hne)
  · exact eq_file_of_hash hwf' hwf.1 hcontents honly hnone (heq.trans (hashInput_file _ _))

/-- The order of a listing never matters, but hardly any directory is told apart from all
others. -/
theorem hashTells_iff (entries : Listing) (hwf : entries.WellFormed) :
    HashTells entries ↔ Distinctive entries :=
  ⟨distinctive_of_hashTells hwf,hashTells_of_distinctive hwf⟩

/-! ### Two sets of migrations -/

def migration (name : String) (contents : String) (rest : Listing) : Listing :=
  .file name.toList (ascii contents) rest

/-- The end of the first migration became a migration of its own. -/
theorem migrations_confused :
    let before := migration "1.sql" "CREATE TABLE a;2.sqlDROP TABLE b;" .nil
    let after := migration "1.sql" "CREATE TABLE a;" (migration "2.sql" "DROP TABLE b;" .nil)
    before.WellFormed ∧ after.WellFormed ∧ hashInput before = hashInput after ∧
      ¬ SameTree before after := by
  refine ⟨⟨by simp [ValidName],by simp [Listing.names],trivial⟩,
    ⟨by simp [ValidName],by simp [Listing.names,migration],by simp [ValidName],
      by simp [Listing.names],trivial⟩,by decide +kernel,fun hsame => ?_⟩
  have hnode := (hsame (["2.sql".toList],.file (ascii "DROP TABLE b;"))).mpr (by
    simp [migration,Listing.nodes])
  simp [migration,Listing.nodes] at hnode

theorem hashTells_iff_migration :
    HashTells (migration "1.sql" "CREATE TABLE a;" .nil) ↔
      Distinctive (migration "1.sql" "CREATE TABLE a;" .nil) :=
  hashTells_iff _ ⟨by simp [ValidName],by simp [Listing.names],trivial⟩

end PgEmbedSetup.TestSupport
