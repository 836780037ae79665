import Mathlib.Data.List.AList
import Mathlib.Data.List.Perm.Subperm
import PgEmbedSetup.Library.Ancestors
import PgEmbedSetup.Library.Search

set_option autoImplicit false

/-!
The process tree of `shutdown_hook/platform/windows.rs`: the search for the descendants of the
postmaster, and the walk up from a descendant when it is looked at again.
-/

namespace PgEmbedSetup.Cluster.ProcessTree
open Library

abbrev PostmasterPid := UInt32

structure ProcessEntry where
  processId : PostmasterPid
  parentProcessId : PostmasterPid
  deriving DecidableEq, Repr

/-! ### The search down -/

abbrev ChildrenByParent := AList fun _ : PostmasterPid => List ProcessEntry

def ChildrenByParent.get (map : ChildrenByParent) (parent : PostmasterPid) : List ProcessEntry :=
  (map.lookup parent).getD []

def ChildrenByParent.push (map : ChildrenByParent) (entry : ProcessEntry) : ChildrenByParent :=
  map.insert entry.parentProcessId (map.get entry.parentProcessId ++ [entry])

def childrenByParent (entries : List ProcessEntry) : ChildrenByParent :=
  entries.foldl ChildrenByParent.push ∅

def collectProcessTree (turns : Nat) (root : PostmasterPid) (entries : List ProcessEntry) :
    Option (List ProcessEntry) :=
  (Search.run ProcessEntry.processId (childrenByParent entries).get turns
    (Search.start ProcessEntry.processId ⟨root,root⟩)).map Search.tree

/-! ### The walk up -/

structure ProcessTreeIndex where
  byPid : AList fun _ : PostmasterPid => ProcessEntry

/-- Of entries with one PID the last is kept. -/
def ProcessTreeIndex.new (entries : List ProcessEntry) : ProcessTreeIndex where
  byPid := entries.foldl (fun map entry => map.insert entry.processId entry) ∅

/-- The loop of `process_has_root_ancestor`, for so many more rounds. -/
def climb (root : PostmasterPid) (entries : ProcessTreeIndex) : Nat → PostmasterPid → Bool
  | 0,_ => false
  | rounds+1,processId =>
    match entries.byPid.lookup processId with
    | none => false
    | some entry =>
      if entry.parentProcessId = root then true
      else if entry.parentProcessId = processId then false
      else climb root entries rounds entry.parentProcessId

def processHasRootAncestor (root processId : PostmasterPid) (entries : ProcessTreeIndex) : Bool :=
  climb root entries entries.byPid.keys.length processId

def descendantIsStillInRootTree (root : PostmasterPid) (descendant : ProcessEntry)
    (entries : ProcessTreeIndex) : Bool :=
  match entries.byPid.lookup descendant.processId with
  | none => false
  | some current => current.parentProcessId = descendant.parentProcessId &&
      processHasRootAncestor root descendant.processId entries

/-! ### Termination -/

structure ProcessHandle where
  pid : PostmasterPid

/-- What one termination is answered: two snapshots, the first for the tree and the second to look
at the opened descendants again, and twice whether a process is a live postgres. -/
structure Answers where
  opens : PostmasterPid → Bool
  matchesPostmaster : Bool
  captured : Option (List ProcessEntry)
  recaptured : Option (List ProcessEntry)
  validPostgres : PostmasterPid → Bool
  activePostgres : PostmasterPid → Bool

variable (answers : Answers)

def openTerminate (pid : PostmasterPid) : Option ProcessHandle :=
  if answers.opens pid then some ⟨pid⟩ else none

def processTree (turns : Nat) (root : PostmasterPid) : Option (List ProcessEntry) :=
  match answers.captured with
  | none => some [⟨root,root⟩]
  | some entries => collectProcessTree turns root entries

def openValidatedDescendantProcesses (root : PostmasterPid) (tree : List ProcessEntry) :
    List ProcessHandle :=
  let candidates := (tree.filter fun member => member.processId ≠ root).filterMap fun member =>
    (openTerminate answers member.processId).map fun process => (member,process)
  match answers.recaptured with
  | none => []
  | some currentEntries =>
    let currentIndex := ProcessTreeIndex.new currentEntries
    candidates.filterMap fun (member,process) =>
      if answers.validPostgres process.pid &&
          descendantIsStillInRootTree root member currentIndex then some process
      else none

/-- The processes that are ended, in that order. -/
def terminateProcessTree (turns : Nat) (root : PostmasterPid) : Option (List PostmasterPid) :=
  match openTerminate answers root with
  | none => some []
  | some rootProcess =>
    if !answers.matchesPostmaster then some []
    else (processTree answers turns root).map fun tree =>
      let descendants := (openValidatedDescendantProcesses answers root tree).reverse
      (descendants.filter fun process => answers.activePostgres process.pid).map
        ProcessHandle.pid ++ [rootProcess.pid]

/-! ### What the maps hold -/

section Maps
variable {entries : List ProcessEntry} {e : ProcessEntry} {p : PostmasterPid}

theorem push_get (map : ChildrenByParent) (entry : ProcessEntry) (parent : PostmasterPid) :
    (map.push entry).get parent =
      if entry.parentProcessId = parent then map.get parent ++ [entry] else map.get parent := by
  rw [ChildrenByParent.get,ChildrenByParent.push]
  split
  · next heq =>
    rw [heq,AList.lookup_insert]
    rfl
  · next hne =>
    rw [AList.lookup_insert_ne (Ne.symm hne)]
    rfl

/-- The children of a process are kept in the order in which they are listed. -/
theorem get_childrenByParent :
    (childrenByParent entries).get p = entries.filter fun e => e.parentProcessId = p := by
  induction entries using List.reverseRecOn with
  | nil => rfl
  | append_singleton entries last ih =>
    rw [childrenByParent,List.foldl_append,List.foldl_cons,List.foldl_nil,push_get,
      ← childrenByParent,ih,List.filter_append,List.filter_singleton]
    split
    · next heq => simp [heq]
    · next hne => simp [hne]

theorem mem_children :
    e ∈ (childrenByParent entries).get p ↔ e ∈ entries ∧ e.parentProcessId = p := by
  rw [get_childrenByParent,List.mem_filter,decide_eq_true_eq]

/-- With unique PIDs no entry of the index is replaced. -/
theorem lookup_new (hunique : (entries.map ProcessEntry.processId).Nodup) :
    (ProcessTreeIndex.new entries).byPid.lookup p = some e ↔ e ∈ entries ∧ e.processId = p := by
  induction entries using List.reverseRecOn with
  | nil => simp [ProcessTreeIndex.new]
  | append_singleton entries last ih =>
    rw [List.map_append,List.map_singleton,List.nodup_append] at hunique
    obtain ⟨hunique,-,hnew⟩ := hunique
    have ih := ih hunique
    rw [ProcessTreeIndex.new] at ih ⊢
    rw [List.foldl_append,List.foldl_cons,List.foldl_nil,List.mem_append,List.mem_singleton]
    by_cases hp : p = last.processId
    · rw [hp,AList.lookup_insert,Option.some.injEq]
      constructor
      · rintro rfl
        exact ⟨.inr rfl,rfl⟩
      · rintro ⟨h | rfl,heq⟩
        · exact absurd heq (hnew _ (List.mem_map_of_mem h) _ List.mem_cons_self)
        · rfl
    · rw [AList.lookup_insert_ne hp,ih]
      constructor
      · exact fun h => ⟨.inl h.1,h.2⟩
      · rintro ⟨h | rfl,heq⟩
        · exact ⟨h,heq⟩
        · exact absurd heq.symm hp

end Maps

/-! ### The tree -/

/-- The second process is listed with the first as its parent. -/
def ParentOf (entries : List ProcessEntry) (p q : PostmasterPid) : Prop :=
  ∃ e ∈ entries, e.parentProcessId = p ∧ e.processId = q

/-- The root, then all that is below it, each once and after its parent. -/
structure RootFirst (root : PostmasterPid) (entries tree : List ProcessEntry) : Prop where
  first : ∃ rest, tree = ⟨root,root⟩ :: rest
  once : (tree.map ProcessEntry.processId).Nodup
  reached : ∀ p, p ∈ tree.map ProcessEntry.processId ↔
    Relation.ReflTransGen (ParentOf entries) root p
  after : ∀ e ∈ tree, e.processId ≠ root → e ∈ entries ∧
    [e.parentProcessId,e.processId].Sublist (tree.map ProcessEntry.processId)

theorem below_iff {entries : List ProcessEntry} {p q : PostmasterPid} :
    Below ProcessEntry.processId (childrenByParent entries).get p q ↔ ParentOf entries p q := by
  constructor
  · rintro ⟨e,he,rfl⟩
    obtain ⟨hlisted,hparent⟩ := mem_children.mp he
    exact ⟨e,hlisted,hparent,rfl⟩
  · rintro ⟨e,hlisted,hparent,rfl⟩
    exact ⟨e,mem_children.mpr ⟨hlisted,hparent⟩,rfl⟩

/-- The search ends within a turn for each entry, one for the root and one to see that the queue
is empty. -/
theorem collect_rootFirst (root : PostmasterPid) (entries : List ProcessEntry) :
    ∃ tree, (∀ turns, entries.length + 1 < turns →
        collectProcessTree turns root entries = some tree) ∧ RootFirst root entries tree := by
  have hall : ∀ p, ∀ e ∈ (childrenByParent entries).get p,
      e.processId ∈ entries.map ProcessEntry.processId := fun p e he =>
    List.mem_map_of_mem (mem_children.mp he).1
  obtain ⟨s,hrun,hgrown,hreached⟩ := Search.run_start ⟨root,root⟩ hall
  have hrel : Below ProcessEntry.processId (childrenByParent entries).get = ParentOf entries :=
    funext fun p => funext fun q => propext below_iff
  rw [List.length_map] at hrun
  rw [hrel] at hreached
  refine ⟨s.tree,fun turns hturns => by rw [collectProcessTree,hrun turns hturns]; rfl,
    hgrown.head,hgrown.nodup,hreached,fun e he hroot => ?_⟩
  rcases hgrown.after he with rfl | ⟨p,hchild,hafter⟩
  · exact absurd rfl hroot
  · obtain ⟨hlisted,rfl⟩ := mem_children.mp hchild
    exact ⟨hlisted,hafter⟩

/-! ### Ancestors -/

def ProcessTreeIndex.parent (index : ProcessTreeIndex) (p : PostmasterPid) :
    Option PostmasterPid :=
  (index.byPid.lookup p).map ProcessEntry.parentProcessId

theorem climb_iff {root p : PostmasterPid} {index : ProcessTreeIndex} {rounds : Nat} :
    climb root index rounds p = true ↔
      ∃ n < rounds, above index.parent (n + 1) p = some root := by
  induction rounds generalizing p with
  | zero => simp [climb]
  | succ rounds ih =>
    rw [climb]
    cases hlookup : index.byPid.lookup p with
    | none =>
      have hparent : index.parent p = none := by rw [ProcessTreeIndex.parent,hlookup]; rfl
      simp [above_succ_eq_some,hparent]
    | some entry =>
      have hparent : index.parent p = some entry.parentProcessId := by
        rw [ProcessTreeIndex.parent,hlookup]
        rfl
      dsimp only
      split
      · next hroot =>
        exact iff_of_true rfl ⟨0,Nat.succ_pos _,above_succ_eq_some.mpr ⟨root,hroot ▸ hparent,rfl⟩⟩
      · next hroot =>
        split
        · next hself =>
          rw [hself] at hparent hroot
          refine iff_of_false Bool.false_ne_true ?_
          rintro ⟨n,-,hn⟩
          rw [above_self hparent] at hn
          exact hroot (Option.some.inj hn)
        · rw [ih]
          exact (exists_above_link hparent hroot).symm

/-- As many rounds as the index has entries are enough. -/
theorem hasRootAncestor_iff {root p : PostmasterPid} {index : ProcessTreeIndex} :
    processHasRootAncestor root p index = true ↔ Ancestor index.parent p root := by
  rw [processHasRootAncestor,climb_iff,ancestor_iff]
  constructor
  · rintro ⟨n,-,hn⟩
    exact ⟨n,hn⟩
  · rintro ⟨n,hn⟩
    have hcard := List.toFinset_card_of_nodup index.byPid.keys_nodup
    rw [← hcard]
    refine exists_above_lt hn fun q hq => ?_
    rw [ProcessTreeIndex.parent,Option.isSome_map] at hq
    exact List.mem_toFinset.mpr (AList.mem_keys.mp (AList.lookup_isSome.mp hq))

/-! ### The descendants kept -/

section Kept
variable {answers : Answers} {root : PostmasterPid} {tree : List ProcessEntry}

theorem validated_eq {current : List ProcessEntry} (hcurrent : answers.recaptured = some current) :
    (openValidatedDescendantProcesses answers root tree).map ProcessHandle.pid =
      (tree.filter fun member => member.processId ≠ root && answers.opens member.processId &&
        answers.validPostgres member.processId &&
        descendantIsStillInRootTree root member (.new current)).map ProcessEntry.processId := by
  rw [openValidatedDescendantProcesses,hcurrent]
  induction tree with
  | nil => rfl
  | cons member tree ih =>
    dsimp only at ih ⊢
    by_cases hroot : member.processId = root
    · simpa [hroot] using ih
    · by_cases hopen : answers.opens member.processId
      · by_cases hvalid : answers.validPostgres member.processId
        · by_cases hstill : descendantIsStillInRootTree root member (.new current)
          · simpa [hroot,openTerminate,hopen,hvalid,hstill] using ih
          · simpa [hroot,openTerminate,hopen,hvalid,hstill] using ih
        · simpa [hroot,openTerminate,hopen,hvalid] using ih
      · simpa [hroot,openTerminate,hopen] using ih

theorem validated_sublist (answers : Answers) (root : PostmasterPid) (tree : List ProcessEntry) :
    ((openValidatedDescendantProcesses answers root tree).map ProcessHandle.pid).Sublist
      ((tree.filter fun member => member.processId ≠ root).map ProcessEntry.processId) := by
  cases hcurrent : answers.recaptured with
  | none =>
    rw [openValidatedDescendantProcesses,hcurrent]
    exact List.nil_sublist _
  | some current =>
    rw [validated_eq hcurrent]
    refine (List.monotone_filter_right tree fun member hmember => ?_).map _
    simp only [Bool.and_eq_true] at hmember
    exact hmember.1.1.1

end Kept

/-! ### Agreement -/

/-- What was found on the way down, and only that, is found again on the way up. -/
structure UpMatchesDown (root : PostmasterPid) (entries tree : List ProcessEntry) : Prop where
  pids : ∀ p, p ≠ root → (p ∈ tree.map ProcessEntry.processId ↔
    p ∈ entries.map ProcessEntry.processId ∧
      processHasRootAncestor root p (.new entries) = true)
  revalidated : ∀ e : ProcessEntry, e.processId ≠ root →
    (descendantIsStillInRootTree root e (.new entries) = true ↔ e ∈ tree)
  kept : ∀ answers : Answers, answers.recaptured = some entries →
    (openValidatedDescendantProcesses answers root tree).map ProcessHandle.pid =
      (tree.map ProcessEntry.processId).filter fun p =>
        p ≠ root && answers.opens p && answers.validPostgres p

section Unique
variable {root : PostmasterPid} {entries tree : List ProcessEntry}

theorem ancestor_new (hunique : (entries.map ProcessEntry.processId).Nodup) {p : PostmasterPid} :
    Ancestor (ProcessTreeIndex.new entries).parent p root ↔
      Relation.TransGen (ParentOf entries) root p := by
  have hparent : (fun q r => (ProcessTreeIndex.new entries).parent q = some r) =
      Function.swap (ParentOf entries) := by
    funext q r
    rw [ProcessTreeIndex.parent,Option.map_eq_some_iff]
    refine propext ⟨?_,?_⟩
    · rintro ⟨e,he,hr⟩
      obtain ⟨hlisted,hq⟩ := (lookup_new hunique).mp he
      exact ⟨e,hlisted,hr,hq⟩
    · rintro ⟨e,hlisted,hr,hq⟩
      exact ⟨e,(lookup_new hunique).mpr ⟨hlisted,hq⟩,hr⟩
  rw [Ancestor,hparent]
  exact Relation.transGen_swap

theorem mem_tree_iff (hunique : (entries.map ProcessEntry.processId).Nodup)
    (htree : RootFirst root entries tree) {p : PostmasterPid} (hp : p ≠ root) :
    p ∈ tree.map ProcessEntry.processId ↔
      processHasRootAncestor root p (.new entries) = true := by
  rw [htree.reached,hasRootAncestor_iff,ancestor_new hunique,
    Relation.reflTransGen_iff_eq_or_transGen]
  exact or_iff_right hp

theorem revalidated_iff (hunique : (entries.map ProcessEntry.processId).Nodup)
    (htree : RootFirst root entries tree) {e : ProcessEntry} (he : e.processId ≠ root) :
    descendantIsStillInRootTree root e (.new entries) = true ↔ e ∈ tree := by
  rw [descendantIsStillInRootTree]
  constructor
  · intro hstill
    cases hlookup : (ProcessTreeIndex.new entries).byPid.lookup e.processId with
    | none =>
      rw [hlookup] at hstill
      cases hstill
    | some current =>
      rw [hlookup,Bool.and_eq_true,decide_eq_true_eq] at hstill
      obtain ⟨hparent,habove⟩ := hstill
      obtain ⟨hlisted,hpid⟩ := (lookup_new hunique).mp hlookup
      -- The member of the tree with this PID is the entry the index has.
      obtain ⟨member,hmember,hsame⟩ := List.mem_map.mp ((mem_tree_iff hunique htree he).mpr habove)
      have hfound := (lookup_new hunique).mpr
        ⟨(htree.after member hmember (hsame ▸ he)).1,hsame⟩
      rw [hlookup] at hfound
      obtain rfl := Option.some.inj hfound
      have heq : current = e := by
        cases current
        cases e
        exact congrArg₂ ProcessEntry.mk hpid hparent
      exact heq ▸ hmember
  · intro hmember
    have hlisted := (htree.after e hmember he).1
    rw [(lookup_new hunique).mpr ⟨hlisted,rfl⟩,Bool.and_eq_true,decide_eq_true_eq]
    exact ⟨rfl,(mem_tree_iff hunique htree he).mp (List.mem_map_of_mem hmember)⟩

theorem upMatchesDown (hunique : (entries.map ProcessEntry.processId).Nodup)
    (htree : RootFirst root entries tree) : UpMatchesDown root entries tree where
  pids p hp := by
    rw [mem_tree_iff hunique htree hp]
    refine (and_iff_right_of_imp fun habove => ?_).symm
    obtain ⟨e,he,rfl⟩ := List.mem_map.mp ((mem_tree_iff hunique htree hp).mpr habove)
    exact List.mem_map_of_mem (htree.after e he hp).1
  revalidated _ he := revalidated_iff hunique htree he
  kept answers hcurrent := by
    rw [validated_eq hcurrent,List.filter_map]
    refine congrArg _ (List.filter_congr fun member hmember => ?_)
    rw [Function.comp_apply]
    by_cases he : member.processId = root
    · simp [he]
    · rw [(revalidated_iff hunique htree he).mpr hmember,Bool.and_true]

end Unique

/-! ### The order of termination -/

/-- Each process is ended once, and before the one that was found as its parent. -/
structure ChildrenFirst (root : PostmasterPid) (tree : List ProcessEntry)
    (order : List PostmasterPid) : Prop where
  reversed : order.Sublist (tree.map ProcessEntry.processId).reverse
  once : order.Nodup
  before : ∀ e ∈ tree, e.processId ≠ root → e.processId ∈ order → e.parentProcessId ∈ order →
    [e.processId,e.parentProcessId].Sublist order

/-- What is left of a list without duplicates keeps the order of any two. -/
theorem pair_sublist {α : Type} [DecidableEq α] {list part : List α} {a b : α}
    (hnodup : list.Nodup) (hpart : part.Sublist list) (hpair : [a,b].Sublist list)
    (ha : a ∈ part) (hb : b ∈ part) : [a,b].Sublist part := by
  have hperm : (list.filter fun x => x ∈ part).Perm part := by
    refine (List.perm_ext_iff_of_nodup (hnodup.filter _) (hnodup.sublist hpart)).mpr fun x => ?_
    rw [List.mem_filter,decide_eq_true_eq]
    exact and_iff_right_of_imp fun hx => hpart.subset hx
  have heq := (hnodup.perm_iff_eq_of_sublist List.filter_sublist hpart).mp hperm
  have hkept := hpair.filter fun x => x ∈ part
  rw [heq] at hkept
  simpa [ha,hb] using hkept

theorem childrenFirst {root : PostmasterPid} {entries tree : List ProcessEntry}
    {order : List PostmasterPid} (htree : RootFirst root entries tree)
    (hreversed : order.Sublist (tree.map ProcessEntry.processId).reverse) :
    ChildrenFirst root tree order where
  reversed := hreversed
  once := (List.nodup_reverse.mpr htree.once).sublist hreversed
  before e he hroot hchild hparent := by
    have hpair := List.reverse_sublist.mpr (htree.after e he hroot).2
    exact pair_sublist (List.nodup_reverse.mpr htree.once) hreversed hpair hchild hparent

section Order
variable {answers : Answers} {root : PostmasterPid} {entries tree : List ProcessEntry}

theorem terminate_reversed {turns : Nat} (htree : RootFirst root entries tree)
    (hcaptured : answers.captured = some entries)
    (hcollect : collectProcessTree turns root entries = some tree) :
    ∃ order, terminateProcessTree answers turns root = some order ∧
      order.Sublist (tree.map ProcessEntry.processId).reverse := by
  rw [terminateProcessTree,openTerminate]
  by_cases hopen : answers.opens root
  · rw [if_pos hopen]
    dsimp only
    cases hmatches : answers.matchesPostmaster with
    | false => exact ⟨[],rfl,List.nil_sublist _⟩
    | true =>
      rw [if_neg (by decide),processTree,hcaptured]
      dsimp only
      rw [hcollect]
      refine ⟨_,rfl,?_⟩
      obtain ⟨rest,rfl⟩ := htree.first
      rw [List.map_cons,List.reverse_cons]
      refine List.Sublist.append ?_ (.refl _)
      have hdescendants := validated_sublist answers root (⟨root,root⟩ :: rest)
      rw [List.filter_cons_of_neg (by simp)] at hdescendants
      have hrest := hdescendants.trans (List.filter_sublist.map ProcessEntry.processId)
      rw [← List.reverse_sublist,← List.map_reverse] at hrest
      exact (List.filter_sublist.map ProcessHandle.pid).trans hrest
  · rw [if_neg hopen]
    exact ⟨[],rfl,List.nil_sublist _⟩

end Order

/-- The search ends for every snapshot, in a tree that is terminated from its leaves on, and the
walk up is true of the ancestors; where PIDs are unique the two agree. -/
theorem tree_walks_agree (root : PostmasterPid) (entries : List ProcessEntry) :
    (∃ tree, (∀ turns, entries.length + 1 < turns →
        collectProcessTree turns root entries = some tree) ∧
      RootFirst root entries tree ∧
      (∀ answers turns, answers.captured = some entries → entries.length + 1 < turns →
        ∃ order, terminateProcessTree answers turns root = some order ∧
          ChildrenFirst root tree order) ∧
      ((entries.map ProcessEntry.processId).Nodup → UpMatchesDown root entries tree)) ∧
    ∀ index p, processHasRootAncestor root p index = true ↔ Ancestor index.parent p root := by
  obtain ⟨tree,hcollect,htree⟩ := collect_rootFirst root entries
  refine ⟨⟨tree,hcollect,htree,?_,fun hunique => upMatchesDown hunique htree⟩,
    fun index p => hasRootAncestor_iff⟩
  intro answers turns hcaptured hturns
  obtain ⟨order,horder,hreversed⟩ := terminate_reversed htree hcaptured (hcollect turns hturns)
  exact ⟨order,horder,childrenFirst htree hreversed⟩

def snapshot : List ProcessEntry := [⟨40,30⟩,⟨20,10⟩,⟨30,20⟩,⟨50,99⟩,⟨7,8⟩,⟨8,7⟩,⟨9,9⟩]

theorem tree_walks_agree_snapshot :
    UpMatchesDown 10 snapshot [⟨10,10⟩,⟨20,10⟩,⟨30,20⟩,⟨40,30⟩] := by
  obtain ⟨⟨tree,hcollect,-,-,hagree⟩,-⟩ := tree_walks_agree 10 snapshot
  have hrun : collectProcessTree 9 10 snapshot = some [⟨10,10⟩,⟨20,10⟩,⟨30,20⟩,⟨40,30⟩] := by
    decide +kernel
  rw [hcollect 9 (by decide)] at hrun
  exact Option.some.inj hrun ▸ hagree (by decide)

end PgEmbedSetup.Cluster.ProcessTree
