import Mathlib.Logic.Function.Basic
import PgEmbedSetup.Privileges

set_option autoImplicit false

/-!
Files with owners, as the root bootstrap changes them. Modes are left out: another user may
change a file exactly when it owns it. A call that fails ends the bootstrap, so the calls
fail only as the files make them.
-/

namespace PgEmbedSetup.Privileges
open Library

/-! ### Putting entries in and taking them out -/

def FileSystem.add (fs : FileSystem) (n : Name) (dir : Place Name) (node : Node)
    (hdir : fs.node dir = some .dir) (hfree : fs.node (n :: dir) = none) : FileSystem where
  entries := fs.entries ++ [(n :: dir,node)]
  nodup := by
    have hnew : n :: dir ∉ fs.entries.map Prod.fst := by
      intro hmem
      obtain ⟨e,he,hp⟩ := List.mem_map.mp hmem
      have hnode := fs.node_of_mem (p := e.1) he
      rw [hp,hfree] at hnode
      cases hnode
    rw [List.map_append,List.nodup_append]
    refine ⟨fs.nodup,by simp,?_⟩
    intro p hp q hq hpq
    obtain rfl : q = n :: dir := List.mem_singleton.mp hq
    exact hnew (hpq ▸ hp)
  closed := by
    intro e he
    rcases List.mem_append.mp he with he | he
    · exact (fs.closed e he).imp_right (Or.imp_right (List.mem_append_left _))
    · rw [List.mem_singleton.mp he]
      refine ⟨by simp,?_⟩
      by_cases hd : dir = []
      · exact .inl hd
      · exact .inr (List.mem_append_left _ (fs.mem_of_node hd hdir))

theorem FileSystem.node_add (fs : FileSystem) {n : Name} {dir : Place Name} {node : Node}
    (hdir : fs.node dir = some .dir) (hfree : fs.node (n :: dir) = none) (q : Place Name) :
    (fs.add n dir node hdir hfree).node q = if q = n :: dir then some node else fs.node q := by
  by_cases hq : q = []
  · subst hq
    simp [FileSystem.node]
  · by_cases hnew : q = n :: dir
    · subst hnew
      rw [if_pos rfl]
      exact FileSystem.node_of_mem _ (List.mem_append_right _ (List.mem_singleton_self _))
    · rw [if_neg hnew,FileSystem.node,FileSystem.node,if_neg hq,if_neg hq,FileSystem.add,
        List.find?_append]
      simp [Ne.symm hnew]

/-- Keeps an entry as long as it, or something below it, is not to go. -/
def FileSystem.without (fs : FileSystem) (goes : Place Name → Bool) : FileSystem where
  entries := fs.entries.filter fun e =>
    fs.entries.any fun e' => decide (e.1 <:+ e'.1) && !goes e'.1
  nodup := (fs.nodup.sublist (List.Sublist.map _ List.filter_sublist))
  closed := by
    intro e he
    obtain ⟨hmem,hkept⟩ := List.mem_filter.mp he
    refine (fs.closed e hmem).imp_right (Or.imp_right fun hparent => ?_)
    refine List.mem_filter.mpr ⟨hparent,?_⟩
    obtain ⟨e',he',hgoes⟩ := List.any_eq_true.mp hkept
    rw [Bool.and_eq_true,decide_eq_true_eq] at hgoes
    refine List.any_eq_true.mpr ⟨e',he',?_⟩
    simp [(List.tail_suffix e.1).trans hgoes.1,hgoes.2]

theorem FileSystem.node_of_without (fs : FileSystem) {goes : Place Name → Bool} {q : Place Name}
    {node : Node} (h : (fs.without goes).node q = some node) : fs.node q = some node := by
  by_cases hq : q = []
  · subst hq
    simpa [FileSystem.node] using h
  · exact fs.node_of_mem (List.mem_filter.mp (FileSystem.mem_of_node _ hq h)).1

theorem FileSystem.node_without (fs : FileSystem) {goes : Place Name → Bool} {q : Place Name}
    (h : goes q = false) : (fs.without goes).node q = fs.node q := by
  cases hn : (fs.without goes).node q with
  | some node => exact (fs.node_of_without hn).symm
  | none =>
    cases hold : fs.node q with
    | none => rfl
    | some node =>
      by_cases hq : q = []
      · subst hq
        simp [FileSystem.node] at hn
      · have hmem := fs.mem_of_node hq hold
        have hkept : (q,node) ∈ (fs.without goes).entries :=
          List.mem_filter.mpr ⟨hmem,List.any_eq_true.mpr ⟨_,hmem,by simp [h]⟩⟩
        rw [FileSystem.node_of_mem _ hkept] at hn
        cases hn

/-! ### Where a spelled path leads -/

/-- The path that spells a place out, whether or not links make it lead elsewhere. -/
def spelled (p : Place Name) : Path Name := ⟨true,namesTo p⟩

def FileSystem.locate (fs : FileSystem) (p : Place Name) : Except Errno (Place Name) :=
  (machineWith fs).locate (spelled p)

theorem reliable_machineWith (fs : FileSystem) : Reliable (machineWith fs) := fun _ => rfl

variable {fs fs' : FileSystem} {p q dir : Place Name} {n : Name}

theorem spelled_join (n : Name) (dir : Place Name) : (spelled dir).join n = spelled (n :: dir) := by
  simp [spelled,Path.join,namesTo_cons]

theorem locate_eq_ok : fs.locate p = .ok q ↔
    fs.layout.walk followAll maxLinks [] (namesTo p) = .ok q := by
  rw [FileSystem.locate,Machine.locate,spelled,Layout.resolve,if_pos rfl]
  simp only [machineWith,followAll,Bool.false_eq_true,if_false]
  cases fs.layout.walk ⟨true,false⟩ maxLinks [] (namesTo p) <;> simp [Except.mapError]

theorem locate_dir (hp : fs.node p = some .dir) : fs.locate p = .ok p := by
  rw [locate_eq_ok]
  exact walk_of_done (scan_namesTo rfl (by simp [FileSystem.layout,hp,Node.kind]))

theorem locate_child (hdir : fs.locate dir = .ok p) (hp : fs.node p = some .dir)
    (hn : Settled fs (n :: p)) : fs.locate (n :: dir) = .ok (n :: p) := by
  rw [FileSystem.locate,← spelled_join]
  exact locate_join ⟨hdir,hp⟩ hn

/-- More files do not change where a path leads. -/
theorem locate_mono (h : ∀ q node, fs.node q = some node → fs'.node q = some node)
    (hp : fs.locate p = .ok q) : fs'.locate p = .ok q := by
  rw [locate_eq_ok] at hp ⊢
  refine walk_mono (fun r k hk => ?_) hp
  obtain ⟨node,hnode,rfl⟩ := Option.map_eq_some_iff.mp hk
  exact Option.map_eq_some_iff.mpr ⟨node,h r node hnode,rfl⟩

/-- A name in a directory leads there unless it is a link's. -/
theorem locate_no_link (hdir : fs.locate dir = .ok p) (hp : fs.node p = some .dir)
    (hn : ∀ target, fs.node (n :: p) ≠ some (.symlink target))
    (h : fs.locate (n :: dir) = .ok q) : q = n :: p := by
  cases hnode : fs.node (n :: p) with
  | none =>
    -- It would lead there if something were there, and more files change nothing.
    have hmore : ∀ r node, fs.node r = some node → (fs.add n p .dir hp hnode).node r = some node := by
      intro r node hr
      rw [FileSystem.node_add,if_neg]
      · exact hr
      · rintro rfl
        rw [hnode] at hr
        cases hr
    have hnew : (fs.add n p .dir hp hnode).node (n :: p) = some .dir := by
      rw [FileSystem.node_add,if_pos rfl]
    have hthere := locate_child (locate_mono hmore hdir) (hmore p _ hp) (.inl hnew)
    exact Except.ok.inj ((locate_mono hmore h).symm.trans hthere)
  | some node =>
    have hset : Settled fs (n :: p) := by
      cases node with
      | dir => exact .inl hnode
      | file => exact .inr hnode
      | symlink target => exact absurd hnode (hn target)
    exact Except.ok.inj (h.symm.trans (locate_child hdir hp hset))

end PgEmbedSetup.Privileges
