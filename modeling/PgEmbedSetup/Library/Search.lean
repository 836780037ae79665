import Mathlib.Data.Finset.Insert
import Mathlib.Data.List.Perm.Subperm
import Mathlib.Logic.Relation

set_option autoImplicit false

/-!
A breadth-first search with a set of the keys seen, over any assignment of children to keys.
-/

namespace PgEmbedSetup.Library

variable {ν β : Type} (key : β → ν) (children : ν → List β)

/-! ### Trees -/

/-- Lists that grow at the end, by a child of a key they have and with a key they do not have. -/
inductive Grown (top : β) : List β → Prop
  | top : Grown top [top]
  | child {tree : List β} {p : ν} {c : β} : Grown top tree → p ∈ tree.map key →
      c ∈ children p → key c ∉ tree.map key → Grown top (tree ++ [c])

/-- One key has a child with the other. -/
def Below (p q : ν) : Prop := ∃ c ∈ children p, key c = q

namespace Grown
variable {key} {children} {top : β} {tree : List β}

theorem nodup (h : Grown key children top tree) : (tree.map key).Nodup := by
  induction h with
  | top => exact List.nodup_singleton _
  | child _ _ _ hnew ih =>
    rw [List.map_append,List.map_singleton]
    exact List.nodup_append.mpr ⟨ih,List.nodup_singleton _,fun p hp q hq heq =>
      hnew (List.mem_singleton.mp hq ▸ heq ▸ hp)⟩

theorem head (h : Grown key children top tree) : ∃ rest, tree = top :: rest := by
  induction h with
  | top => exact ⟨[],rfl⟩
  | child _ _ _ _ ih =>
    obtain ⟨rest,rfl⟩ := ih
    exact ⟨_,rfl⟩

theorem reach (h : Grown key children top tree) {p : ν} (hp : p ∈ tree.map key) :
    Relation.ReflTransGen (Below key children) (key top) p := by
  induction h generalizing p with
  | top =>
    rw [List.mem_singleton.mp hp]
  | child _ hparent hc _ ih =>
    rw [List.map_append,List.map_singleton] at hp
    rcases List.mem_append.mp hp with hp | hp
    · exact ih hp
    · rw [List.mem_singleton.mp hp]
      exact (ih hparent).tail ⟨_,hc,rfl⟩

/-- All but the top stand after a key they are a child of. -/
theorem after (h : Grown key children top tree) {c : β} (hc : c ∈ tree) :
    c = top ∨ ∃ p, c ∈ children p ∧ [p,key c].Sublist (tree.map key) := by
  induction h with
  | top => exact .inl (List.mem_singleton.mp hc)
  | child _ hparent hchild _ ih =>
    rw [List.map_append,List.map_singleton]
    rcases List.mem_append.mp hc with hc | hc
    · rcases ih hc with htop | ⟨p,hp,hsub⟩
      · exact .inl htop
      · exact .inr ⟨p,hp,hsub.trans (List.sublist_append_left _ _)⟩
    · obtain rfl := List.mem_singleton.mp hc
      exact .inr ⟨_,hchild,(List.singleton_sublist.mpr hparent).append (List.Sublist.refl _)⟩

/-- A tree has no more nodes than there are keys for children, and its top. -/
theorem length_le (h : Grown key children top tree) {all : List ν}
    (hall : ∀ p, ∀ c ∈ children p, key c ∈ all) : tree.length ≤ all.length + 1 := by
  have hsubset : tree.map key ⊆ key top :: all := by
    intro q hq
    obtain ⟨c,hc,rfl⟩ := List.mem_map.mp hq
    rcases h.after hc with rfl | ⟨p,hp,-⟩
    · exact List.mem_cons_self
    · exact List.mem_cons_of_mem _ (hall p c hp)
  have hle := (h.nodup.subperm hsubset).length_le
  rwa [List.length_map,List.length_cons] at hle

end Grown

/-! ### Searches -/

/-- What was found so far, its keys, and those whose children were not looked at yet. -/
structure Search (ν β : Type) where
  tree : List β
  seen : Finset ν
  queue : List ν

namespace Search

/-- The tree has grown from the top, and its keys are the ones seen. -/
structure Rooted (key : β → ν) (children : ν → List β) (top : β) (s : Search ν β) : Prop where
  grown : Grown key children top s.tree
  seen : ∀ p, p ∈ s.seen ↔ p ∈ s.tree.map key
  queued : ∀ p ∈ s.queue, p ∈ s.seen

/-- What was seen and is not queued has had its children seen. -/
def Looked (key : β → ν) (children : ν → List β) (s : Search ν β) : Prop :=
  ∀ p ∈ s.seen, p ∉ s.queue → ∀ c ∈ children p, key c ∈ s.seen

/-- More was seen, and all that is new is queued and in the tree. -/
structure Wider (s s' : Search ν β) : Prop where
  seen : ∀ p ∈ s.seen, p ∈ s'.seen
  queue : ∀ p ∈ s.queue, p ∈ s'.queue
  fresh : ∀ p ∈ s'.seen, p ∈ s.seen ∨ p ∈ s'.queue
  length : s'.tree.length + s.queue.length = s.tree.length + s'.queue.length

theorem Wider.refl (s : Search ν β) : Wider s s :=
  ⟨fun _ h => h,fun _ h => h,fun _ h => .inl h,rfl⟩

theorem Wider.trans {s s' s'' : Search ν β} (h : Wider s s') (h' : Wider s' s'') :
    Wider s s'' where
  seen p hp := h'.seen p (h.seen p hp)
  queue p hp := h'.queue p (h.queue p hp)
  fresh p hp := by
    rcases h'.fresh p hp with hp | hp
    · exact (h.fresh p hp).imp_right (h'.queue p)
    · exact .inr hp
  length := by
    have hfirst := h.length
    have hsecond := h'.length
    omega

/-! ### Turns -/

variable [DecidableEq ν]

def visit (s : Search ν β) (child : β) : Search ν β :=
  if key child ∈ s.seen then s
  else ⟨s.tree ++ [child],insert (key child) s.seen,s.queue ++ [key child]⟩

/-- Nothing once the queue is empty. -/
def next (s : Search ν β) : Option (Search ν β) :=
  match s.queue with
  | [] => none
  | parent :: queue => some ((children parent).foldl (visit key) { s with queue })

/-- The search after its queue ran empty, if that is within the given turns. -/
def run : Nat → Search ν β → Option (Search ν β)
  | 0,_ => none
  | turns+1,s =>
    match s.next key children with
    | none => some s
    | some s' => run turns s'

def start (top : β) : Search ν β := ⟨[top],{key top},[key top]⟩

variable {key} {children}

theorem run_mono {turns turns' : Nat} (hle : turns ≤ turns') {s s' : Search ν β}
    (h : run key children turns s = some s') : run key children turns' s = some s' := by
  induction turns generalizing turns' s with
  | zero => cases h
  | succ turns ih =>
    obtain ⟨more,rfl⟩ : ∃ more, turns' = more + 1 := ⟨turns' - 1,by omega⟩
    rw [run] at h ⊢
    cases hnext : s.next key children with
    | none => rwa [hnext] at h
    | some s'' =>
      rw [hnext] at h
      exact ih (by omega) h

/-! ### What a turn keeps -/

section Steps
variable {top : β} {s : Search ν β}

theorem visit_wider (key : β → ν) (s : Search ν β) (c : β) :
    Wider s (s.visit key c) ∧ key c ∈ (s.visit key c).seen := by
  rw [visit]
  split
  · next hseen => exact ⟨.refl s,hseen⟩
  · refine ⟨⟨fun p hp => Finset.mem_insert_of_mem hp,fun p hp => List.mem_append_left _ hp,?_,?_⟩,
      Finset.mem_insert_self _ _⟩
    · intro p hp
      rcases Finset.mem_insert.mp hp with rfl | hp
      · exact .inr (List.mem_append_right _ List.mem_cons_self)
      · exact .inl hp
    · simp only [List.length_append,List.length_singleton]
      omega

theorem Rooted.visit (h : Rooted key children top s) {p : ν} (hp : p ∈ s.seen) {c : β}
    (hc : c ∈ children p) : Rooted key children top (s.visit key c) := by
  rw [Search.visit]
  split
  · exact h
  · next hnew =>
    refine ⟨h.grown.child ((h.seen p).mp hp) hc fun hkey => hnew ((h.seen _).mpr hkey),?_,?_⟩
    · intro q
      rw [Finset.mem_insert,h.seen q,List.map_append,List.mem_append,List.map_singleton,
        List.mem_singleton,or_comm]
    · intro q hq
      rcases List.mem_append.mp hq with hq | hq
      · exact Finset.mem_insert_of_mem (h.queued q hq)
      · rw [List.mem_singleton.mp hq]
        exact Finset.mem_insert_self _ _

theorem visits_wider (key : β → ν) (s : Search ν β) (cs : List β) :
    Wider s (cs.foldl (visit key) s) ∧ ∀ c ∈ cs, key c ∈ (cs.foldl (visit key) s).seen := by
  induction cs generalizing s with
  | nil => exact ⟨.refl s,by simp⟩
  | cons c cs ih =>
    obtain ⟨hfirst,hkey⟩ := visit_wider key s c
    obtain ⟨hrest,hkeys⟩ := ih (s.visit key c)
    refine ⟨hfirst.trans hrest,fun c' hc' => ?_⟩
    rcases List.mem_cons.mp hc' with rfl | hc'
    · exact hrest.seen _ hkey
    · exact hkeys c' hc'

theorem Rooted.visits (h : Rooted key children top s) {p : ν} (hp : p ∈ s.seen) {cs : List β}
    (hcs : ∀ c ∈ cs, c ∈ children p) : Rooted key children top (cs.foldl (Search.visit key) s) := by
  induction cs generalizing s with
  | nil => exact h
  | cons c cs ih =>
    have hstep := h.visit hp (hcs c List.mem_cons_self)
    exact ih hstep ((visit_wider key s c).1.seen p hp) fun c' hc' => hcs c' (List.mem_cons_of_mem _ hc')

/-- A turn looks at the children of one key of the queue. -/
theorem next_cases {s' : Search ν β} (h : s.next key children = some s') :
    ∃ parent queue, s.queue = parent :: queue ∧
      s' = (children parent).foldl (visit key) { s with queue } := by
  rw [next] at h
  split at h
  · cases h
  · next parent queue hqueue => exact ⟨parent,queue,hqueue,(Option.some.inj h).symm⟩

theorem Rooted.next {s' : Search ν β} (h : Rooted key children top s)
    (hnext : s.next key children = some s') : Rooted key children top s' := by
  obtain ⟨parent,queue,hqueue,rfl⟩ := next_cases hnext
  have hparent : parent ∈ s.seen := h.queued parent (by rw [hqueue]; exact List.mem_cons_self)
  have hpopped : Rooted key children top { s with queue } :=
    ⟨h.grown,h.seen,fun p hp => h.queued p (by rw [hqueue]; exact List.mem_cons_of_mem _ hp)⟩
  exact hpopped.visits hparent fun c hc => hc

theorem Looked.next {s' : Search ν β} (h : Looked key children s)
    (hnext : s.next key children = some s') : Looked key children s' := by
  obtain ⟨parent,queue,hqueue,rfl⟩ := next_cases hnext
  obtain ⟨hwider,hkeys⟩ := visits_wider key { s with queue } (children parent)
  intro p hp hnot c hc
  by_cases hparent : p = parent
  · subst hparent
    exact hkeys c hc
  · -- What is not queued any more was not new, so its children were seen before.
    have hseen : p ∈ s.seen := (hwider.fresh p hp).resolve_right hnot
    refine hwider.seen _ (h p hseen (fun hold => ?_) c hc)
    rw [hqueue] at hold
    rcases List.mem_cons.mp hold with heq | hold
    · exact hparent heq
    · exact hnot (hwider.queue p hold)

/-- Each turn takes one key from the queue, and queues one for each node it adds. -/
theorem next_length {s' : Search ν β} (h : s.next key children = some s') :
    s'.tree.length + s.queue.length = s.tree.length + s'.queue.length + 1 := by
  obtain ⟨parent,queue,hqueue,rfl⟩ := next_cases h
  have hlength := (visits_wider key { s with queue } (children parent)).1.length
  rw [hqueue,List.length_cons]
  simp only at hlength
  omega

theorem next_eq_none (h : s.next key children = none) : s.queue = [] := by
  rw [next] at h
  split at h
  · assumption
  · cases h

/-! ### Runs -/

/-- A run whose turns can take every key once ends, with its queue empty. -/
theorem run_ends {all : List ν} (hall : ∀ p, ∀ c ∈ children p, key c ∈ all) (turns : Nat)
    (h : Rooted key children top s) (hlooked : Looked key children s)
    (hturns : all.length + 1 + s.queue.length < turns + s.tree.length) :
    ∃ s', run key children turns s = some s' ∧ Rooted key children top s' ∧
      Looked key children s' ∧ s'.queue = [] := by
  have hle := h.grown.length_le hall
  induction turns generalizing s with
  | zero => omega
  | succ turns ih =>
    rw [run]
    cases hnext : s.next key children with
    | none => exact ⟨s,rfl,h,hlooked,next_eq_none hnext⟩
    | some s' =>
      have hlength := next_length hnext
      have hrooted := h.next hnext
      exact ih hrooted (hlooked.next hnext) (by omega) (hrooted.grown.length_le hall)

end Steps

/-- The search ends, with a tree that has grown from the top and has every key below it. -/
theorem run_start (top : β) {all : List ν} (hall : ∀ p, ∀ c ∈ children p, key c ∈ all) :
    ∃ s, (∀ turns, all.length + 1 < turns → run key children turns (start key top) = some s) ∧
      Grown key children top s.tree ∧
      ∀ p, p ∈ s.tree.map key ↔ Relation.ReflTransGen (Below key children) (key top) p := by
  have hstart : Rooted key children top (start key top) :=
    ⟨.top,fun p => by simp [start],fun p hp => Finset.mem_singleton.mpr (List.mem_singleton.mp hp)⟩
  have hlooked : Looked key children (start key top) := fun p hp hnot =>
    absurd (List.mem_singleton.mpr (Finset.mem_singleton.mp hp)) hnot
  obtain ⟨s,hrun,hrooted,hclosed,hempty⟩ :=
    run_ends hall (all.length + 2) hstart hlooked (by simp [start])
  refine ⟨s,fun turns hturns => run_mono hturns hrun,hrooted.grown,fun p => ?_⟩
  refine ⟨hrooted.grown.reach,fun hreach => ?_⟩
  induction hreach with
  | refl =>
    obtain ⟨rest,hrest⟩ := hrooted.grown.head
    rw [hrest]
    exact List.mem_cons_self
  | tail _ hbelow ih =>
    obtain ⟨c,hc,rfl⟩ := hbelow
    exact (hrooted.seen _).mp (hclosed _ ((hrooted.seen _).mpr ih) (by simp [hempty]) c hc)

end Search

end PgEmbedSetup.Library
