import PgEmbedSetup.Extensions.Write

set_option autoImplicit false

/-!
What writing one file changes: the destination itself and the directories that were
missing above it.
-/

namespace PgEmbedSetup.Extensions
open Library

variable {ε α : Type} {os : Os} {d d' : Disk} {t t' : Tree}

/-! ### Single system calls -/

theorem call_done {act : Tree → Except Errno (α × Tree)} {r : Except Errno α}
    (h : (call os act : Fs ε _) d = .done r d') :
    (∃ code, r = .error (.other code) ∧ d'.tree = d.tree) ∨
      (∃ e, act d.tree = .error e ∧ r = .error e ∧ d'.tree = d.tree) ∨
      ∃ a, act d.tree = .ok (a,d'.tree) ∧ r = .ok a := by
  simp only [call] at h
  split at h
  · simp only [Outcome.done.injEq] at h
    obtain ⟨rfl,rfl⟩ := h
    exact .inl ⟨_,rfl,rfl⟩
  · split at h
    · rename_i e he
      simp only [Outcome.done.injEq] at h
      obtain ⟨rfl,rfl⟩ := h
      exact .inr (.inl ⟨e,he,rfl,rfl⟩)
    · rename_i a u ha
      simp only [Outcome.done.injEq] at h
      obtain ⟨rfl,rfl⟩ := h
      exact .inr (.inr ⟨a,ha,rfl⟩)

theorem query_done {f : Tree → Except Errno α} {r : Except Errno α}
    (h : (query os f : Fs ε _) d = .done r d') :
    d'.tree = d.tree ∧ (r = f d.tree ∨ ∃ code, r = .error (.other code)) := by
  rcases call_done h with ⟨code,hr,ht⟩ | ⟨e,he,hr,ht⟩ | ⟨a,ha,hr⟩
  · exact ⟨ht,.inr ⟨code,hr⟩⟩
  · cases hf : f d.tree with
    | ok a => simp [hf,Except.map] at he
    | error e' =>
      simp only [hf,Except.map,Except.error.injEq] at he
      exact ⟨ht,.inl (he ▸ hr)⟩
  · cases hf : f d.tree with
    | error e => simp [hf,Except.map] at ha
    | ok b =>
      simp only [hf,Except.map,Except.ok.injEq,Prod.mk.injEq] at ha
      exact ⟨ha.2.symm,.inl (ha.1 ▸ hr)⟩

theorem change_done {f : Tree → Except Errno Tree} {r : Except Errno Unit}
    (h : (change os f : Fs ε _) d = .done r d') :
    (r = .ok () ∧ f d.tree = .ok d'.tree) ∨ ∃ e, r = .error e ∧ d'.tree = d.tree := by
  rcases call_done h with ⟨code,hr,ht⟩ | ⟨e,he,hr,ht⟩ | ⟨a,ha,hr⟩
  · exact .inr ⟨_,hr,ht⟩
  · exact .inr ⟨_,hr,ht⟩
  · cases hf : f d.tree with
    | error e => simp [hf,Except.map] at ha
    | ok u =>
      simp only [hf,Except.map,Except.ok.injEq,Prod.mk.injEq] at ha
      exact .inl ⟨hr,by rw [ha.2]⟩

theorem callOpen_done {place : Place FileName} {r : Except Errno (Place FileName)}
    (h : (callOpen os place : Fs ε _) d = .done r d') :
    d'.tree = d.tree ∧
      (d.tree.openNoFollow place = some r ∨ ∃ code, r = .error (.other code)) := by
  simp only [callOpen] at h
  split at h
  · simp only [Outcome.done.injEq] at h
    obtain ⟨rfl,rfl⟩ := h
    exact ⟨rfl,.inr ⟨_,rfl⟩⟩
  · split at h
    · simp at h
    · rename_i r' hr
      simp only [Outcome.done.injEq] at h
      obtain ⟨rfl,rfl⟩ := h
      exact ⟨rfl,.inl hr⟩

theorem orFail_done {r : Except Errno α} {report : Errno → ε} {a : α}
    (h : orFail report r d = .done a d') : r = .ok a ∧ d' = d := by
  cases r with
  | error e => exact absurd h fail_done
  | ok b =>
    obtain ⟨rfl,rfl⟩ := pure_done.mp h
    exact ⟨rfl,rfl⟩

/-! ### Paths through real directories -/

/-- As far as the path exists, it leads through real directories. -/
def Clear (t : Tree) (dir : Place FileName) : Prop :=
  ∀ p, p <:+ dir → t.node p = none ∨ t.node p = some .dir

theorem node_absent_below {p q : Place FileName} (h : t.node p = none) (hpq : p <:+ q) :
    t.node q = none := by
  induction q with
  | nil => rwa [List.suffix_nil.mp hpq] at h
  | cons n q ih =>
    rcases List.suffix_cons_iff.mp hpq with rfl | hpq
    · exact h
    · cases hk : t.node (n :: q) with
      | none => rfl
      | some k =>
        have hdir := t.parent_dir n q k hk
        simp [ih hpq] at hdir

theorem clear_of_dir {dir : Place FileName} (h : t.node dir = some .dir) : Clear t dir := by
  intro p hp
  induction dir with
  | nil =>
    rw [List.suffix_nil.mp hp]
    exact .inr t.root_dir
  | cons n dir ih =>
    rcases List.suffix_cons_iff.mp hp with rfl | hp
    · exact .inr h
    · exact ih (t.parent_dir n dir _ h) hp

theorem kind_dir_of_node {p : Place FileName} (h : t.node p = some .dir) :
    t.layout.kind p = some .dir := by
  simp [Tree.layout,h,Node.kind]

theorem locateDir_dir {dir : Place FileName} (h : t.node dir = some .dir) :
    t.locateDir dir = .ok ⟨dir,h⟩ := by
  have hwalk : t.layout.walk ⟨true,true⟩ maxLinks [] (namesTo dir) = .ok dir :=
    walk_of_done (scan_namesTo rfl (kind_dir_of_node h))
  simp only [Tree.locateDir,hwalk,h,dif_pos]

theorem locateDir_absent {dir : Place FileName} (hc : Clear t dir) (h : t.node dir = none) :
    t.locateDir dir = .error (.walk .notFound) := by
  have hwalk : t.layout.walk ⟨true,true⟩ maxLinks [] (namesTo dir) = .error .notFound := by
    refine walk_of_fail (scan_namesTo_absent rfl (by simp [Tree.layout,h]) (fun q hq => ?_))
    rcases hc q hq with hq | hq
    · exact .inl (by simp [Tree.layout,hq])
    · exact .inr (kind_dir_of_node hq)
  simp only [Tree.locateDir,hwalk]

/-- A clear path leads to itself or nowhere. -/
theorem locateDir_clear {dir : Place FileName} (hc : Clear t dir) {p : {p // t.node p = some .dir}}
    (h : t.locateDir dir = .ok p) : p.1 = dir := by
  rcases hc dir List.suffix_rfl with hd | hd
  · simp [locateDir_absent hc hd] at h
  · simp only [locateDir_dir hd,Except.ok.injEq] at h
    rw [← h]

theorem symlinkMetadata_clear {n : FileName} {dir : Place FileName} (hc : Clear t dir) :
    t.symlinkMetadata (n :: dir) =
      match t.node (n :: dir) with
      | none => .error (.walk .notFound)
      | some node => .ok node := by
  rcases hc dir List.suffix_rfl with hd | hd
  · have hn := node_absent_below hd (List.suffix_cons n dir)
    simp [Tree.symlinkMetadata,locateDir_absent hc hd,hn]
  · cases hn : t.node (n :: dir) <;> simp [Tree.symlinkMetadata,locateDir_dir hd,hn]

/-! ### Missing directories -/

/-- `t'` is `t` with directories made where nothing was, on the way to `dir`. -/
def Grows (t t' : Tree) (dir : Place FileName) : Prop :=
  ∀ p, t'.node p = t.node p ∨ (t.node p = none ∧ t'.node p = some .dir ∧ p <:+ dir)

theorem Grows.refl (t : Tree) (dir : Place FileName) : Grows t t dir := fun _ => .inl rfl

theorem Grows.of_eq {dir : Place FileName} (h : t' = t) : Grows t t' dir := h ▸ Grows.refl t dir

theorem Grows.trans {t'' : Tree} {dir : Place FileName} (h : Grows t t' dir)
    (h' : Grows t' t'' dir) : Grows t t'' dir := by
  intro p
  rcases h p with hp | ⟨hnone,hdir,hs⟩
  · rcases h' p with hp' | ⟨hnone',hdir',hs'⟩
    · exact .inl (hp'.trans hp)
    · exact .inr ⟨hp ▸ hnone',hdir',hs'⟩
  · rcases h' p with hp' | ⟨hnone',_,_⟩
    · exact .inr ⟨hnone,hp'.trans hdir,hs⟩
    · simp [hdir] at hnone'

theorem Grows.mono {dir dst : Place FileName} (h : Grows t t' dir) (hs : dir <:+ dst) :
    Grows t t' dst :=
  fun p => (h p).imp id (fun ⟨hnone,hdir,hp⟩ => ⟨hnone,hdir,hp.trans hs⟩)

theorem Grows.clear {dir path : Place FileName} (h : Grows t t' dir) (hc : Clear t path) :
    Clear t' path := by
  intro p hp
  rcases h p with he | ⟨_,hdir,_⟩
  · rw [he]
    exact hc p hp
  · exact .inr hdir

theorem mkdir_grows {n : FileName} {dir : Place FileName} (hc : Clear t dir)
    (h : t.mkdir (n :: dir) = .ok t') : Grows t t' (n :: dir) := by
  simp only [Tree.mkdir] at h
  split at h
  · simp at h
  · rename_i p hloc
    split at h
    · rename_i hnone
      simp only [Except.ok.injEq] at h
      rw [locateDir_clear hc hloc] at hnone
      intro q
      by_cases hq : q = n :: dir
      · subst hq
        refine .inr ⟨hnone,?_,List.suffix_rfl⟩
        rw [← h]
        simp [Tree.set,locateDir_clear hc hloc]
      · refine .inl ?_
        rw [← h]
        simp [Tree.set,locateDir_clear hc hloc,hq]
    · simp at h

theorem unlessDir_done {place : Place FileName} {e : Errno} {r : Except Errno Unit}
    (h : (unlessDir os place e : Fs ε _) d = .done r d') : d'.tree = d.tree := by
  obtain ⟨b,d₁,hq,h⟩ := bind_done.mp h
  have ht := (query_done hq).1
  cases b with
  | error e' => rw [← (pure_done.mp h).2,ht]
  | ok isDir => cases isDir <;> rw [← (pure_done.mp h).2,ht]

theorem createDirAll_grows {dir : Place FileName} {r : Except Errno Unit} (hc : Clear d.tree dir)
    (h : (createDirAll os dir : Fs ε _) d = .done r d') : Grows d.tree d'.tree dir := by
  induction dir generalizing d d' r with
  | nil => exact Grows.of_eq (by rw [← (pure_done.mp h).2])
  | cons n dir ih =>
    have hup : Clear d.tree dir := fun p hp => hc p (hp.trans (List.suffix_cons n dir))
    obtain ⟨r₁,d₁,hmk,h⟩ := bind_done.mp h
    rcases change_done hmk with ⟨rfl,hok⟩ | ⟨e,rfl,ht⟩
    · rw [← (pure_done.mp h).2]
      exact mkdir_grows hup hok
    · by_cases he : e = .walk .notFound
      · -- The parent is missing: it is made first, and the call repeated.
        subst he
        obtain ⟨r₂,d₂,hall,h⟩ := bind_done.mp h
        have hgrow : Grows d.tree d₂.tree (n :: dir) := by
          rw [← ht] at hup ⊢
          exact (ih hup hall).mono (List.suffix_cons n dir)
        cases r₂ with
        | error e =>
          rw [← (pure_done.mp h).2]
          exact hgrow
        | ok _ =>
          obtain ⟨r₃,d₃,hmk',h⟩ := bind_done.mp h
          rcases change_done hmk' with ⟨rfl,hok⟩ | ⟨e',rfl,ht'⟩
          · rw [← (pure_done.mp h).2]
            exact hgrow.trans (mkdir_grows (hgrow.clear hup) hok)
          · rw [unlessDir_done h,ht']
            exact hgrow
      · have h' : (unlessDir os (n :: dir) e : Fs ε _) d₁ = .done r d' := by
          simpa [he] using h
        rw [unlessDir_done h',ht]
        exact Grows.refl _ _

theorem createParents_grows {relative : Place FileName} (hc : Clear d.tree relative.tail)
    (h : createParents os relative d = .done () d') : Grows d.tree d'.tree relative.tail := by
  rw [createParents] at h
  cases hparent : relative.tail with
  | nil =>
    rw [hparent] at h
    exact Grows.of_eq (by rw [← (pure_done.mp h).2])
  | cons n dir =>
    rw [hparent] at h hc
    obtain ⟨r,d₁,hall,h⟩ := bind_done.mp h
    rw [(orFail_done h).2]
    exact createDirAll_grows hc hall

/-- The check before each write: the destination's parents are real directories or missing. -/
theorem requireRealParents_clear {relative : RelPath} {current : Place FileName}
    (hne : relative ≠ []) (hcur : d.tree.node current = some .dir)
    (h : requireRealParents os current relative d = .done () d') :
    d'.tree = d.tree ∧ Clear d.tree (placeOf relative ++ current).tail := by
  induction relative generalizing current d d' with
  | nil => exact absurd rfl hne
  | cons component rest ih =>
    cases rest with
    | nil =>
      refine ⟨by rw [← (pure_done.mp h).2],?_⟩
      simpa [placeOf] using clear_of_dir hcur
    | cons next rest =>
      have hplace : placeOf (component :: next :: rest) ++ current =
          placeOf (next :: rest) ++ (.text component :: current) := by simp [placeOf]
      obtain ⟨r,d₁,hq,h⟩ := bind_done.mp h
      obtain ⟨ht,hr⟩ := query_done hq
      rw [symlinkMetadata_clear (clear_of_dir hcur)] at hr
      rw [hplace]
      rcases hr with hr | ⟨code,rfl⟩
      · cases hn : d.tree.node (.text component :: current) with
        | none =>
          simp only [hn] at hr
          subst hr
          refine ⟨by rw [← (pure_done.mp h).2,ht],fun p hp => ?_⟩
          -- Either `p` is at or above the missing parent, or nothing is there.
          have hlong : (.text component :: current) <:+ (placeOf (next :: rest) ++
              (.text component :: current)).tail := by
            have hcons : placeOf (next :: rest) ≠ [] := by simp [placeOf]
            rw [List.tail_append_of_ne_nil hcons]
            exact List.suffix_append _ _
          rcases List.suffix_or_suffix_of_suffix hp hlong with hs | hs
          · rcases List.suffix_cons_iff.mp hs with rfl | hs
            · exact .inl hn
            · exact clear_of_dir hcur p hs
          · exact .inl (node_absent_below hn hs)
        | some node =>
          simp only [hn] at hr
          subst hr
          cases node with
          | dir =>
            obtain ⟨ht',hclear⟩ := ih (by simp) (ht ▸ hn) h
            exact ⟨ht'.trans ht,ht ▸ hclear⟩
          | file data => exact absurd h fail_done
          | symlink target => exact absurd h fail_done
          | special s => exact absurd h fail_done
      · exact absurd h fail_done

/-! ### Writing to an open file -/

/-- `t'` differs from `t` at most in what is at `p`. -/
def OnlyAt (t t' : Tree) (p : Place FileName) : Prop := ∀ q, q ≠ p → t'.node q = t.node q

theorem OnlyAt.trans {t'' : Tree} {p : Place FileName} (h : OnlyAt t t' p) (h' : OnlyAt t' t'' p) :
    OnlyAt t t'' p := fun q hq => (h' q hq).trans (h q hq)

theorem modify_onlyAt (p : Place FileName) (f : FileData → FileData) :
    OnlyAt t (t.modify p f) p := by
  intro q hq
  simp [Tree.modify,hq]

theorem modify_node {p : Place FileName} {data : FileData} (f : FileData → FileData)
    (h : t.node p = some (.file data)) : (t.modify p f).node p = some (.file (f data)) := by
  simp [Tree.modify,h]

theorem setMode_done {file destination : Place FileName} {mode : Nat} {data : FileData}
    (hfile : d.tree.node file = some (.file data))
    (h : setMode os file destination mode d = .done () d') :
    d'.tree.node file = some (.file { data with mode }) ∧ OnlyAt d.tree d'.tree file := by
  obtain ⟨r,d₁,hch,h⟩ := bind_done.mp h
  obtain ⟨rfl,rfl⟩ := orFail_done h
  rcases change_done hch with ⟨-,hok⟩ | ⟨e,he,-⟩
  · simp only [Except.ok.injEq] at hok
    rw [← hok]
    exact ⟨modify_node _ hfile,modify_onlyAt _ _⟩
  · simp at he

theorem applyOwner_done {file destination : Place FileName} {owner : Owner} {data : FileData}
    (hfile : d.tree.node file = some (.file data))
    (h : applyOwner os file destination owner d = .done () d') :
    d'.tree.node file = some (.file { data with owner }) ∧ OnlyAt d.tree d'.tree file := by
  obtain ⟨r,d₁,hq,hrest⟩ := bind_done.mp h
  obtain ⟨current,d₂,hcur,hset⟩ := bind_done.mp hrest
  obtain ⟨rfl,rfl⟩ := orFail_done hcur
  obtain ⟨ht,hr⟩ := query_done hq
  have hcurrent : current = some data.owner := by
    rcases hr with hr | ⟨code,hr⟩
    · simpa [ownerOf,hfile] using hr
    · simp at hr
  by_cases he : current = some owner
  · rw [if_pos he] at hset
    have howner : data.owner = owner := by
      rw [hcurrent] at he
      exact Option.some.inj he
    rw [← (pure_done.mp hset).2,ht,hfile,← howner]
    exact ⟨rfl,fun _ _ => rfl⟩
  · rw [if_neg he] at hset
    obtain ⟨r',d₃,hch,hlast⟩ := bind_done.mp hset
    obtain ⟨rfl,rfl⟩ := orFail_done hlast
    rcases change_done hch with ⟨-,hok⟩ | ⟨e,hr',-⟩
    · simp only [Except.ok.injEq] at hok
      rw [← hok,ht]
      exact ⟨modify_node _ hfile,modify_onlyAt _ _⟩
    · simp at hr'

theorem callWrite_done {file : Place FileName} {bytes : Bytes} {data : FileData}
    (hfile : d.tree.node file = some (.file data))
    (h : (callWrite os file bytes : Fs ε _) d = .done (.ok ()) d') :
    d'.tree.node file = some (.file { data with bytes }) ∧ OnlyAt d.tree d'.tree file := by
  simp only [callWrite] at h
  split at h
  · simp at h
  · simp only [Outcome.done.injEq] at h
    rw [← h.2]
    exact ⟨modify_node _ hfile,modify_onlyAt _ _⟩

theorem fillTemp_done {owner : Owner} {destination temp : Place FileName} {mode : Nat}
    {bytes : Bytes} {data : FileData} (hfile : d.tree.node temp = some (.file data))
    (h : fillTemp os owner destination mode bytes temp d = .done () d') :
    d'.tree.node temp = some (.file ⟨bytes,mode,owner⟩) ∧ OnlyAt d.tree d'.tree temp := by
  obtain ⟨r,d₁,hwrite,hrest⟩ := bind_done.mp h
  obtain ⟨_,d₂,hok,hset⟩ := bind_done.mp hrest
  obtain ⟨_,d₃,hmode,howner⟩ := bind_done.mp hset
  obtain ⟨rfl,rfl⟩ := orFail_done hok
  obtain ⟨hn₁,ho₁⟩ := callWrite_done hfile hwrite
  obtain ⟨hn₂,ho₂⟩ := setMode_done hn₁ hmode
  obtain ⟨hn₃,ho₃⟩ := applyOwner_done hn₂ howner
  exact ⟨hn₃,(ho₁.trans ho₂).trans ho₃⟩

/-! ### The temporary file and its move -/

theorem createNew_done {data : FileData} {n : FileName} {dir file : Place FileName}
    (hc : Clear t dir) (h : t.createNew data (n :: dir) = .ok (file,t')) :
    file = n :: dir ∧ t.node dir = some .dir ∧ t.node file = none ∧
      t'.node file = some (.file data) ∧ OnlyAt t t' file := by
  simp only [Tree.createNew] at h
  split at h
  · simp at h
  · rename_i p hloc
    split at h
    · rename_i hnone
      have hp := locateDir_clear hc hloc
      simp only [Except.ok.injEq,Prod.mk.injEq] at h
      obtain ⟨rfl,rfl⟩ := h
      refine ⟨by rw [hp],hp ▸ p.2,hnone,by simp [Tree.set],fun q hq => by simp [Tree.set,hq]⟩
    · simp at h

theorem createTempAttempt_done {dir file candidate : Place FileName} {left : Nat}
    (hc : Clear d.tree dir)
    (h : createTempAttempt os dir left d = .done (file,candidate) d') :
    file = candidate ∧ (∃ n, file = n :: dir) ∧ d.tree.node dir = some .dir ∧
      d.tree.node file = none ∧ (∃ data, d'.tree.node file = some (.file data)) ∧
      OnlyAt d.tree d'.tree file := by
  induction left generalizing d with
  | zero => exact absurd h fail_done
  | succ left ih =>
    obtain ⟨cand,d₁,hcand,h⟩ := bind_done.mp h
    simp only [Outcome.done.injEq] at hcand
    obtain ⟨rfl,rfl⟩ := hcand
    obtain ⟨r,d₂,hcall,h⟩ := bind_done.mp h
    rcases call_done hcall with ⟨code,rfl,-⟩ | ⟨e,-,rfl,ht⟩ | ⟨a,ha,rfl⟩
    · exact absurd h fail_done
    · by_cases he : e = .alreadyExists
      · subst he
        have := ih (ht ▸ hc) h
        rwa [ht] at this
      · have h' : (Prog.fail (.cannotCreateTemp dir e) : Fs Report (_ × _)) d₂ =
            .done (file,candidate) d' := by simpa [he] using h
        exact absurd h' fail_done
    · obtain ⟨hpair,rfl⟩ := pure_done.mp h
      simp only [Prod.mk.injEq] at hpair
      obtain ⟨rfl,rfl⟩ := hpair
      obtain ⟨hf,hdir,hnone,hnode,honly⟩ := createNew_done hc ha
      exact ⟨hf,⟨_,hf⟩,hdir,hnone,⟨_,hnode⟩,honly⟩

theorem rename_done {n m : FileName} {dir dst : Place FileName} {data : FileData}
    (hdir : t.node dir = some .dir) (hdst : t.node dst = some .dir)
    (hsrc : t.node (n :: dir) = some (.file data))
    (h : t.rename (n :: dir) (m :: dst) = .ok t') :
    t'.node (m :: dst) = some (.file data) ∧
      ∀ q, q ≠ m :: dst → t'.node q = if q = n :: dir then none else t.node q := by
  simp only [Tree.rename,locateDir_dir hdir,locateDir_dir hdst] at h
  split at h
  · simp_all
  · rename_i node hnode
    rw [hsrc,Option.some.injEq] at hnode
    subst hnode
    simp only [reduceCtorEq,dif_neg,not_false_eq_true] at h
    split at h
    · rename_i hsame
      simp only [Except.ok.injEq] at h
      subst h
      rw [← hsame]
      exact ⟨hsrc,fun q hq => (if_neg hq).symm⟩
    · rename_i hdiff
      split at h
      · simp at h
      · simp only [Except.ok.injEq] at h
        rw [← h]
        refine ⟨by simp [Tree.erase,Tree.set,Ne.symm hdiff],fun q hq => ?_⟩
        simp [Tree.erase,Tree.set,hq]

/-! ### One file -/

/-- Nothing but `place` changes, and missing directories above it appear. -/
def Framed (t t' : Tree) (place : Place FileName) : Prop :=
  ∀ q, q ≠ place →
    t'.node q = t.node q ∨ (t.node q = none ∧ t'.node q = some .dir ∧ q <:+ place)

theorem fillAndPlace_done {owner : Owner} {m n : FileName} {dir : Place FileName} {mode : Nat}
    {bytes : Bytes} {data : FileData} (hdir : d.tree.node dir = some .dir)
    (htemp : d.tree.node (m :: dir) = some (.file data))
    (h : fillAndPlace os owner (n :: dir) mode bytes (m :: dir) (m :: dir) d = .done () d') :
    d'.tree.node (n :: dir) = some (.file ⟨bytes,mode,owner⟩) ∧
      ∀ q, q ≠ n :: dir → d'.tree.node q = if q = m :: dir then none else d.tree.node q := by
  obtain ⟨_,d₁,hfill,hrest⟩ := bind_done.mp h
  obtain ⟨r,d₂,hmove,hok⟩ := bind_done.mp hrest
  obtain ⟨hnode,honly⟩ := fillTemp_done htemp hfill
  obtain ⟨rfl,rfl⟩ := orFail_done hok
  rcases change_done hmove with ⟨-,hren⟩ | ⟨e,he,-⟩
  · have hdir₁ : d₁.tree.node dir = some .dir := by
      rw [honly dir (by simp)]
      exact hdir
    obtain ⟨hdst,hother⟩ := rename_done hdir₁ hdir₁ hnode hren
    refine ⟨hdst,fun q hq => ?_⟩
    rw [hother q hq]
    by_cases hqm : q = m :: dir
    · rw [if_pos hqm,if_pos hqm]
    · rw [if_neg hqm,if_neg hqm,honly q hqm]
  · simp at he

theorem discardOnError_done {temp : Place FileName} {placed : Fs Report Unit}
    (h : discardOnError os temp placed d = .done () d') : placed d = .done () d' := by
  cases hp : placed d with
  | done u d₁ => simpa [discardOnError,hp] using h
  | hangs d₁ => simp [discardOnError,hp] at h
  | failed report d₁ =>
    simp only [discardOnError,hp] at h
    split at h <;> simp at h

theorem writeAfresh_done {owner : Owner} {n : FileName} {dir : Place FileName} {mode : Nat}
    {bytes : Bytes} (hc : Clear d.tree dir)
    (h : writeAfresh os owner (n :: dir) mode bytes d = .done () d') :
    d'.tree.node (n :: dir) = some (.file ⟨bytes,mode,owner⟩) ∧
      Framed d.tree d'.tree (n :: dir) := by
  obtain ⟨_,d₁,hparents,hrest⟩ := bind_done.mp h
  obtain ⟨⟨temp,candidate⟩,d₂,htemp,hfill⟩ := bind_done.mp hrest
  have hgrow : Grows d.tree d₁.tree dir := createParents_grows hc hparents
  obtain ⟨rfl,⟨m,rfl⟩,hdir,hnone,⟨data,hdata⟩,honly⟩ :=
    createTempAttempt_done (hgrow.clear hc) htemp
  have hdir₂ : d₂.tree.node dir = some .dir := by
    rw [honly dir (by simp)]
    exact hdir
  obtain ⟨hnode,hother⟩ := fillAndPlace_done hdir₂ hdata (discardOnError_done hfill)
  refine ⟨hnode,fun q hq => ?_⟩
  rw [hother q hq]
  by_cases hqm : q = m :: dir
  · -- The temporary file's name was free before and is free again.
    subst hqm
    rw [if_pos rfl]
    rcases hgrow (m :: dir) with he | ⟨hn,-,-⟩
    · exact .inl (by rw [← he,hnone])
    · exact .inl hn.symm
  · rw [if_neg hqm,honly q hqm]
    exact (hgrow q).imp id (fun ⟨hn,hd,hs⟩ => ⟨hn,hd,hs.trans (List.suffix_cons n dir)⟩)

theorem openNoFollow_clear {n : FileName} {dir file : Place FileName} (hc : Clear t dir)
    (h : t.openNoFollow (n :: dir) = some (.ok file)) : file = n :: dir := by
  simp only [Tree.openNoFollow] at h
  split at h
  · simp at h
  · rename_i p hloc
    rw [← locateDir_clear hc hloc]
    split at h <;> simp_all

variable {δ : Type} [DecidableEq δ] {sha : Bytes → δ}

/-- Looking at the destination changes nothing, and only an equal digest makes it reused. -/
theorem inspectDestination_done {n : FileName} {dir : Place FileName} {bytes : Bytes}
    {found : Destination} (hc : Clear d.tree dir)
    (h : (inspectDestination sha os (n :: dir) bytes : Fs ε _) d = .done found d') :
    d'.tree = d.tree ∧ ∀ file, found = .identical file → file = n :: dir ∧
      ∃ data, d.tree.node file = some (.file data) ∧ sha data.bytes = sha bytes := by
  obtain ⟨r,d₁,hopen,hrest⟩ := bind_done.mp h
  obtain ⟨ht,hr⟩ := callOpen_done hopen
  cases r with
  | error e =>
    by_cases he : e = .walk .notFound
    · subst he
      obtain ⟨rfl,rfl⟩ := pure_done.mp hrest
      exact ⟨ht,by simp⟩
    · have hlast : (pure (.unreadable e) : Fs ε Destination) d₁ = .done found d' := by
        simpa [he] using hrest
      obtain ⟨rfl,rfl⟩ := pure_done.mp hlast
      exact ⟨ht,by simp⟩
  | ok file =>
    have hfile : file = n :: dir := by
      rcases hr with hr | ⟨code,hr⟩
      · exact openNoFollow_clear hc hr
      · simp at hr
    obtain ⟨verdict,d₂,hreg,hcmp⟩ := bind_done.mp hrest
    obtain ⟨r₂,d₃,hstat,hver⟩ := bind_done.mp hreg
    obtain ⟨ht₂,hr₂⟩ := query_done hstat
    cases r₂ with
    | error e =>
      obtain ⟨rfl,rfl⟩ := pure_done.mp hver
      obtain ⟨rfl,rfl⟩ := pure_done.mp hcmp
      exact ⟨ht₂.trans ht,by simp⟩
    | ok node =>
      by_cases hnode : ∃ data, node = some (.file data)
      · obtain ⟨data,rfl⟩ := hnode
        obtain ⟨rfl,rfl⟩ := pure_done.mp hver
        obtain ⟨r₃,d₄,hread,hlast⟩ := bind_done.mp hcmp
        obtain ⟨ht₃,hr₃⟩ := query_done hread
        have hdata : d.tree.node file = some (.file data) := by
          rcases hr₂ with hr₂ | ⟨code,hr₂⟩
          · rw [← ht]
            exact (Except.ok.inj hr₂).symm
          · simp at hr₂
        cases r₃ with
        | error e =>
          obtain ⟨rfl,rfl⟩ := pure_done.mp hlast
          exact ⟨(ht₃.trans ht₂).trans ht,by simp⟩
        | ok digest =>
          obtain ⟨rfl,rfl⟩ := pure_done.mp hlast
          refine ⟨(ht₃.trans ht₂).trans ht,fun file' hident => ?_⟩
          have hdigest : digest = sha data.bytes := by
            rcases hr₃ with hr₃ | ⟨code,hr₃⟩
            · rw [ht₂,ht] at hr₃
              simpa [contentsOf,hdata] using hr₃
            · simp at hr₃
          split at hident
          · rename_i heq
            simp only [Destination.identical.injEq] at hident
            subst hident
            exact ⟨hfile,data,hdata,hdigest ▸ heq⟩
          · simp at hident
      · have hlast : (pure (some .notRegular) : Fs ε (Option Destination)) d₃ =
            .done verdict d₂ := by
          cases node with
          | none => exact hver
          | some node =>
            cases node with
            | file data => exact absurd ⟨data,rfl⟩ hnode
            | dir => exact hver
            | symlink target => exact hver
            | special s => exact hver
        obtain ⟨rfl,rfl⟩ := pure_done.mp hlast
        obtain ⟨rfl,rfl⟩ := pure_done.mp hcmp
        exact ⟨ht₂.trans ht,by simp⟩

/-- A file with the planned mode and owner is at the destination. Its bytes are the given
ones, or those it had before when they hash alike. -/
def Written (sha : Bytes → δ) (t t' : Tree) (place : Place FileName) (mode : Nat) (owner : Owner)
    (bytes : Bytes) : Prop :=
  ∃ data, t'.node place = some (.file data) ∧ data.mode = mode ∧ data.owner = owner ∧
    (data.bytes = bytes ∨ ∃ old, t.node place = some (.file old) ∧ data.bytes = old.bytes ∧
      sha old.bytes = sha bytes)

theorem repairExisting_done {owner : Owner} {relative existing : Place FileName} {mode : Nat}
    {data : FileData} (hfile : d.tree.node existing = some (.file data))
    (h : repairExisting os owner relative mode existing d = .done () d') :
    d'.tree.node existing = some (.file ⟨data.bytes,mode,owner⟩) ∧
      OnlyAt d.tree d'.tree existing := by
  obtain ⟨_,d₁,hmode,howner⟩ := bind_done.mp h
  obtain ⟨hn₁,ho₁⟩ := setMode_done hfile hmode
  obtain ⟨hn₂,ho₂⟩ := applyOwner_done hn₁ howner
  exact ⟨hn₂,ho₁.trans ho₂⟩

/-- A file that is written is looked for first. What hashes alike is repaired. -/
theorem writeFile_cases {owner : Owner} {file : PlannedFile} {bytes : Bytes}
    (hne : file.relative ≠ []) (h : writeFile sha os owner file bytes d = .done () d') :
    ∃ n dir d₂, placeOf file.relative = n :: dir ∧ d₂.tree = d.tree ∧ Clear d₂.tree dir ∧
      ((∃ old, d₂.tree.node (n :: dir) = some (.file old) ∧ sha old.bytes = sha bytes ∧
          repairExisting os owner (n :: dir) file.mode (n :: dir) d₂ = .done () d') ∨
        writeAfresh os owner (n :: dir) file.mode bytes d₂ = .done () d') := by
  obtain ⟨_,d₁,hparents,hrest⟩ := bind_done.mp h
  obtain ⟨ht,hclear⟩ := requireRealParents_clear hne d.tree.root_dir hparents
  obtain ⟨n,dir,hplace⟩ : ∃ n dir, placeOf file.relative = n :: dir :=
    List.exists_cons_of_ne_nil (by simpa [placeOf] using hne)
  rw [List.append_nil,hplace,List.tail_cons] at hclear
  rw [hplace] at hrest
  obtain ⟨found,d₂,hinspect,hwrite⟩ := bind_done.mp hrest
  obtain ⟨ht₂,hident⟩ := inspectDestination_done (ht ▸ hclear) hinspect
  rw [← ht,← ht₂] at hclear
  refine ⟨n,dir,d₂,hplace,ht₂.trans ht,hclear,?_⟩
  cases found with
  | identical existing =>
    obtain ⟨rfl,old,hold,hsha⟩ := hident existing rfl
    exact .inl ⟨old,ht₂ ▸ hold,hsha,hwrite⟩
  | absent => exact .inr hwrite
  | notRegular => exact .inr hwrite
  | different => exact .inr hwrite
  | unreadable e => exact .inr hwrite

theorem writeFile_done {owner : Owner} {file : PlannedFile} {bytes : Bytes}
    (hne : file.relative ≠ []) (h : writeFile sha os owner file bytes d = .done () d') :
    Written sha d.tree d'.tree (placeOf file.relative) file.mode owner bytes ∧
      Framed d.tree d'.tree (placeOf file.relative) := by
  obtain ⟨n,dir,d₂,hplace,ht,hclear,⟨old,hold,hsha,hrepair⟩ | hwrite⟩ := writeFile_cases hne h
  all_goals rw [hplace,← ht]
  · obtain ⟨hnode,honly⟩ := repairExisting_done hold hrepair
    exact ⟨⟨_,hnode,rfl,rfl,.inr ⟨old,hold,rfl,hsha⟩⟩,fun q hq => .inl (honly q hq)⟩
  · obtain ⟨hnode,hframe⟩ := writeAfresh_done hclear hwrite
    exact ⟨⟨_,hnode,rfl,rfl,.inl rfl⟩,hframe⟩

end PgEmbedSetup.Extensions
