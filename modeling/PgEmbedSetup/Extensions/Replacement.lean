import PgEmbedSetup.Extensions.Containment

set_option autoImplicit false

/-!
What may occupy a destination. Without I/O faults everything but a directory and a FIFO is
replaced by the planned file: a directory is not given way by the rename, and opening a
FIFO for reading waits for a writer.
-/

namespace PgEmbedSetup.Extensions
open Library

variable {ε α : Type} {os : Os} {d : Disk}

/-! ### Calls without faults -/

/-- No call fails for a reason of its own from the `n`-th on. -/
def QuietFrom (os : Os) (n : Nat) : Prop := ∀ k, n ≤ k → os.fault k = none

theorem QuietFrom.later {n k : Nat} (h : QuietFrom os n) (hk : n ≤ k) : QuietFrom os k :=
  fun j hj => h j (hk.trans hj)

theorem QuietFrom.here {n : Nat} (h : QuietFrom os n) : os.fault n = none := h n le_rfl

theorem query_quiet (h : os.fault d.clock = none) (f : Tree → Except Errno α) :
    (query os f : Fs ε _) d = .done (f d.tree) ⟨d.tree,d.clock+1⟩ := by
  cases hf : f d.tree <;> simp [query,call,h,hf,Except.map]

theorem change_quiet (h : os.fault d.clock = none) (f : Tree → Except Errno Tree) {t : Tree}
    (hf : f d.tree = .ok t) : (change os f : Fs ε _) d = .done (.ok ()) ⟨t,d.clock+1⟩ := by
  simp [change,call,h,hf,Except.map]

theorem change_refused (h : os.fault d.clock = none) (f : Tree → Except Errno Tree) {e : Errno}
    (hf : f d.tree = .error e) : (change os f : Fs ε _) d = .done (.error e) ⟨d.tree,d.clock+1⟩ := by
  simp [change,call,h,hf,Except.map]

theorem change_orFail_quiet (h : os.fault d.clock = none) (f : Tree → Except Errno Tree)
    {t : Tree} (hf : f d.tree = .ok t) (report : Errno → ε) :
    (do let r ← change os f; orFail report r : Fs ε Unit) d = .done () ⟨t,d.clock+1⟩ := by
  rw [bind_of_done (change_quiet h f hf)]
  rfl

/-! ### The parents -/

theorem requireRealParents_quiet {relative : RelPath} {current : Place FileName}
    (hquiet : QuietFrom os d.clock) (hcur : d.tree.node current = some .dir)
    (hclear : Clear d.tree (placeOf relative ++ current).tail) :
    ∃ d', requireRealParents os current relative d = .done () d' ∧ d.clock ≤ d'.clock := by
  induction relative generalizing current d with
  | nil => exact ⟨d,rfl,le_rfl⟩
  | cons component rest ih =>
    cases rest with
    | nil => exact ⟨d,rfl,le_rfl⟩
    | cons next rest =>
      have hplace : placeOf (component :: next :: rest) ++ current =
          placeOf (next :: rest) ++ (.text component :: current) := by simp [placeOf]
      have hlong : (.text component :: current) <:+
          (placeOf (next :: rest) ++ (.text component :: current)).tail := by
        rw [List.tail_append_of_ne_nil (by simp [placeOf])]
        exact List.suffix_append _ _
      simp only [requireRealParents,bind_of_done (query_quiet hquiet.here _)]
      rw [symlinkMetadata_clear (clear_of_dir hcur)]
      rcases hclear _ (hplace ▸ hlong) with hnone | hdir
      · exact ⟨_,by rw [hnone]; rfl,Nat.le_succ _⟩
      · obtain ⟨d',h,hclock⟩ := ih (d := ⟨d.tree,d.clock+1⟩) (hquiet.later (Nat.le_succ _)) hdir
          (hplace ▸ hclear)
        exact ⟨d',by rw [hdir]; exact h,(Nat.le_succ _).trans hclock⟩

theorem isDir_dir {t : Tree} {dir : Place FileName} (h : t.node dir = some .dir) :
    t.isDir dir = true := by
  have hwalk : t.layout.walk ⟨true,true⟩ maxLinks [] (namesTo dir) = .ok dir :=
    walk_of_done (scan_namesTo rfl (kind_dir_of_node h))
  simp [Tree.isDir,hwalk,h]

theorem mkdir_absent {t : Tree} {n : FileName} {dir : Place FileName}
    (hdir : t.node dir = some .dir) (hnone : t.node (n :: dir) = none) :
    ∃ t', t.mkdir (n :: dir) = .ok t' ∧ t'.node (n :: dir) = some .dir := by
  simp only [Tree.mkdir,locateDir_dir hdir,hnone,dif_pos]
  exact ⟨_,rfl,if_pos rfl⟩

theorem mkdir_present {t : Tree} {n : FileName} {dir : Place FileName} {node : Node}
    (h : t.node (n :: dir) = some node) : t.mkdir (n :: dir) = .error .alreadyExists := by
  simp [Tree.mkdir,locateDir_dir (t.parent_dir n dir _ h),h]

theorem createDirAll_quiet {dir : Place FileName} (hquiet : QuietFrom os d.clock)
    (hc : Clear d.tree dir) :
    ∃ d', (createDirAll os dir : Fs ε _) d = .done (.ok ()) d' ∧
      d'.tree.node dir = some .dir ∧ d.clock ≤ d'.clock := by
  induction dir generalizing d with
  | nil => exact ⟨d,rfl,d.tree.root_dir,le_rfl⟩
  | cons n dir ih =>
    have hup : Clear d.tree dir := fun p hp => hc p (hp.trans (List.suffix_cons n dir))
    rcases hc _ List.suffix_rfl with hnone | hdir
    · rcases hup _ List.suffix_rfl with hparent | hparent
      · -- The parent is missing: it is made first, and the call repeated.
        have hmk : d.tree.mkdir (n :: dir) = .error (.walk .notFound) := by
          simp [Tree.mkdir,locateDir_absent hup hparent]
        obtain ⟨d₂,hall,hmade,hclock⟩ := ih (d := ⟨d.tree,d.clock+1⟩)
          (hquiet.later (Nat.le_succ _)) hup
        have hstill : d₂.tree.node (n :: dir) = none := by
          rcases createDirAll_grows (d := ⟨d.tree,d.clock+1⟩) hup hall (n :: dir) with he | ⟨-,-,hs⟩
          · exact he.trans hnone
          · exact absurd hs.length_le (by simp)
        obtain ⟨t',hagain,hnode⟩ := mkdir_absent hmade hstill
        have hquiet₂ : os.fault d₂.clock = none := hquiet _ ((Nat.le_succ _).trans hclock)
        refine ⟨⟨t',d₂.clock+1⟩,?_,hnode,(Nat.le_succ _).trans (hclock.trans (Nat.le_succ _))⟩
        simp only [createDirAll,bind_of_done (change_refused hquiet.here (fun t => t.mkdir (n :: dir)) hmk),bind_of_done hall,
          bind_of_done (change_quiet hquiet₂ (fun t => t.mkdir (n :: dir)) hagain)]
        rfl
      · obtain ⟨t',hmk,hnode⟩ := mkdir_absent hparent hnone
        refine ⟨⟨t',d.clock+1⟩,?_,hnode,Nat.le_succ _⟩
        simp only [createDirAll,bind_of_done (change_quiet hquiet.here (fun t => t.mkdir (n :: dir)) hmk)]
        rfl
    · refine ⟨⟨d.tree,d.clock+2⟩,?_,hdir,Nat.le_add_right _ _⟩
      have hquiet₁ : os.fault (Disk.clock ⟨d.tree,d.clock+1⟩) = none := hquiet _ (Nat.le_succ _)
      simp only [createDirAll,bind_of_done (change_refused hquiet.here (fun t => t.mkdir (n :: dir))
        (mkdir_present hdir)),
        unlessDir,bind_of_done (query_quiet hquiet₁ _),isDir_dir hdir]
      rfl

theorem createParents_quiet (relative : Place FileName) (hquiet : QuietFrom os d.clock)
    (hc : Clear d.tree relative.tail) :
    ∃ d', createParents os relative d = .done () d' ∧ d'.tree.node relative.tail = some .dir ∧
      d.clock ≤ d'.clock := by
  rw [createParents]
  cases hparent : relative.tail with
  | nil => exact ⟨d,rfl,d.tree.root_dir,le_rfl⟩
  | cons n dir =>
    rw [hparent] at hc
    obtain ⟨d',hall,hdir,hclock⟩ := createDirAll_quiet (ε := Report) hquiet hc
    refine ⟨d',?_,hdir,hclock⟩
    simp only [bind_of_done hall]
    rfl

/-- Above `dir` nothing has been made. -/
theorem Grows.child {t t' : Tree} {dir : Place FileName} (h : Grows t t' dir) (n : FileName) :
    t'.node (n :: dir) = t.node (n :: dir) := by
  rcases h (n :: dir) with he | ⟨-,-,hs⟩
  · exact he
  · exact absurd hs.length_le (by simp)

/-! ### The fresh file -/

theorem createNew_absent {t : Tree} {n : FileName} {dir : Place FileName} (data : FileData)
    (hdir : t.node dir = some .dir) (hnone : t.node (n :: dir) = none) :
    ∃ t', t.createNew data (n :: dir) = .ok (n :: dir,t') := by
  simp only [Tree.createNew,locateDir_dir hdir,hnone,dif_pos]
  exact ⟨_,rfl⟩

theorem createNew_present {t : Tree} {data : FileData} {n : FileName} {dir : Place FileName}
    (hdir : t.node dir = some .dir) (h : t.node (n :: dir) ≠ none) :
    t.createNew data (n :: dir) = .error .alreadyExists := by
  simp [Tree.createNew,locateDir_dir hdir,h]

/-- Of any sixteen names drawn in a row one is free in the directory. -/
def NamesFree (os : Os) (t : Tree) (dir : Place FileName) : Prop :=
  ∀ k, ∃ i, i < tempNameAttempts ∧ t.node (.text (os.tempName (k+i)) :: dir) = none

theorem createTempAttempt_quiet {dir : Place FileName} {attempts : Nat}
    (hquiet : QuietFrom os d.clock) (hdir : d.tree.node dir = some .dir)
    (hname : ∃ i, i < attempts ∧ d.tree.node (.text (os.tempName (d.clock+i)) :: dir) = none) :
    ∃ file d', createTempAttempt os dir attempts d = .done (file,file) d' ∧
      d.clock ≤ d'.clock := by
  induction attempts generalizing d with
  | zero =>
    obtain ⟨i,hi,-⟩ := hname
    exact absurd hi (Nat.not_lt_zero i)
  | succ attempts ih =>
    rw [createTempAttempt]
    by_cases hfree : d.tree.node (.text (os.tempName d.clock) :: dir) = none
    · obtain ⟨t',hnew⟩ := createNew_absent ⟨[],os.creationMode,os.process⟩ hdir hfree
      refine ⟨.text (os.tempName d.clock) :: dir,⟨t',d.clock+1⟩,?_,Nat.le_succ _⟩
      have hcall : (call os (fun t => t.createNew ⟨[],os.creationMode,os.process⟩
          (.text (os.tempName d.clock) :: dir)) : Fs Report _) d =
          .done (.ok (.text (os.tempName d.clock) :: dir)) ⟨t',d.clock+1⟩ := by
        simp [call,hquiet.here,hnew]
      exact (bind_of_done (s := d) rfl).trans ((bind_of_done hcall).trans rfl)
    · obtain ⟨i,hi,hnone⟩ := hname
      obtain ⟨j,rfl⟩ : ∃ j, i = j+1 := by
        refine Nat.exists_eq_add_one_of_ne_zero ?_
        rintro rfl
        exact hfree hnone
      have hnext : d.clock+(j+1) = d.clock+1+j := by omega
      obtain ⟨file,d',hmade,hclock⟩ := ih (d := ⟨d.tree,d.clock+1⟩)
        (hquiet.later (Nat.le_succ _)) hdir ⟨j,by omega,hnext ▸ hnone⟩
      refine ⟨file,d',?_,(Nat.le_succ _).trans hclock⟩
      have hcall : (call os (fun t => t.createNew ⟨[],os.creationMode,os.process⟩
          (.text (os.tempName d.clock) :: dir)) : Fs Report _) d =
          .done (.error .alreadyExists) ⟨d.tree,d.clock+1⟩ := by
        simp [call,hquiet.here,createNew_present hdir hfree]
      exact (bind_of_done (s := d) rfl).trans ((bind_of_done hcall).trans hmade)

theorem setMode_quiet (hquiet : QuietFrom os d.clock) (file destination : Place FileName)
    (mode : Nat) :
    ∃ d', setMode os file destination mode d = .done () d' ∧ d.clock ≤ d'.clock :=
  ⟨_,change_orFail_quiet hquiet.here (fun t => .ok (t.modify file fun data => { data with mode }))
    rfl _,Nat.le_succ _⟩

theorem applyOwner_quiet (hquiet : QuietFrom os d.clock) (file destination : Place FileName)
    (owner : Owner) :
    ∃ d', applyOwner os file destination owner d = .done () d' ∧ d.clock ≤ d'.clock := by
  have hcurrent : (orFail (.cannotStat destination) (.ok (ownerOf d.tree file)) :
      Fs Report (Option Owner)) ⟨d.tree,d.clock+1⟩ = .done (ownerOf d.tree file) _ := rfl
  simp only [applyOwner,bind_of_done (query_quiet hquiet.here _),bind_of_done hcurrent]
  split
  · exact ⟨_,rfl,Nat.le_succ _⟩
  · have hquiet₁ : os.fault (Disk.clock ⟨d.tree,d.clock+1⟩) = none := hquiet _ (Nat.le_succ _)
    exact ⟨_,change_orFail_quiet hquiet₁
      (fun t => .ok (t.modify file fun data => { data with owner })) rfl _,Nat.le_add_right _ 2⟩

theorem fillTemp_quiet (hquiet : QuietFrom os d.clock) (owner : Owner)
    (destination temp : Place FileName) (mode : Nat) (bytes : Bytes) :
    ∃ d', fillTemp os owner destination mode bytes temp d = .done () d' ∧
      d.clock ≤ d'.clock := by
  have hwrite : (callWrite os temp bytes : Fs Report _) d =
      .done (.ok ()) ⟨d.tree.modify temp (fun data => { data with bytes }),d.clock+1⟩ := by
    simp [callWrite,hquiet.here]
  obtain ⟨d₂,hmode,hclock₂⟩ := setMode_quiet
    (d := ⟨d.tree.modify temp (fun data => { data with bytes }),d.clock+1⟩)
    (hquiet.later (Nat.le_succ _)) temp destination mode
  have hlater : d.clock ≤ d₂.clock := (Nat.le_succ _).trans hclock₂
  obtain ⟨d₃,howner,hclock₃⟩ := applyOwner_quiet (hquiet.later hlater) temp destination owner
  refine ⟨d₃,?_,hlater.trans hclock₃⟩
  simp only [fillTemp,bind_of_done hwrite]
  exact (bind_of_done rfl).trans ((bind_of_done hmode).trans howner)

theorem repairExisting_quiet (hquiet : QuietFrom os d.clock) (owner : Owner)
    (relative existing : Place FileName) (mode : Nat) :
    ∃ d', repairExisting os owner relative mode existing d = .done () d' := by
  obtain ⟨d₁,hmode,hclock⟩ := setMode_quiet hquiet existing relative mode
  obtain ⟨d₂,howner,-⟩ := applyOwner_quiet (hquiet.later hclock) existing relative owner
  exact ⟨d₂,(bind_of_done hmode).trans howner⟩

/-! ### The rename -/

theorem rename_file {t : Tree} {m n : FileName} {dir : Place FileName} {data : FileData}
    (hsrc : t.node (m :: dir) = some (.file data)) (hdst : t.node (n :: dir) ≠ some .dir) :
    ∃ t', t.rename (m :: dir) (n :: dir) = .ok t' := by
  have hdir := t.parent_dir m dir _ hsrc
  simp only [Tree.rename,locateDir_dir hdir]
  split
  · rename_i hnone
    simp [hsrc] at hnone
  · rename_i node hnode
    rw [hsrc,Option.some.injEq] at hnode
    subst hnode
    simp only [reduceCtorEq,dif_neg,hdst,not_false_eq_true]
    split
    · exact ⟨t,rfl⟩
    · exact ⟨_,rfl⟩

/-- A directory is not given way. -/
theorem rename_over_dir {t t' : Tree} {m n : FileName} {dir : Place FileName} {data : FileData}
    (hsrc : t.node (m :: dir) = some (.file data))
    (h : t.rename (m :: dir) (n :: dir) = .ok t') : t.node (n :: dir) ≠ some .dir := by
  intro hdst
  have hdir := t.parent_dir m dir _ hsrc
  simp only [Tree.rename,locateDir_dir hdir] at h
  split at h
  · simp at h
  · rename_i node hnode
    rw [hsrc,Option.some.injEq] at hnode
    subst hnode
    simp only [reduceCtorEq,dif_neg,not_false_eq_true] at h
    split at h
    · rename_i hsame
      rw [← hsame,hsrc] at hdst
      simp at hdst
    · cases h

theorem fillAndPlace_quiet {m n : FileName} {dir : Place FileName} {data : FileData}
    (hquiet : QuietFrom os d.clock) (hsrc : d.tree.node (m :: dir) = some (.file data))
    (hdst : d.tree.node (n :: dir) ≠ some .dir) (owner : Owner) (mode : Nat) (bytes : Bytes) :
    ∃ d', fillAndPlace os owner (n :: dir) mode bytes (m :: dir) (m :: dir) d = .done () d' := by
  obtain ⟨d₁,hfill,hclock⟩ := fillTemp_quiet hquiet owner (n :: dir) (m :: dir) mode bytes
  obtain ⟨hfile,honly⟩ := fillTemp_done hsrc hfill
  have hdst₁ : d₁.tree.node (n :: dir) ≠ some .dir := by
    by_cases hsame : n :: dir = m :: dir
    · rw [hsame,hfile]
      simp
    · rw [honly _ hsame]
      exact hdst
  obtain ⟨t',hrename⟩ := rename_file hfile hdst₁
  refine ⟨⟨t',d₁.clock+1⟩,(bind_of_done hfill).trans ?_⟩
  exact change_orFail_quiet (hquiet _ hclock) (fun t => t.rename (m :: dir) (n :: dir)) hrename _

theorem writeAfresh_quiet {n : FileName} {dir : Place FileName} (hquiet : QuietFrom os d.clock)
    (hc : Clear d.tree dir) (hnames : NamesFree os d.tree dir)
    (hdst : d.tree.node (n :: dir) ≠ some .dir) (owner : Owner) (mode : Nat) (bytes : Bytes) :
    ∃ d', writeAfresh os owner (n :: dir) mode bytes d = .done () d' := by
  obtain ⟨d₁,hparents,hdir,hclock₁⟩ := createParents_quiet (n :: dir) hquiet hc
  have hgrow : Grows d.tree d₁.tree dir := createParents_grows hc hparents
  obtain ⟨i,hi,hnone⟩ := hnames d₁.clock
  rw [← hgrow.child] at hnone
  obtain ⟨file,d₂,htemp,hclock₂⟩ := createTempAttempt_quiet (hquiet.later hclock₁) hdir
    ⟨i,hi,hnone⟩
  obtain ⟨-,⟨m,rfl⟩,-,-,⟨data,hdata⟩,honly⟩ := createTempAttempt_done (hgrow.clear hc) htemp
  have hdst₂ : d₂.tree.node (n :: dir) ≠ some .dir := by
    by_cases hsame : n :: dir = m :: dir
    · rw [hsame,hdata]
      simp
    · rw [honly _ hsame,hgrow.child]
      exact hdst
  obtain ⟨d₃,hplaced⟩ := fillAndPlace_quiet (hquiet.later (hclock₁.trans hclock₂)) hdata hdst₂
    owner mode bytes
  refine ⟨d₃,(bind_of_done hparents).trans ((bind_of_done htemp).trans ?_)⟩
  simp only [discardOnError,hplaced]

/-- Whatever else goes well, a directory at the destination stays. -/
theorem writeAfresh_dir {n : FileName} {dir : Place FileName} {owner : Owner} {mode : Nat}
    {bytes : Bytes} {d' : Disk} (hc : Clear d.tree dir)
    (h : writeAfresh os owner (n :: dir) mode bytes d = .done () d') :
    d.tree.node (n :: dir) ≠ some .dir := by
  obtain ⟨_,d₁,hparents,hrest⟩ := bind_done.mp h
  obtain ⟨⟨temp,candidate⟩,d₂,htemp,hdiscard⟩ := bind_done.mp hrest
  have hgrow : Grows d.tree d₁.tree dir := createParents_grows hc hparents
  obtain ⟨rfl,⟨m,rfl⟩,-,hfree,⟨data,hdata⟩,honly⟩ :=
    createTempAttempt_done (hgrow.clear hc) htemp
  obtain ⟨_,d₃,hfill,hmove⟩ := bind_done.mp (discardOnError_done hdiscard)
  obtain ⟨r,d₄,hcall,hok⟩ := bind_done.mp hmove
  obtain ⟨rfl,-⟩ := orFail_done hok
  obtain ⟨hfile,hothers⟩ := fillTemp_done hdata hfill
  rcases change_done hcall with ⟨-,hrename⟩ | ⟨e,he,-⟩
  · have hdst := rename_over_dir hfile hrename
    intro hdir
    have hne : n :: dir ≠ m :: dir := by
      intro hsame
      rw [← hsame,hgrow.child,hdir] at hfree
      cases hfree
    rw [hothers _ hne,honly _ hne,hgrow.child] at hdst
    exact hdst hdir
  · simp at he

/-! ### The look at the destination -/

theorem openNoFollow_answers {t : Tree} {n : FileName} {dir : Place FileName} (hc : Clear t dir)
    (hfifo : t.node (n :: dir) ≠ some (.special .fifo)) :
    ∃ r, t.openNoFollow (n :: dir) = some r := by
  simp only [Tree.openNoFollow]
  split
  · exact ⟨_,rfl⟩
  · rename_i p hloc
    rw [locateDir_clear hc hloc]
    split <;> simp_all

variable (os) in
theorem callOpen_answers {n : FileName} {dir : Place FileName} (hc : Clear d.tree dir)
    (hfifo : d.tree.node (n :: dir) ≠ some (.special .fifo)) :
    ∃ r d', (callOpen os (n :: dir) : Fs ε _) d = .done r d' := by
  obtain ⟨r,hr⟩ := openNoFollow_answers hc hfifo
  simp only [callOpen,hr]
  split
  · exact ⟨_,_,rfl⟩
  · exact ⟨_,_,rfl⟩

/-- Without a writer the opening of a FIFO does not come back. -/
theorem callOpen_fifo {n : FileName} {dir : Place FileName} (h : os.fault d.clock = none)
    (hfifo : d.tree.node (n :: dir) = some (.special .fifo)) :
    (callOpen os (n :: dir) : Fs ε _) d = .hangs d := by
  have hdir := d.tree.parent_dir n dir _ hfifo
  have hopen : d.tree.openNoFollow (n :: dir) = none := by
    simp [Tree.openNoFollow,locateDir_dir hdir,hfifo]
  simp only [callOpen,h,hopen]

theorem call_clock {act : Tree → Except Errno (α × Tree)} {r : Except Errno α} {d' : Disk}
    (h : (call os act : Fs ε _) d = .done r d') : d'.clock = d.clock+1 := by
  simp only [call] at h
  split at h
  · cases h
    rfl
  · split at h <;> (cases h; rfl)

theorem callOpen_clock {place : Place FileName} {r : Except Errno (Place FileName)} {d' : Disk}
    (h : (callOpen os place : Fs ε _) d = .done r d') : d'.clock = d.clock+1 := by
  simp only [callOpen] at h
  split at h
  · cases h
    rfl
  · split at h
    · cases h
    · cases h
      rfl

variable {δ : Type} [DecidableEq δ] {sha : Bytes → δ}

theorem requireRegular_clock {file : Place FileName} {found : Option Destination} {d' : Disk}
    (h : (requireRegular os file : Fs ε _) d = .done found d') : d.clock ≤ d'.clock := by
  obtain ⟨r,d₁,hq,hrest⟩ := bind_done.mp h
  have hclock : d.clock ≤ d₁.clock := by
    rw [call_clock hq]
    exact Nat.le_succ _
  have hsame : d₁ = d' := by
    split at hrest <;> exact (pure_done.mp hrest).2
  rw [← hsame]
  exact hclock

theorem inspectDestination_clock {relative : Place FileName} {bytes : Bytes}
    {found : Destination} {d' : Disk}
    (h : (inspectDestination sha os relative bytes : Fs ε _) d = .done found d') :
    d.clock ≤ d'.clock := by
  obtain ⟨r,d₁,hopen,hrest⟩ := bind_done.mp h
  have hclock : d.clock ≤ d₁.clock := by
    rw [callOpen_clock hopen]
    exact Nat.le_succ _
  cases r with
  | error e =>
    by_cases he : e = .walk .notFound
    · subst he
      rw [← (pure_done.mp hrest).2]
      exact hclock
    · have hlast : (pure (.unreadable e) : Fs ε Destination) d₁ = .done found d' := by
        simpa [he] using hrest
      rw [← (pure_done.mp hlast).2]
      exact hclock
  | ok file =>
    obtain ⟨verdict,d₂,hregular,hcompare⟩ := bind_done.mp hrest
    have hclock₂ := hclock.trans (requireRegular_clock hregular)
    cases verdict with
    | some found =>
      rw [← (pure_done.mp hcompare).2]
      exact hclock₂
    | none =>
      obtain ⟨r₃,d₃,hread,hlast⟩ := bind_done.mp hcompare
      have hclock₃ : d.clock ≤ d₃.clock := by
        rw [call_clock hread]
        exact hclock₂.trans (Nat.le_succ _)
      cases r₃ with
      | error e =>
        rw [← (pure_done.mp hlast).2]
        exact hclock₃
      | ok digest =>
        rw [← (pure_done.mp hlast).2]
        exact hclock₃

/-! ### What is replaced -/

section Claim
variable (sha : Bytes → δ) (os : Os) (owner : Owner) (d : Disk) (file : PlannedFile)
  (bytes : Bytes)

/-- The write finishes, and the planned file is at the destination. -/
def Replaces : Prop :=
  ∃ d', writeFile sha os owner file bytes d = .done () d' ∧
    d'.tree.node (placeOf file.relative) = some (.file ⟨bytes,file.mode,owner⟩)

/-- No call fails for a reason of its own, but a regular file at the destination may be
unreadable. -/
def FaultsOnlyReading : Prop :=
  ∀ k, d.clock ≤ k → os.fault k ≠ none →
    (∃ data, d.tree.node (placeOf file.relative) = some (.file data)) ∧
      ∃ d₁ found d₂, requireRealParents os [] file.relative d = .done () d₁ ∧
        (inspectDestination sha os (placeOf file.relative) bytes : Fs Report _) d₁ =
          .done found d₂ ∧ d₁.clock ≤ k ∧ k < d₂.clock

variable {sha os d file bytes}

/-- The look at the destination ends, and from then on no call fails. -/
theorem FaultsOnlyReading.looked (h : FaultsOnlyReading sha os d file bytes)
    (hne : file.relative ≠ []) (hclear : Clear d.tree (placeOf file.relative).tail)
    (hfifo : d.tree.node (placeOf file.relative) ≠ some (.special .fifo)) :
    ∃ d₁ found d₂, requireRealParents os [] file.relative d = .done () d₁ ∧
      (inspectDestination sha os (placeOf file.relative) bytes : Fs Report _) d₁ =
        .done found d₂ ∧ QuietFrom os d₂.clock := by
  by_cases hquiet : QuietFrom os d.clock
  · obtain ⟨d₁,hparents,hclock₁⟩ := requireRealParents_quiet hquiet d.tree.root_dir
      ((List.append_nil (placeOf file.relative)).symm ▸ hclear)
    have ht := (requireRealParents_clear hne d.tree.root_dir hparents).1
    obtain ⟨n,dir,hplace⟩ : ∃ n dir, placeOf file.relative = n :: dir :=
      List.exists_cons_of_ne_nil (by simpa [placeOf] using hne)
    rw [hplace] at hclear hfifo ⊢
    rw [← ht] at hclear hfifo
    obtain ⟨r,d',hopen⟩ := callOpen_answers os (ε := Report) hclear hfifo
    obtain ⟨found,d₂,hinspect⟩ := inspectDestination_answers sha bytes hopen
    exact ⟨d₁,found,d₂,hparents,hinspect,
      hquiet.later (hclock₁.trans (inspectDestination_clock hinspect))⟩
  · simp only [QuietFrom,not_forall] at hquiet
    obtain ⟨k,hk,hfault⟩ := hquiet
    obtain ⟨-,d₁,found,d₂,hparents,hinspect,-,hlt⟩ := h k hk hfault
    refine ⟨d₁,found,d₂,hparents,hinspect,fun j hj => ?_⟩
    by_contra hfault'
    obtain ⟨-,d₁',found',d₂',hparents',hinspect',-,hlt'⟩ :=
      h j (hk.trans (hlt.le.trans hj)) hfault'
    rw [hparents,Outcome.done.injEq] at hparents'
    obtain ⟨-,rfl⟩ := hparents'
    rw [hinspect,Outcome.done.injEq] at hinspect'
    obtain ⟨-,rfl⟩ := hinspect'
    exact absurd hlt' (not_lt.mpr hj)

/-- A FIFO keeps the write waiting. -/
theorem writeFile_fifo (hfaults : FaultsOnlyReading sha os d file bytes)
    (hne : file.relative ≠ [])
    (hfifo : d.tree.node (placeOf file.relative) = some (.special .fifo)) :
    ∃ d', writeFile sha os owner file bytes d = .hangs d' := by
  have hquiet : QuietFrom os d.clock := by
    intro k hk
    by_contra hfault
    obtain ⟨⟨data,hdata⟩,-⟩ := hfaults k hk hfault
    rw [hfifo] at hdata
    cases hdata
  obtain ⟨n,dir,hplace⟩ : ∃ n dir, placeOf file.relative = n :: dir :=
    List.exists_cons_of_ne_nil (by simpa [placeOf] using hne)
  have hclear : Clear d.tree (placeOf file.relative ++ []).tail := by
    rw [hplace] at hfifo ⊢
    rw [List.append_nil,List.tail_cons]
    exact clear_of_dir (d.tree.parent_dir n dir _ hfifo)
  obtain ⟨d₁,hparents,hclock⟩ := requireRealParents_quiet hquiet d.tree.root_dir hclear
  have ht := (requireRealParents_clear hne d.tree.root_dir hparents).1
  refine ⟨d₁,(bind_of_done hparents).trans (bind_of_hangs (bind_of_hangs ?_))⟩
  rw [hplace] at hfifo ⊢
  rw [← ht] at hfifo
  exact callOpen_fifo (hquiet d₁.clock hclock) hfifo

theorem writeFile_dir {d' : Disk} (hne : file.relative ≠ [])
    (h : writeFile sha os owner file bytes d = .done () d') :
    d.tree.node (placeOf file.relative) ≠ some .dir := by
  obtain ⟨n,dir,d₂,hplace,ht,hclear,⟨old,hold,-,-⟩ | hwrite⟩ := writeFile_cases hne h
  all_goals rw [hplace,← ht]
  · rw [hold]
    simp
  · exact writeAfresh_dir hclear hwrite

theorem writeFile_quiet (hfaults : FaultsOnlyReading sha os d file bytes)
    (hne : file.relative ≠ []) (hclear : Clear d.tree (placeOf file.relative).tail)
    (hnames : NamesFree os d.tree (placeOf file.relative).tail)
    (hdir : d.tree.node (placeOf file.relative) ≠ some .dir)
    (hfifo : d.tree.node (placeOf file.relative) ≠ some (.special .fifo)) :
    ∃ d', writeFile sha os owner file bytes d = .done () d' := by
  obtain ⟨d₁,found,d₂,hparents,hinspect,hquiet⟩ := hfaults.looked hne hclear hfifo
  have ht := (requireRealParents_clear hne d.tree.root_dir hparents).1
  obtain ⟨n,dir,hplace⟩ : ∃ n dir, placeOf file.relative = n :: dir :=
    List.exists_cons_of_ne_nil (by simpa [placeOf] using hne)
  rw [hplace] at hclear hnames hdir hinspect
  have ht₂ := (inspectDestination_done (ht ▸ hclear) hinspect).1
  have hafresh : ∃ d', writeAfresh os owner (n :: dir) file.mode bytes d₂ = .done () d' := by
    rw [← ht,← ht₂] at hclear hnames hdir
    exact writeAfresh_quiet hquiet hclear hnames hdir owner file.mode bytes
  rw [writeFile,bind_of_done hparents,hplace,bind_of_done hinspect]
  cases found with
  | identical existing => exact repairExisting_quiet hquiet owner (n :: dir) existing file.mode
  | absent => exact hafresh
  | notRegular => exact hafresh
  | different => exact hafresh
  | unreadable e => exact hafresh

variable (sha os d file bytes)

/-- Exactly a directory and a FIFO are not replaced. -/
theorem writeFile_replaces_iff (hne : file.relative ≠ [])
    (hclear : Clear d.tree (placeOf file.relative).tail)
    (hnames : NamesFree os d.tree (placeOf file.relative).tail)
    (hfaults : FaultsOnlyReading sha os d file bytes)
    (hsha : ∀ old, d.tree.node (placeOf file.relative) = some (.file old) →
      sha old.bytes = sha bytes → old.bytes = bytes) :
    Replaces sha os owner d file bytes ↔
      d.tree.node (placeOf file.relative) ≠ some .dir ∧
        d.tree.node (placeOf file.relative) ≠ some (.special .fifo) := by
  constructor
  · rintro ⟨d',hrun,-⟩
    refine ⟨writeFile_dir owner hne hrun,fun hfifo => ?_⟩
    obtain ⟨d'',hwaits⟩ := writeFile_fifo owner hfaults hne hfifo
    rw [hrun] at hwaits
    cases hwaits
  · rintro ⟨hdir,hfifo⟩
    obtain ⟨d',hrun⟩ := writeFile_quiet owner hfaults hne hclear hnames hdir hfifo
    obtain ⟨⟨contents,mode,left⟩,hnode,rfl,rfl,hbytes⟩ := (writeFile_done hne hrun).1
    refine ⟨d',hrun,?_⟩
    rcases hbytes with rfl | ⟨old,hold,rfl,hsame⟩
    · exact hnode
    · rw [hnode,← hsha old hold hsame]

end Claim

/-! ### One destination and what may be there -/

/-- `lib`, with `occupant` where `lib/vector.so` goes. -/
def occupiedTree (occupant : Option Node) : Tree where
  node p :=
    if p = [] ∨ p = [.text libDir] then some .dir
    else if p = placeOf vectorPath then occupant
    else none
  root_dir := rfl
  parent_dir n p k h := by
    by_cases hlib : n :: p = [.text libDir]
    · exact if_pos (.inl (List.cons.inj hlib).2)
    · by_cases hvector : n :: p = placeOf vectorPath
      · exact if_pos (.inr (List.cons.inj hvector).2)
      · rw [if_neg (by simpa using hlib),if_neg hvector] at h
        cases h

def vectorFile : PlannedFile := ⟨vectorPath,0o755⟩

theorem writeFile_replaces_iff_link :
    Replaces id quietOs ⟨1000,1000⟩ ⟨occupiedTree (some (.symlink ⟨true,[]⟩)),0⟩ vectorFile [1,2] :=
  (writeFile_replaces_iff id quietOs ⟨1000,1000⟩ ⟨occupiedTree (some (.symlink ⟨true,[]⟩)),0⟩
    vectorFile [1,2] (by decide) (clear_of_dir rfl) (fun _ => ⟨0,by decide,rfl⟩)
    (fun _ _ h => absurd rfl h) (fun _ _ h => h)).mpr ⟨by decide,by decide⟩

/-- A FIFO keeps the install waiting and a directory makes it fail. -/
theorem writeFile_replaces_not :
    (∃ d', writeFile id quietOs ⟨1000,1000⟩ vectorFile [1,2]
      ⟨occupiedTree (some (.special .fifo)),0⟩ = .hangs d') ∧
    ¬ Replaces id quietOs ⟨1000,1000⟩ ⟨occupiedTree (some (.special .fifo)),0⟩ vectorFile [1,2] ∧
    ¬ Replaces id quietOs ⟨1000,1000⟩ ⟨occupiedTree (some .dir),0⟩ vectorFile [1,2] := by
  have hfaults : FaultsOnlyReading id quietOs ⟨occupiedTree (some (.special .fifo)),0⟩ vectorFile
      [1,2] := fun _ _ h => absurd rfl h
  obtain ⟨d',hwaits⟩ := writeFile_fifo ⟨1000,1000⟩ hfaults (by decide) rfl
  refine ⟨⟨d',hwaits⟩,?_,?_⟩
  · rintro ⟨d'',hrun,-⟩
    rw [hwaits] at hrun
    cases hrun
  · rintro ⟨d'',hrun,-⟩
    exact writeFile_dir ⟨1000,1000⟩ (by decide) hrun rfl

end PgEmbedSetup.Extensions
