import PgEmbedSetup.Extensions.Exactness

set_option autoImplicit false

/-!
What writing one file changes when it does not go through: at whichever call it fails, the
destination is sound, the directories that were missing above it may exist, and a temporary
file is left only when the call that removes it failed as well.
-/

namespace PgEmbedSetup.Extensions
open Library

variable {ε α : Type} {os : Os} {d : Disk}

/-! ### Calls that are answered -/

section Answers
variable (os d)

theorem call_answers (act : Tree → Except Errno (α × Tree)) :
    ∃ r d', (call os act : Fs ε _) d = .done r d' := by
  simp only [call]
  split
  · exact ⟨_,_,rfl⟩
  · split
    · exact ⟨_,_,rfl⟩
    · exact ⟨_,_,rfl⟩

theorem query_answers (f : Tree → Except Errno α) :
    ∃ r d', (query os f : Fs ε _) d = .done r d' := call_answers os d _

theorem change_answers (f : Tree → Except Errno Tree) :
    ∃ r d', (change os f : Fs ε _) d = .done r d' := call_answers os d _

end Answers

/-- A call that fails or waits for ever does neither with the tree changed. -/
theorem callOpen_stops (place : Place FileName) {left : Disk → Prop} :
    ((callOpen os place : Fs ε _) d).Stops left (fun d' => d'.tree = d.tree) := by
  simp only [callOpen]
  split
  · trivial
  · split
    · exact rfl
    · trivial

variable {left waiting : Disk → Prop}

theorem orFail_stops {r : Except Errno α} {report : Errno → ε} (h : left d) :
    (orFail report r d).Stops left waiting := by
  cases r with
  | ok a => trivial
  | error e => exact stops_fail h

/-- A call whose error is returned leaves the tree alone when it fails. -/
theorem change_orFail_stops {f : Tree → Except Errno Tree} {report : Errno → ε}
    (h : ∀ d', d'.tree = d.tree → left d') :
    ((do let r ← change os f; orFail report r : Fs ε Unit) d).Stops left waiting := by
  refine stops_bind (stops_of_done (change_answers os d f)) (fun r d' hr => ?_)
  rcases change_done hr with ⟨rfl,-⟩ | ⟨e,rfl,ht⟩
  · trivial
  · exact orFail_stops (h d' ht)

/-! ### Before anything is written -/

/-- Looking at the parents changes nothing, whatever they are. -/
theorem requireRealParents_stops (relative : RelPath) (current : Place FileName) :
    (requireRealParents os current relative d).Stops (fun d' => d'.tree = d.tree) waiting := by
  induction relative generalizing current d with
  | nil => trivial
  | cons component rest ih =>
    cases rest with
    | nil => trivial
    | cons next rest =>
      refine stops_bind (stops_of_done (query_answers os d _)) (fun r d₁ hr => ?_)
      have ht := (query_done hr).1
      cases r with
      | error e =>
        cases e with
        | walk w => cases w <;> trivial
        | alreadyExists => exact stops_fail ht
        | isDir => exact stops_fail ht
        | other code => exact stops_fail ht
      | ok node =>
        cases node with
        | dir => exact (ih _).mono (fun d' h => h.trans ht) (fun _ h => h)
        | file data => exact stops_fail ht
        | symlink target => exact stops_fail ht
        | special s => exact stops_fail ht

variable (os) in
/-- A parent that is no real directory ends the write before it begins. -/
theorem requireRealParents_refuses {relative : RelPath} (hne : relative ≠ [])
    (hlink : ¬ Clear d.tree (placeOf relative).tail) :
    ∃ report d', requireRealParents os [] relative d = .failed report d' ∧ d'.tree = d.tree := by
  have hstops : (requireRealParents os [] relative d).Stops (fun d' => d'.tree = d.tree)
      (fun _ => False) := requireRealParents_stops relative []
  cases h : requireRealParents os [] relative d with
  | done u d' =>
    have hclear := (requireRealParents_clear hne d.tree.root_dir h).2
    rw [List.append_nil] at hclear
    exact absurd hclear hlink
  | failed report d' =>
    rw [h] at hstops
    exact ⟨report,d',rfl,hstops⟩
  | hangs d' =>
    rw [h] at hstops
    exact hstops.elim

variable (os d) in
theorem unlessDir_answers (place : Place FileName) (e : Errno) :
    ∃ r d', (unlessDir os place e : Fs ε _) d = .done r d' := by
  obtain ⟨r,d₁,hr⟩ := query_answers os d (ε := ε)
    (fun t => .ok (t.isDir place))
  simp only [unlessDir,bind_of_done hr]
  cases r with
  | error e' => exact ⟨_,d₁,rfl⟩
  | ok isDir => cases isDir <;> exact ⟨_,d₁,rfl⟩

theorem createDirAll_answers (dir : Place FileName) :
    ∃ r d', (createDirAll os dir : Fs ε _) d = .done r d' := by
  induction dir generalizing d with
  | nil => exact ⟨_,d,rfl⟩
  | cons n dir ih =>
    obtain ⟨r,d₁,hr⟩ := change_answers os d (ε := ε) (fun t => t.mkdir (n :: dir))
    simp only [createDirAll,bind_of_done hr]
    rcases change_done hr with ⟨rfl,-⟩ | ⟨e,rfl,-⟩
    · exact ⟨_,d₁,rfl⟩
    · by_cases he : e = .walk .notFound
      · subst he
        obtain ⟨r₂,d₂,hall⟩ := ih (d := d₁)
        simp only [bind_of_done hall]
        cases r₂ with
        | error e => exact ⟨_,d₂,rfl⟩
        | ok _ =>
          obtain ⟨r₃,d₃,hmk⟩ := change_answers os d₂ (ε := ε)
            (fun t => t.mkdir (n :: dir))
          simp only [bind_of_done hmk]
          rcases change_done hmk with ⟨rfl,-⟩ | ⟨e',rfl,-⟩
          · exact ⟨_,d₃,rfl⟩
          · exact unlessDir_answers os _ (n :: dir) e'
      · simpa [he] using unlessDir_answers os d₁ (ε := ε) (n :: dir) e

/-- The directories made before one could not be made stay. -/
theorem createParents_stops {relative : Place FileName} (hc : Clear d.tree relative.tail) :
    (createParents os relative d).Stops (fun d' => Grows d.tree d'.tree relative.tail) waiting := by
  rw [createParents]
  cases hparent : relative.tail with
  | nil => trivial
  | cons n dir =>
    rw [hparent] at hc
    refine stops_bind (stops_of_done (createDirAll_answers _)) (fun r d' hall => ?_)
    exact orFail_stops (createDirAll_grows hc hall)

variable {δ : Type} [DecidableEq δ] {sha : Bytes → δ}

variable (os d) in
theorem requireRegular_answers (file : Place FileName) :
    ∃ found d', (requireRegular os file : Fs ε _) d = .done found d' := by
  obtain ⟨r,d₁,hr⟩ := query_answers os d (ε := ε) (fun t => .ok (t.node file))
  simp only [requireRegular,bind_of_done hr]
  split
  · exact ⟨_,d₁,rfl⟩
  · exact ⟨_,d₁,rfl⟩
  · exact ⟨_,d₁,rfl⟩

theorem compareDigest_answers (file : Place FileName) (bytes : Bytes) :
    ∃ found d', (compareDigest sha os file bytes : Fs ε _) d = .done found d' := by
  obtain ⟨r,d₁,hr⟩ := query_answers os d (ε := ε)
    (fun t => .ok (sha (contentsOf t file)))
  simp only [compareDigest,bind_of_done hr]
  cases r with
  | error e => exact ⟨_,d₁,rfl⟩
  | ok digest => exact ⟨_,d₁,rfl⟩

variable (sha) in
/-- Only the opening of the destination can keep the look at it waiting. -/
theorem inspectDestination_answers {relative : Place FileName} (bytes : Bytes)
    {r : Except Errno (Place FileName)} {d₁ : Disk}
    (hopen : (callOpen os relative : Fs ε _) d = .done r d₁) :
    ∃ found d', (inspectDestination sha os relative bytes : Fs ε _) d = .done found d' := by
  simp only [inspectDestination,bind_of_done hopen]
  cases r with
  | error e =>
    by_cases he : e = .walk .notFound
    · subst he
      exact ⟨_,d₁,rfl⟩
    · exact ⟨.unreadable e,d₁,by simp; rfl⟩
  | ok file =>
    obtain ⟨verdict,d₂,hreg⟩ := requireRegular_answers os d₁ (ε := ε) file
    simp only [bind_of_done hreg]
    cases verdict with
    | some found => exact ⟨_,d₂,rfl⟩
    | none => exact compareDigest_answers file bytes

theorem inspectDestination_stops (relative : Place FileName) (bytes : Bytes) :
    ((inspectDestination sha os relative bytes : Fs ε _) d).Stops left
      (fun d' => d'.tree = d.tree) := by
  have hopen : ((callOpen os relative : Fs ε _) d).Stops left (fun d' => d'.tree = d.tree) :=
    callOpen_stops relative
  cases h : (callOpen os relative : Fs ε _) d with
  | done r d₁ => exact stops_of_done (inspectDestination_answers sha bytes h)
  | failed e d₁ => exact stops_bind (h ▸ hopen) (fun r d₂ hr => by simp [h] at hr)
  | hangs d₁ => exact stops_bind (h ▸ hopen) (fun r d₂ hr => by simp [h] at hr)

/-! ### The temporary file -/

theorem createTempAttempt_stops (dir : Place FileName) (attempts : Nat) :
    (createTempAttempt os dir attempts d).Stops (fun d' => d'.tree = d.tree) waiting := by
  induction attempts generalizing d with
  | zero => exact stops_fail rfl
  | succ attempts ih =>
    refine stops_bind trivial (fun candidate d₁ hcand => ?_)
    simp only [Outcome.done.injEq] at hcand
    obtain ⟨-,rfl⟩ := hcand
    refine stops_bind (stops_of_done (call_answers os d _)) (fun r d₂ hr => ?_)
    rcases call_done hr with ⟨code,rfl,ht⟩ | ⟨e,-,rfl,ht⟩ | ⟨a,-,rfl⟩
    · exact stops_fail ht
    · by_cases he : e = .alreadyExists
      · subst he
        exact ih.mono (fun d' h => h.trans ht) (fun _ h => h)
      · have hfail : ((Prog.fail (.cannotCreateTemp dir e) :
          Fs Report (Place FileName × Place FileName)) d₂).Stops (fun d' => d'.tree = d.tree)
            waiting := stops_fail ht
        simpa [he] using hfail
    · trivial

/-- Only the file at `temp` differs, and it is still a file. -/
def Confined (t t' : Tree) (temp : Place FileName) : Prop :=
  OnlyAt t t' temp ∧ ∃ data, t'.node temp = some (.file data)

theorem callWrite_confined {temp : Place FileName} {data : FileData} (bytes : Bytes)
    (hfile : d.tree.node temp = some (.file data)) :
    ∃ r d', (callWrite os temp bytes : Fs ε _) d = .done r d' ∧ Confined d.tree d'.tree temp := by
  simp only [callWrite]
  split
  · exact ⟨_,_,rfl,modify_onlyAt _ _,_,modify_node _ hfile⟩
  · exact ⟨_,_,rfl,modify_onlyAt _ _,_,modify_node _ hfile⟩

theorem setMode_stops (file destination : Place FileName) (mode : Nat) :
    (setMode os file destination mode d).Stops (fun d' => d'.tree = d.tree) waiting :=
  change_orFail_stops (fun _ h => h)

theorem applyOwner_stops (file destination : Place FileName) (owner : Owner) :
    (applyOwner os file destination owner d).Stops (fun d' => d'.tree = d.tree) waiting := by
  refine stops_bind (stops_of_done (query_answers os d _)) (fun r d₁ hr => ?_)
  have ht := (query_done hr).1
  refine stops_bind (orFail_stops ht) (fun current d₂ hcur => ?_)
  obtain ⟨-,rfl⟩ := orFail_done hcur
  split
  · trivial
  · exact change_orFail_stops (fun d' h => h.trans ht)

theorem fillTemp_stops {owner : Owner} {destination temp : Place FileName} {mode : Nat}
    {bytes : Bytes} {data : FileData} (hfile : d.tree.node temp = some (.file data)) :
    (fillTemp os owner destination mode bytes temp d).Stops
      (fun d' => Confined d.tree d'.tree temp) waiting := by
  obtain ⟨r,d₁,hwrite,honly,written,hwritten⟩ :=
    callWrite_confined (ε := Report) bytes hfile
  refine stops_bind (stops_of_done ⟨r,d₁,hwrite⟩) (fun r' d₁' hr => ?_)
  rw [hwrite,Outcome.done.injEq] at hr
  obtain ⟨rfl,rfl⟩ := hr
  refine stops_bind (orFail_stops ⟨honly,written,hwritten⟩) (fun _ d₂ hok => ?_)
  obtain ⟨-,rfl⟩ := orFail_done hok
  refine stops_bind ((setMode_stops temp destination mode).mono (fun d' ht => ?_) (fun _ h => h))
    (fun _ d₃ hmode => ?_)
  · rw [ht]
    exact ⟨honly,written,hwritten⟩
  · obtain ⟨hnode,hothers⟩ := setMode_done hwritten hmode
    refine (applyOwner_stops temp destination owner).mono (fun d' ht => ?_) (fun _ h => h)
    rw [ht]
    exact ⟨honly.trans hothers,_,hnode⟩

/-- Until it is moved the file stays what it is; a move that fails moves nothing. -/
theorem fillAndPlace_stops {owner : Owner} {relative temp : Place FileName} {mode : Nat}
    {bytes : Bytes} {data : FileData} (hfile : d.tree.node temp = some (.file data)) :
    (fillAndPlace os owner relative mode bytes temp temp d).Stops
      (fun d' => Confined d.tree d'.tree temp) waiting := by
  refine stops_bind (fillTemp_stops hfile) (fun _ d₁ hfill => ?_)
  obtain ⟨hnode,honly⟩ := fillTemp_done hfile hfill
  refine change_orFail_stops (fun d' ht => ?_)
  rw [ht]
  exact ⟨honly,_,hnode⟩

theorem unlink_file {n : FileName} {dir : Place FileName} {t : Tree} {data : FileData}
    (hfile : t.node (n :: dir) = some (.file data)) :
    ∃ t', t.unlink (n :: dir) = .ok t' ∧
      ∀ q, t'.node q = if q = n :: dir then none else t.node q := by
  have hdir := t.parent_dir n dir _ hfile
  have hold : t.node (n :: dir) ≠ some .dir := by simp [hfile]
  refine ⟨t.erase n dir hold,?_,fun q => rfl⟩
  simp only [Tree.unlink,locateDir_dir hdir,hfile,reduceCtorEq,if_false,Option.some.injEq,
    dif_neg,not_false_eq_true]

variable (os) in
/-- A file that is there goes unless the call fails for a reason of its own. -/
theorem discardTemp_file {n : FileName} {dir : Place FileName} {data : FileData}
    (hfile : d.tree.node (n :: dir) = some (.file data)) :
    ∃ d', discardTemp os (n :: dir) d = .done () d' ∧
      ((∃ code, os.fault d.clock = some code ∧ d'.tree = d.tree) ∨
        ∀ q, d'.tree.node q = if q = n :: dir then none else d.tree.node q) := by
  cases hf : os.fault d.clock with
  | some code =>
    have hcall : (change os (fun t => t.unlink (n :: dir)) : Fs Report _) d =
        .done (.error (.other code)) ⟨d.tree,d.clock+1⟩ := by simp [change,call,hf]
    refine ⟨⟨d.tree,d.clock+1⟩,?_,.inl ⟨code,rfl,rfl⟩⟩
    rw [discardTemp,bind_of_done hcall]
    rfl
  | none =>
    obtain ⟨t',hunlink,hnode⟩ := unlink_file hfile
    have hcall : (change os (fun t => t.unlink (n :: dir)) : Fs Report _) d =
        .done (.ok ()) ⟨t',d.clock+1⟩ := by simp [change,call,hf,hunlink,Except.map]
    refine ⟨⟨t',d.clock+1⟩,?_,.inr hnode⟩
    rw [discardTemp,bind_of_done hcall]
    rfl

section GivenUp
variable (os : Os) (owner : Owner) (place : Place FileName) (mode : Nat) (bytes : Bytes) (t : Tree)

/-- The temporary file was made, filling or moving it failed, and so did the call that
removes it. -/
def RemovalFailed (temp : Place FileName) (d' : Disk) : Prop :=
  ∃ d₁ d₂ d₃ d₄ report code, d₁.tree = t ∧ createParents os place d₁ = .done () d₂ ∧
    createTempBeside os place d₂ = .done (temp,temp) d₃ ∧
    fillAndPlace os owner place mode bytes temp temp d₃ = .failed report d₄ ∧
    os.fault d₄.clock = some code ∧ discardTemp os temp d₄ = .done () d'

/-- A new file beside `place` is left. -/
structure LeavesTemp (temp : Place FileName) (d' : Disk) : Prop where
  fresh : t.node temp = none
  beside : temp.tail = place.tail
  removal : RemovalFailed os owner place mode bytes t temp d'
  others : ∀ q, q ≠ temp → d'.tree.node q = t.node q ∨
    (t.node q = none ∧ d'.tree.node q = some .dir ∧ q <:+ place.tail)

/-- What a write that was given up leaves: directories that were missing above the
destination, and perhaps the temporary file. -/
def GivenUp (d' : Disk) : Prop :=
  Grows t d'.tree place.tail ∨ ∃ temp, LeavesTemp os owner place mode bytes t temp d'

end GivenUp

theorem discardOnError_stops {owner : Owner} {n m : FileName} {dir : Place FileName} {mode : Nat}
    {bytes : Bytes} {d₁ d₂ d₃ : Disk} (hc : Clear d₁.tree dir)
    (hparents : createParents os (n :: dir) d₁ = .done () d₂)
    (htemp : createTempBeside os (n :: dir) d₂ = .done (m :: dir,m :: dir) d₃) :
    (discardOnError os (m :: dir)
      (fillAndPlace os owner (n :: dir) mode bytes (m :: dir) (m :: dir)) d₃).Stops
      (GivenUp os owner (n :: dir) mode bytes d₁.tree) (fun _ => False) := by
  have hgrow : Grows d₁.tree d₂.tree dir := createParents_grows hc hparents
  obtain ⟨-,-,-,hfree,⟨data,hdata⟩,honly⟩ := createTempAttempt_done (hgrow.clear hc) htemp
  have hplaced : (fillAndPlace os owner (n :: dir) mode bytes (m :: dir) (m :: dir) d₃).Stops
      (fun d' => Confined d₃.tree d'.tree (m :: dir)) (fun _ => False) := fillAndPlace_stops hdata
  cases h : fillAndPlace os owner (n :: dir) mode bytes (m :: dir) (m :: dir) d₃ with
  | done u d₄ =>
    simp only [discardOnError,h]
    trivial
  | hangs d₄ =>
    rw [h] at hplaced
    exact hplaced.elim
  | failed report d₄ =>
    rw [h] at hplaced
    obtain ⟨hconfined,written,hfile⟩ := hplaced
    obtain ⟨d',hdiscard,hgone⟩ := discardTemp_file os hfile
    have hothers : ∀ q, q ≠ m :: dir → d₄.tree.node q = d₂.tree.node q :=
      fun q hq => (hconfined q hq).trans (honly q hq)
    simp only [discardOnError,h,hdiscard]
    rcases hgone with ⟨code,hfault,ht⟩ | hgone
    · refine .inr ⟨m :: dir,?_,rfl,⟨d₁,d₂,d₃,d₄,report,code,rfl,hparents,htemp,h,hfault,hdiscard⟩,?_⟩
      · rcases hgrow (m :: dir) with he | ⟨hnone,-,-⟩
        · exact he ▸ hfree
        · exact hnone
      · intro q hq
        rw [ht,hothers q hq]
        exact hgrow q
    · -- The temporary file's name was free before and is free again.
      refine .inl fun q => ?_
      have hq : d'.tree.node q = d₂.tree.node q := by
        rw [hgone q]
        by_cases hqm : q = m :: dir
        · rw [if_pos hqm,hqm,hfree]
        · rw [if_neg hqm,hothers q hqm]
      rw [hq]
      exact hgrow q

theorem writeAfresh_stops {owner : Owner} {n : FileName} {dir : Place FileName} {mode : Nat}
    {bytes : Bytes} (hc : Clear d.tree dir) :
    (writeAfresh os owner (n :: dir) mode bytes d).Stops
      (GivenUp os owner (n :: dir) mode bytes d.tree) (fun _ => False) := by
  refine stops_bind ((createParents_stops hc).mono (fun _ h => .inl h) (fun _ h => h))
    (fun _ d₁ hparents => ?_)
  have hgrow : Grows d.tree d₁.tree dir := createParents_grows hc hparents
  refine stops_bind ((createTempAttempt_stops _ _).mono (fun d' ht => .inl ?_) (fun _ h => h))
    (fun temp d₂ htemp => ?_)
  · rw [ht]
    exact hgrow
  · obtain ⟨file,candidate⟩ := temp
    obtain ⟨rfl,⟨m,rfl⟩,-⟩ := createTempAttempt_done (hgrow.clear hc) htemp
    exact discardOnError_stops hc hparents htemp

/-! ### The whole write -/

/-- The file that was there has kept its bytes and its owner. -/
def SameFile (t t' : Tree) (place : Place FileName) (mode : Nat) : Prop :=
  OnlyAt t t' place ∧ ∃ data, t.node place = some (.file data) ∧
    (t'.node place = some (.file data) ∨ t'.node place = some (.file { data with mode }))

theorem repairExisting_stops {owner : Owner} {relative existing : Place FileName} {mode : Nat}
    {data : FileData} (hfile : d.tree.node existing = some (.file data)) :
    (repairExisting os owner relative mode existing d).Stops
      (fun d' => SameFile d.tree d'.tree existing mode) (fun _ => False) := by
  refine stops_bind ((setMode_stops existing relative mode).mono (fun d' ht => ?_) (fun _ h => h))
    (fun _ d₁ hmode => ?_)
  · rw [ht]
    exact ⟨fun _ _ => rfl,data,hfile,.inl hfile⟩
  · obtain ⟨hnode,honly⟩ := setMode_done hfile hmode
    refine (applyOwner_stops existing relative owner).mono (fun d' ht => ?_) (fun _ h => h)
    rw [ht]
    exact ⟨honly,data,hfile,.inr hnode⟩

variable (os d sha) in
/-- A write fails having been given up or while it repairs the file that was there; it waits
only before it changes anything. -/
theorem writeFile_stops {file : PlannedFile} (owner : Owner) (bytes : Bytes)
    (hne : file.relative ≠ []) :
    (writeFile sha os owner file bytes d).Stops
      (fun d' => GivenUp os owner (placeOf file.relative) file.mode bytes d.tree d' ∨
        ∃ old, d.tree.node (placeOf file.relative) = some (.file old) ∧ sha old.bytes = sha bytes ∧
          SameFile d.tree d'.tree (placeOf file.relative) file.mode)
      (fun d' => d'.tree = d.tree) := by
  refine stops_bind ((requireRealParents_stops _ _).mono (fun d' ht => .inl (.inl ?_))
    (fun _ h => h)) (fun _ d₁ hparents => ?_)
  · exact Grows.of_eq ht
  obtain ⟨ht,hclear⟩ := requireRealParents_clear hne d.tree.root_dir hparents
  obtain ⟨n,dir,hplace⟩ : ∃ n dir, placeOf file.relative = n :: dir :=
    List.exists_cons_of_ne_nil (by simpa [placeOf] using hne)
  rw [List.append_nil,hplace,List.tail_cons] at hclear
  rw [hplace]
  refine stops_bind ((inspectDestination_stops (n :: dir) bytes).mono (fun _ h => h)
    (fun d' h => h.trans ht)) (fun found d₂ hinspect => ?_)
  obtain ⟨ht₂,hident⟩ := inspectDestination_done (ht ▸ hclear) hinspect
  have hafresh : (writeAfresh os owner (n :: dir) file.mode bytes d₂).Stops
      (fun d' => GivenUp os owner (n :: dir) file.mode bytes d.tree d' ∨
        ∃ old, d.tree.node (n :: dir) = some (.file old) ∧ sha old.bytes = sha bytes ∧
          SameFile d.tree d'.tree (n :: dir) file.mode) (fun d' => d'.tree = d.tree) := by
    rw [← ht,← ht₂] at hclear ⊢
    exact (writeAfresh_stops hclear).mono (fun d' h => .inl h) (fun _ h => h.elim)
  cases found with
  | identical existing =>
    obtain ⟨rfl,old,hold,hsha⟩ := hident existing rfl
    refine (repairExisting_stops (ht₂ ▸ hold)).mono (fun d' h => .inr ?_) (fun _ h => h.elim)
    rw [ht₂,ht] at h
    rw [ht] at hold
    exact ⟨old,hold,hsha,h⟩
  | absent => exact hafresh
  | notRegular => exact hafresh
  | different => exact hafresh
  | unreadable e => exact hafresh

section Claim
variable (sha : Bytes → δ) (os : Os) (owner : Owner) (d : Disk) (file : PlannedFile)
  (bytes : Bytes)

/-- The destination once the write has ended, and the place whose removal may have failed. -/
inductive Destined (place : Place FileName) (d' : Disk) : Prop where
  | untouched (h : d'.tree.node place = d.tree.node place)
  | replaced (h : d'.tree.node place = some (.file ⟨bytes,file.mode,owner⟩))
  /-- The regular file that was there and hashed like the planned bytes. -/
  | repaired (old : FileData) (hold : d.tree.node place = some (.file old))
      (hsha : sha old.bytes = sha bytes) (left : Owner) (hleft : left = old.owner ∨ left = owner)
      (h : d'.tree.node place = some (.file ⟨old.bytes,file.mode,left⟩))
  /-- The temporary file happened to be given the destination's own name. -/
  | leftover (hfree : d.tree.node place = none)
      (h : RemovalFailed os owner place file.mode bytes d.tree place d')

/-- However the write of one file ends. -/
structure WritesWithin : Prop where
  destination : Destined sha os owner d file bytes (placeOf file.relative)
    (writeFile sha os owner file bytes d).state
  elsewhere : ∀ q, q ≠ placeOf file.relative →
    (writeFile sha os owner file bytes d).state.tree.node q = d.tree.node q ∨
    (d.tree.node q = none ∧ q <:+ placeOf file.relative ∧
      (writeFile sha os owner file bytes d).state.tree.node q = some .dir) ∨
    (d.tree.node q = none ∧ q.tail = (placeOf file.relative).tail ∧
      RemovalFailed os owner (placeOf file.relative) file.mode bytes d.tree q
        (writeFile sha os owner file bytes d).state)
  /-- With a link or anything else but a directory among the parents nothing is written. -/
  parents : ¬ Clear d.tree (placeOf file.relative).tail →
    ∃ report d', writeFile sha os owner file bytes d = .failed report d' ∧ d'.tree = d.tree
  /-- A write that finishes leaves no temporary file, and no link at the destination. -/
  finished : ∀ d', writeFile sha os owner file bytes d = .done () d' →
    Framed d.tree d'.tree (placeOf file.relative) ∧
      ∀ target, d.tree.node (placeOf file.relative) = some (.symlink target) →
        d'.tree.node (placeOf file.relative) = some (.file ⟨bytes,file.mode,owner⟩)

variable {sha os owner d file bytes}

omit [DecidableEq δ] in
theorem GivenUp.destined {place : Place FileName} {d' : Disk} (h : GivenUp os owner place file.mode bytes d.tree d')
    (hne : place ≠ []) : Destined sha os owner d file bytes place d' := by
  have hshort : ¬ place <:+ place.tail := by
    intro hs
    have hlen := hs.length_le
    have hpos := List.length_pos_of_ne_nil hne
    rw [List.length_tail] at hlen
    omega
  rcases h with hgrow | ⟨temp,hleft⟩
  · rcases hgrow place with he | ⟨-,-,hs⟩
    · exact .untouched he
    · exact absurd hs hshort
  · by_cases htemp : place = temp
    · rw [← htemp] at hleft
      exact .leftover hleft.fresh hleft.removal
    · rcases hleft.others place htemp with he | ⟨-,-,hs⟩
      · exact .untouched he
      · exact absurd hs hshort

theorem GivenUp.elsewhere {place : Place FileName} {d' : Disk} (h : GivenUp os owner place file.mode bytes d.tree d')
    (q : Place FileName) :
    d'.tree.node q = d.tree.node q ∨
    (d.tree.node q = none ∧ q <:+ place ∧ d'.tree.node q = some .dir) ∨
    (d.tree.node q = none ∧ q.tail = place.tail ∧
      RemovalFailed os owner place file.mode bytes d.tree q d') := by
  rcases h with hgrow | ⟨temp,hleft⟩
  · rcases hgrow q with he | ⟨hnone,hdir,hs⟩
    · exact .inl he
    · exact .inr (.inl ⟨hnone,hs.trans (List.tail_suffix place),hdir⟩)
  · by_cases htemp : q = temp
    · rw [← htemp] at hleft
      exact .inr (.inr ⟨hleft.fresh,hleft.beside,hleft.removal⟩)
    · rcases hleft.others q htemp with he | ⟨hnone,hdir,hs⟩
      · exact .inl he
      · exact .inr (.inl ⟨hnone,hs.trans (List.tail_suffix place),hdir⟩)

omit [DecidableEq δ] in
theorem Written.destined {place : Place FileName} {d' : Disk}
    (h : Written sha d.tree d'.tree place file.mode owner bytes) :
    Destined sha os owner d file bytes place d' := by
  obtain ⟨⟨contents,mode,left⟩,hnode,rfl,rfl,rfl | ⟨old,hold,rfl,hsha⟩⟩ := h
  · exact .replaced hnode
  · exact .repaired old hold hsha left (.inr rfl) hnode

omit [DecidableEq δ] in
theorem SameFile.destined {place : Place FileName} {old : FileData} {d' : Disk}
    (h : SameFile d.tree d'.tree place file.mode) (hold : d.tree.node place = some (.file old))
    (hsha : sha old.bytes = sha bytes) : Destined sha os owner d file bytes place d' := by
  obtain ⟨-,data,hdata,hnode | hnode⟩ := h
  · exact .untouched (hnode.trans hdata.symm)
  · rw [hold,Option.some.injEq,Node.file.injEq] at hdata
    subst hdata
    exact .repaired old hold hsha old.owner (.inl rfl) hnode

variable (sha os owner d file bytes)

theorem writeFile_within (hne : file.relative ≠ []) : WritesWithin sha os owner d file bytes := by
  have hplace : placeOf file.relative ≠ [] := by simpa [placeOf] using hne
  have hstops := writeFile_stops os d sha owner bytes hne
  refine ⟨?_,fun q hq => ?_,fun hlink => ?_,fun d' hdone => ?_⟩
  · cases h : writeFile sha os owner file bytes d with
    | done u d' => exact (writeFile_done hne h).1.destined
    | failed report d' =>
      rw [h] at hstops
      rcases hstops with hup | ⟨old,hold,hsha,hsame⟩
      · exact hup.destined hplace
      · exact hsame.destined hold hsha
    | hangs d' =>
      rw [h] at hstops
      exact .untouched (congrArg (fun t : Tree => t.node (placeOf file.relative)) hstops)
  · cases h : writeFile sha os owner file bytes d with
    | done u d' =>
      rcases (writeFile_done hne h).2 q hq with he | ⟨hnone,hdir,hs⟩
      · exact .inl he
      · exact .inr (.inl ⟨hnone,hs,hdir⟩)
    | failed report d' =>
      rw [h] at hstops
      rcases hstops with hup | ⟨old,-,-,hsame⟩
      · exact hup.elsewhere q
      · exact .inl (hsame.1 q hq)
    | hangs d' =>
      rw [h] at hstops
      exact .inl (congrArg (fun t : Tree => t.node q) hstops)
  · obtain ⟨report,d',hrefused,ht⟩ := requireRealParents_refuses os hne hlink
    exact ⟨report,d',bind_of_failed hrefused,ht⟩
  · obtain ⟨⟨data,hnode,hmode,howner,hbytes⟩,hframe⟩ := writeFile_done hne hdone
    refine ⟨hframe,fun target hlink => ?_⟩
    rcases hbytes with hbytes | ⟨old,hold,-,-⟩
    · rw [hnode,← hmode,← howner,← hbytes]
    · simp [hlink] at hold

end Claim

theorem writeFile_within_vector :
    WritesWithin id quietOs ⟨1000,1000⟩ emptyDisk ⟨vectorPath,0o755⟩ [1,2] :=
  writeFile_within id quietOs ⟨1000,1000⟩ emptyDisk ⟨vectorPath,0o755⟩ [1,2]
    (by decide : vectorPath ≠ [])

end PgEmbedSetup.Extensions
