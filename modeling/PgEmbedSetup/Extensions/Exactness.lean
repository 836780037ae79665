import Mathlib.Data.Set.Function
import PgEmbedSetup.Extensions.Placement

set_option autoImplicit false

/-!
The two passes together: what is in the tree after an archive has been planned and written.
-/

namespace PgEmbedSetup.Extensions
open Library

/-! ### Matching entries with the plan -/

/-- The last of the entries, whatever its kind, whose path leads to `relative`. -/
def lastOf (entries : List Entry) (relative : RelPath) : Option Entry :=
  entries.reverse.find? (fun entry => entry.relative = some relative)

def Archive.lastAt (archive : Archive) (relative : RelPath) : Option Entry :=
  lastOf archive.entries relative

theorem lastOf_append (seen : List Entry) (entry : Entry) (relative : RelPath) :
    lastOf (seen ++ [entry]) relative =
      if entry.relative = some relative then some entry else lastOf seen relative := by
  by_cases h : entry.relative = some relative <;> simp [lastOf,h]

theorem lastOf_mem {entries : List Entry} {relative : RelPath} {entry : Entry}
    (h : lastOf entries relative = some entry) : entry ∈ entries := by
  simpa using List.mem_of_find?_eq_some h

theorem lastOf_isSome {entries : List Entry} {relative : RelPath} {entry : Entry}
    (hmem : entry ∈ entries) (h : entry.relative = some relative) :
    ∃ last, lastOf entries relative = some last := by
  rw [← Option.isSome_iff_exists,lastOf,List.find?_isSome]
  exact ⟨entry,by simpa using hmem,by simpa using h⟩

theorem placeOf_injective {a b : RelPath} (h : placeOf a = placeOf b) : a = b := by
  have hmap := List.map_injective_iff.mpr (fun _ _ hn => FileName.text.inj hn) h
  exact List.reverse_injective hmap

theorem matchPlanned_some {planned : List PlannedFile} {entry : Entry} {file : PlannedFile}
    (h : matchPlanned planned entry = some file) :
    file ∈ planned ∧ entry.relative = some file.relative := by
  simp only [matchPlanned] at h
  split at h
  · simp at h
  · rename_i relative hrel
    have hfile : file.relative = relative := by simpa using List.find?_some h
    exact ⟨List.mem_of_find?_eq_some h,by rw [hfile]; exact hrel⟩

theorem matchPlanned_none {planned : List PlannedFile} {entry : Entry} {file : PlannedFile}
    (h : matchPlanned planned entry = none) (hfile : file ∈ planned) :
    entry.relative ≠ some file.relative := by
  intro hrel
  simp only [matchPlanned,show classifyEntryPath entry.pathBytesLossyPath = some file.relative
    from hrel] at h
  exact absurd (List.find?_eq_none.mp h file hfile) (by simp)

/-- Within the limit the whole entry is read. -/
theorem readEntryBounded_ok {entry : Entry} {relative : RelPath} {budget left : Nat}
    {contents : Bytes} (h : readEntryBounded entry relative budget = .ok (contents,left)) :
    contents = entry.data := by
  simp only [readEntryBounded] at h
  split at h
  · simp at h
  · split at h
    · simp at h
    · rename_i hlimit
      simp only [Except.ok.injEq,Prod.mk.injEq] at h
      rw [← h.1]
      have hcap : min entryDecompressedCap budget ≤ 64*1024*1024 := min_le_left _ _
      simp only [List.length_take,saturatingAdd,u64Max,gt_iff_lt,not_lt] at hlimit ⊢
      exact List.take_of_length_le (by omega)

/-! ### What holds while the entries are written -/

/-- The contents there are: those of the tree at the start and those in the archive. -/
def Contents (start : Tree) (entries : List Entry) : Set Bytes :=
  {bytes | (∃ entry ∈ entries, bytes = entry.data) ∨
    ∃ p data, start.node p = some (.file data) ∧ bytes = data.bytes}

/-- The tree once the entries `seen` have been gone through. -/
structure Installed (planned : List PlannedFile) (start : Tree) (seen : List Entry)
    (t : Tree) : Prop where
  bytes : ∀ file ∈ planned, ∀ last, lastOf seen file.relative = some last →
    ∃ data, t.node (placeOf file.relative) = some (.file data) ∧
      data.mode = modeFor file.relative ∧ data.bytes = last.data
  frame : ∀ p, t.node p = start.node p ∨
    (∃ file ∈ planned, ∃ last, lastOf seen file.relative = some last ∧
      p = placeOf file.relative) ∨
    (start.node p = none ∧ t.node p = some .dir ∧ ∃ file ∈ planned, p <:+ placeOf file.relative)

theorem installed_start (planned : List PlannedFile) (start : Tree) :
    Installed planned start [] start :=
  ⟨fun file _ last h => by simp [lastOf] at h,fun p => .inl rfl⟩

/-- No file holds bytes from anywhere else. -/
theorem Installed.contents {planned : List PlannedFile} {start t : Tree} {seen : List Entry}
    {p : Place FileName} {data : FileData} (h : Installed planned start seen t)
    (hp : t.node p = some (.file data)) : data.bytes ∈ Contents start seen := by
  rcases h.frame p with he | ⟨file,hfile,last,hlast,rfl⟩ | ⟨-,hdir,-⟩
  · exact .inr ⟨p,data,he ▸ hp,rfl⟩
  · obtain ⟨data',hdata',-,hbytes⟩ := h.bytes file hfile last hlast
    rw [hp,Option.some.injEq,Node.file.injEq] at hdata'
    exact .inl ⟨last,lastOf_mem hlast,by rw [hdata',hbytes]⟩
  · simp [hp] at hdir

variable {δ : Type} {sha : Bytes → δ} {os : Os} {owner : Owner}
  {planned : List PlannedFile} {start t t' : Tree} {seen : List Entry}

/-- An entry the plan does not name changes nothing. -/
theorem Installed.skip {entry : Entry} (h : Installed planned start seen t)
    (hno : ∀ file ∈ planned, entry.relative ≠ some file.relative) :
    Installed planned start (seen ++ [entry]) t := by
  refine ⟨fun file hfile last hlast => ?_,fun p => ?_⟩
  · rw [lastOf_append,if_neg (hno file hfile)] at hlast
    exact h.bytes file hfile last hlast
  · rcases h.frame p with he | ⟨file,hfile,last,hlast,hp⟩ | hdir
    · exact .inl he
    · refine .inr (.inl ⟨file,hfile,last,?_,hp⟩)
      rw [lastOf_append,if_neg (hno file hfile)]
      exact hlast
    · exact .inr (.inr hdir)

theorem lastOf_append_some {last : Entry} {relative : RelPath}
    (h : lastOf seen relative = some last) (entry : Entry) :
    ∃ last, lastOf (seen ++ [entry]) relative = some last := by
  rw [lastOf_append]
  split
  · exact ⟨_,rfl⟩
  · exact ⟨_,h⟩

theorem Installed.write {entry : Entry} {file : PlannedFile} {all : List Entry}
    (h : Installed planned start seen t) (hfile : file ∈ planned)
    (hrel : entry.relative = some file.relative) (hmode : file.mode = modeFor file.relative)
    (hall : ∀ e ∈ seen ++ [entry], e ∈ all) (hsha : Set.InjOn sha (Contents start all))
    (hwritten : Written sha t t' (placeOf file.relative) file.mode owner entry.data)
    (hframe : Framed t t' (placeOf file.relative)) :
    Installed planned start (seen ++ [entry]) t' := by
  have hsub : ∀ bytes, bytes ∈ Contents start seen → bytes ∈ Contents start all := by
    rintro bytes (⟨e,he,hb⟩ | hold)
    · exact .inl ⟨e,hall e (by simp [he]),hb⟩
    · exact .inr hold
  refine ⟨fun other hother last hlast => ?_,fun p => ?_⟩
  · rw [lastOf_append] at hlast
    by_cases hsame : other.relative = file.relative
    · rw [hsame,if_pos hrel,Option.some.injEq] at hlast
      subst hlast
      obtain ⟨data,hnode,hm,-,hbytes⟩ := hwritten
      refine ⟨data,hsame ▸ hnode,by rw [hm,hmode,hsame],?_⟩
      rcases hbytes with hbytes | ⟨old,hold,hbytes,hhash⟩
      · exact hbytes
      · rw [hbytes]
        exact hsha (hsub _ (h.contents hold)) (.inl ⟨entry,hall entry (by simp),rfl⟩) hhash
    · rw [if_neg (fun he => hsame (Option.some.inj (he.symm.trans hrel)))] at hlast
      obtain ⟨data,hnode,hm,hbytes⟩ := h.bytes other hother last hlast
      refine ⟨data,?_,hm,hbytes⟩
      rcases hframe _ (fun he => hsame (placeOf_injective he)) with he | ⟨hnone,-,-⟩
      · rw [he,hnode]
      · simp [hnode] at hnone
  · by_cases hp : p = placeOf file.relative
    · refine .inr (.inl ⟨file,hfile,entry,?_,hp⟩)
      rw [lastOf_append,if_pos hrel]
    · rcases h.frame p with he | ⟨other,hother,last,hlast,hpo⟩ | ⟨hnone,hdir,hs⟩
      · rcases hframe p hp with he' | ⟨hnone,hdir,hs⟩
        · exact .inl (he'.trans he)
        · exact .inr (.inr ⟨he ▸ hnone,hdir,file,hfile,hs⟩)
      · obtain ⟨last',hlast'⟩ := lastOf_append_some hlast entry
        exact .inr (.inl ⟨other,hother,last',hlast',hpo⟩)
      · rcases hframe p hp with he' | ⟨hnone',-,-⟩
        · exact .inr (.inr ⟨hnone,he'.trans hdir,hs⟩)
        · simp [hdir] at hnone'

/-- What the planning pass guarantees of each planned file. -/
def PlanWellFormed (planned : List PlannedFile) : Prop :=
  ∀ file ∈ planned, file.relative ≠ [] ∧ file.mode = modeFor file.relative

variable [DecidableEq δ]

/-- A pass that finishes has passed its first entry over or written it. -/
theorem writeEntries_cons {budget : Nat} {written : List RelPath} {item : Option Entry}
    {rest : List (Option Entry)} {d d' : Disk}
    (hrun : writeEntries sha os owner planned budget written (item :: rest) d = .done () d') :
    ∃ entry, item = some entry ∧
      (matchPlanned planned entry = none ∧
          writeEntries sha os owner planned budget written rest d = .done () d' ∨
        ∃ file contents left d₁, matchPlanned planned entry = some file ∧
          readEntryBounded entry file.relative budget = .ok (contents,left) ∧
          writeFile sha os owner file contents d = .done () d₁ ∧
          writeEntries sha os owner planned left (written ++ [file.relative]) rest d₁ =
            .done () d') := by
  cases item with
  | none => exact absurd hrun fail_done
  | some entry =>
    refine ⟨entry,rfl,?_⟩
    rw [writeEntries] at hrun
    cases hmatch : matchPlanned planned entry with
    | none =>
      rw [hmatch] at hrun
      exact .inl ⟨rfl,hrun⟩
    | some file =>
      rw [hmatch] at hrun
      cases hread : readEntryBounded entry file.relative budget with
      | error detail =>
        simp only [hread] at hrun
        exact absurd hrun fail_done
      | ok read =>
        obtain ⟨contents,left⟩ := read
        simp only [hread] at hrun
        obtain ⟨_,d₁,hwrite,hrest⟩ := bind_done.mp hrun
        exact .inr ⟨file,contents,left,d₁,rfl,hread,mapError_done.mp hwrite,hrest⟩

theorem writeEntries_installed {budget : Nat} {written : List RelPath} {items : List (Option Entry)}
    {all : List Entry} {d d' : Disk} (hplanned : PlanWellFormed planned)
    (hsha : Set.InjOn sha (Contents start all)) (hall : seen ++ items.filterMap id = all)
    (h : Installed planned start seen d.tree)
    (hrun : writeEntries sha os owner planned budget written items d = .done () d') :
    Installed planned start all d'.tree := by
  induction items generalizing budget written seen d with
  | nil =>
    rw [← (pure_done.mp hrun).2,← hall]
    simpa using h
  | cons item rest ih =>
    obtain ⟨entry,rfl,⟨hmatch,hrest⟩ | ⟨file,contents,left,d₁,hmatch,hread,hwrite,hrest⟩⟩ :=
      writeEntries_cons hrun
    all_goals have hnext : (seen ++ [entry]) ++ rest.filterMap id = all := by simpa using hall
    · exact ih hnext (h.skip (fun file hfile => matchPlanned_none hmatch hfile)) hrest
    · obtain ⟨hfile,hrel⟩ := matchPlanned_some hmatch
      have hstep := writeFile_done (hplanned file hfile).1 hwrite
      rw [readEntryBounded_ok hread] at hstep
      refine ih hnext ?_ hrest
      refine h.write hfile hrel (hplanned file hfile).2 (fun e he => ?_) hsha hstep.1 hstep.2
      rw [← hnext]
      exact List.mem_append_left _ he

/-! ### The whole installation -/

theorem plan_wellFormed {archive : Archive} {manifestFiles : List Text}
    (h : plan archive manifestFiles = .ok planned) : PlanWellFormed planned := by
  intro file hfile
  obtain ⟨entry,-,hentry⟩ := (mem_plan h file).mp hfile
  simp only [Entry.planned,Option.ite_none_right_eq_some,Option.map_eq_some_iff] at hentry
  obtain ⟨-,relative,hrel,rfl⟩ := hentry
  refine ⟨?_,rfl⟩
  rintro rfl
  exact absurd (length_of_isAllowedLayout (classifyEntryPath_allowed hrel)) (by simp)

theorem writeAll_installed {archive : Archive} {manifestFiles : List Text} {root : InstallRoot}
    {d d' : Disk} (hplan : plan archive manifestFiles = .ok planned)
    (hsha : Set.InjOn sha (Contents d.tree archive.entries))
    (hrun : writeAll sha os root archive planned d = .done () d') :
    Installed planned d.tree archive.entries d'.tree := by
  rw [writeAll] at hrun
  cases howner : treeOwner root with
  | error e =>
    rw [howner] at hrun
    exact absurd hrun fail_done
  | ok owner =>
    cases hopen : openInstallTree root with
    | error e =>
      simp only [howner,hopen] at hrun
      exact absurd hrun fail_done
    | ok _ =>
      cases hopens : archive.opens with
      | false =>
        simp only [howner,hopen,hopens] at hrun
        exact absurd hrun fail_done
      | true =>
        simp only [howner,hopen,hopens] at hrun
        exact writeEntries_installed (plan_wellFormed hplan) hsha (by simp [Archive.entries])
          (installed_start planned d.tree) hrun

/-- The tree holds exactly the archive: each planned path its regular entry's bytes and its
mode, everything else what it held, and nothing is new but directories above planned paths. -/
structure WritesExactly (archive : Archive) (planned : List PlannedFile) (before after : Tree) :
    Prop where
  contents : ∀ entry ∈ archive.entries, ∀ file, entry.planned = some file →
    ∃ data, after.node (placeOf file.relative) = some (.file data) ∧ data.bytes = entry.data ∧
      data.mode = if file.relative.head? = some libDir then 0o755 else 0o644
  unchanged : ∀ p node, (∀ file ∈ planned, p ≠ placeOf file.relative) →
    before.node p = some node → after.node p = some node
  added : ∀ p node, (∀ file ∈ planned, p ≠ placeOf file.relative) → before.node p = none →
    after.node p = some node → node = .dir ∧ ∃ file ∈ planned, p <:+ placeOf file.relative

/-- For each regular entry, the last entry of any kind that leads to the same path carries
the same bytes. -/
def LastCopiesAgree (archive : Archive) : Prop :=
  ∀ entry ∈ archive.entries, ∀ file, entry.planned = some file →
    ∀ last, archive.lastAt file.relative = some last → last.data = entry.data

theorem Installed.unchanged {archive : Archive} {p : Place FileName} {node : Node}
    (h : Installed planned start archive.entries t)
    (hp : ∀ file ∈ planned, p ≠ placeOf file.relative) (hnode : start.node p = some node) :
    t.node p = some node := by
  rcases h.frame p with he | ⟨file,hfile,_,_,he⟩ | ⟨hnone,-,-⟩
  · rw [he,hnode]
  · exact absurd he (hp file hfile)
  · simp [hnode] at hnone

theorem Installed.added {archive : Archive} {p : Place FileName} {node : Node}
    (h : Installed planned start archive.entries t)
    (hp : ∀ file ∈ planned, p ≠ placeOf file.relative) (hnone : start.node p = none)
    (hnode : t.node p = some node) : node = .dir ∧ ∃ file ∈ planned, p <:+ placeOf file.relative := by
  rcases h.frame p with he | ⟨file,hfile,_,_,he⟩ | ⟨-,hdir,hs⟩
  · simp [he,hnone] at hnode
  · exact absurd he (hp file hfile)
  · rw [hdir,Option.some.injEq] at hnode
    exact ⟨hnode.symm,hs⟩

/-- The second pass matches entries by path alone, so of all entries that lead to a planned
path the last one wins, a directory entry included. -/
theorem writeAll_exact_iff (sha : Bytes → δ) (os : Os) (root : InstallRoot) (archive : Archive)
    (manifestFiles : List Text) (planned : List PlannedFile) (d d' : Disk)
    (hplan : plan archive manifestFiles = .ok planned)
    (hrun : writeAll sha os root archive planned d = .done () d')
    (hsha : Set.InjOn sha (Contents d.tree archive.entries)) :
    WritesExactly archive planned d.tree d'.tree ↔ LastCopiesAgree archive := by
  have hinst := writeAll_installed hplan hsha hrun
  have hplanned : ∀ entry ∈ archive.entries, ∀ file, entry.planned = some file →
      file ∈ planned ∧ entry.relative = some file.relative := by
    intro entry hentry file hfile
    refine ⟨(mem_plan hplan file).mpr ⟨entry,hentry,hfile⟩,?_⟩
    simp only [Entry.planned,Option.ite_none_right_eq_some,Option.map_eq_some_iff] at hfile
    obtain ⟨-,relative,hrel,rfl⟩ := hfile
    exact hrel
  constructor
  · intro hexact entry hentry file hfile last hlast
    obtain ⟨data,hnode,hbytes,-⟩ := hexact.contents entry hentry file hfile
    obtain ⟨data',hnode',-,hbytes'⟩ :=
      hinst.bytes file (hplanned entry hentry file hfile).1 last hlast
    rw [hnode,Option.some.injEq,Node.file.injEq] at hnode'
    rw [← hbytes,← hbytes',hnode']
  · intro hagree
    refine ⟨fun entry hentry file hfile => ?_,fun p node => hinst.unchanged,
      fun p node => hinst.added⟩
    obtain ⟨hmem,hrel⟩ := hplanned entry hentry file hfile
    obtain ⟨last,hlast⟩ := lastOf_isSome hentry hrel
    obtain ⟨data,hnode,hmode,hbytes⟩ := hinst.bytes file hmem last hlast
    exact ⟨data,hnode,hbytes.trans (hagree entry hentry file hfile last hlast),hmode⟩

/-! ### Two archives on an empty tree -/

def emptyTree : Tree where
  node p := if p = [] then some .dir else none
  root_dir := rfl
  parent_dir n p k h := by simp at h

def emptyDisk : Disk := ⟨emptyTree,0⟩

def quietOs : Os := ⟨fun _ => none,fun _ => "pg-embed.tmp".toList,fun _ => 0,⟨0,0⟩,0o644⟩

def sampleRoot : InstallRoot := ⟨.ok ⟨1000,1000⟩,.ok .dir,.ok ()⟩

def vectorPath : RelPath := [libDir,"vector.so".toList]

def vectorManifest : List Text := ["lib/vector.so".toList]

def vectorPlan : List PlannedFile := [⟨vectorPath,0o755⟩]

def vectorEntry : Entry := ⟨.regular,ascii "lib/vector.so",some 2,[1,2],true⟩

def vectorDirectory : Entry := ⟨.directory,ascii "lib/vector.so/",some 0,[],true⟩

def plainArchive : Archive := ⟨true,[some ⟨.directory,ascii "lib/",some 0,[],true⟩,some vectorEntry]⟩

/-- The same file followed by a directory entry of its name. -/
def shadowedArchive : Archive := ⟨true,[some vectorEntry,some vectorDirectory]⟩

theorem writeAll_exact_iff_plain :
    ∃ d', writeAll id quietOs sampleRoot plainArchive vectorPlan emptyDisk = .done () d' ∧
      WritesExactly plainArchive vectorPlan emptyTree d'.tree := by
  have hfinished : ((writeAll id quietOs sampleRoot plainArchive vectorPlan
      emptyDisk).finished).isSome = true := by decide +kernel
  obtain ⟨d',hd⟩ := Option.isSome_iff_exists.mp hfinished
  have hrun := exists_of_finished hd
  refine ⟨d',hrun,(writeAll_exact_iff id quietOs sampleRoot plainArchive vectorManifest vectorPlan
    emptyDisk d' (by decide) hrun (Set.injOn_id _)).mpr ?_⟩
  have hagree : ∀ entry ∈ plainArchive.entries, ∀ file ∈ entry.planned,
      ∀ last ∈ plainArchive.lastAt file.relative, last.data = entry.data := by decide
  exact fun entry hentry file hfile last hlast => hagree entry hentry file hfile last hlast

/-- Both passes accept the second archive, and the file ends up empty. -/
theorem writeAll_directory_overwrites :
    plan shadowedArchive vectorManifest = .ok vectorPlan ∧
      ∃ d', writeAll id quietOs sampleRoot shadowedArchive vectorPlan emptyDisk = .done () d' ∧
        d'.tree.node (placeOf vectorPath) = some (.file ⟨[],0o755,⟨1000,1000⟩⟩) ∧
        ¬ WritesExactly shadowedArchive vectorPlan emptyTree d'.tree := by
  refine ⟨by decide,?_⟩
  have hempty : ((writeAll id quietOs sampleRoot shadowedArchive vectorPlan
      emptyDisk).finished).bind (fun d => d.tree.node (placeOf vectorPath)) =
        some (.file ⟨[],0o755,⟨1000,1000⟩⟩) := by decide +kernel
  obtain ⟨d',hd,hnode⟩ := Option.bind_eq_some_iff.mp hempty
  refine ⟨d',exists_of_finished hd,hnode,fun hexact => ?_⟩
  obtain ⟨data,hdata,hbytes,-⟩ := hexact.contents vectorEntry (by decide) ⟨vectorPath,0o755⟩
    (by decide)
  rw [hnode,Option.some.injEq,Node.file.injEq] at hdata
  rw [← hdata] at hbytes
  simp [vectorEntry] at hbytes

end PgEmbedSetup.Extensions
