import PgEmbedSetup.Extensions.Acceptance
import PgEmbedSetup.Library.Logged

set_option autoImplicit false

/-!
How much the installer buffers and writes for one archive, and what its size accounting adds
and subtracts. The two passes are run with a record of these; erasing it gives the passes
themselves.
-/

namespace PgEmbedSetup.Extensions
open Library

inductive Effect where
  /-- An addition of the size accounting, by its operands. -/
  | added (a b : Nat)
  | subtracted (a b : Nat)
  /-- A read has put no more than so many bytes into its buffer. -/
  | buffered (bytes : Nat)
  /-- So many bytes have reached a file of the install tree. -/
  | wrote (bytes : Nat)
  deriving DecidableEq, Repr

abbrev Metered (σ ε α : Type) := Prog (Logged σ Effect) ε α

section Passes
variable {σ ε δ : Type} [DecidableEq δ]

/-! ### Pass one -/

def ofExcept {α : Type} : Except ε α → Prog σ ε α
  | .ok a => pure a
  | .error e => Prog.fail e

def checkDecompressedCapsMetered (relative : RelPath) (size declared : Nat) :
    Metered σ Invalid Nat :=
  if size > entryDecompressedCap then Prog.fail (.fileTooLarge relative size)
  else do
    Prog.record (.added declared size)
    let total := saturatingAdd declared size
    if total > archiveDecompressedCap then Prog.fail (.archiveTooLarge relative total)
    else pure total

def planEntriesMetered (seen : List RelPath) (declared : Nat) (files : List PlannedFile) :
    List (Option Entry) → Metered σ Invalid (List PlannedFile)
  | [] => pure files
  | none :: _ => Prog.fail .unreadableEntry
  | some entry :: rest =>
    match entry.size with
    | none => Prog.fail (.unreadableSize entry.pathBytesLossy)
    | some size =>
      match planEntry entry with
      | .error e => Prog.fail e
      | .ok none => planEntriesMetered seen declared files rest
      | .ok (some file) =>
        if file.relative ∈ seen then Prog.fail (.duplicate file.relative)
        else do
          let declared ← checkDecompressedCapsMetered file.relative size declared
          planEntriesMetered (file.relative :: seen) declared (files ++ [file]) rest

def sortedByPath (files : List PlannedFile) : List PlannedFile :=
  files.insertionSort (fun a b => RelPath.joined a.relative ≤ RelPath.joined b.relative)

def planMetered (archive : Archive) (manifestFiles : List Text) :
    Metered σ Invalid (List PlannedFile) :=
  if !archive.opens then Prog.fail .cannotReadEntries
  else do
    let files ← planEntriesMetered [] 0 [] archive.items
    let files := sortedByPath files
    (ofExcept (checkAgainstManifest files manifestFiles)).quiet
    pure files

/-! ### Pass two -/

/-- How many bytes of a write reach the file. -/
def arriving (os : Os) (clock : Nat) (bytes : Bytes) : Nat :=
  match os.fault clock with
  | some _ => (bytes.take (os.partialWrite clock)).length
  | none => bytes.length

def callWriteMetered (os : Os) (file : Place FileName) (bytes : Bytes) :
    Metered Disk ε (Except Errno Unit) := fun s =>
  (do
    Prog.record (.wrote (arriving os s.state.clock bytes))
    (callWrite os file bytes).quiet : Metered Disk ε (Except Errno Unit)) s

def fillTempMetered (os : Os) (owner : Owner) (destination : Place FileName) (mode : Nat)
    (bytes : Bytes) (temp : Place FileName) : Metered Disk Report Unit := do
  let r ← callWriteMetered os temp bytes
  (orFail (.cannotWrite destination) r).quiet
  (setMode os temp destination mode).quiet
  (applyOwner os temp destination owner).quiet

def fillAndPlaceMetered (os : Os) (owner : Owner) (relative : Place FileName) (mode : Nat)
    (bytes : Bytes) (temp tempRelative : Place FileName) : Metered Disk Report Unit := do
  fillTempMetered os owner relative mode bytes temp
  (place os tempRelative relative).quiet

def discardOnErrorMetered (os : Os) (tempRelative : Place FileName)
    (placed : Metered Disk Report Unit) : Metered Disk Report Unit := fun d =>
  match placed d with
  | .done () d => .done () d
  | .hangs d => .hangs d
  | .failed report d =>
    match (discardTemp os tempRelative).quiet d with
    | .done () d => .failed report d
    | .failed _ d => .failed report d
    | .hangs d => .hangs d

def writeAfreshMetered (os : Os) (owner : Owner) (relative : Place FileName) (mode : Nat)
    (bytes : Bytes) : Metered Disk Report Unit := do
  (createParents os relative).quiet
  let (temp,tempRelative) ← (createTempBeside os relative).quiet
  discardOnErrorMetered os tempRelative
    (fillAndPlaceMetered os owner relative mode bytes temp tempRelative)

def writeFileMetered (sha : Bytes → δ) (os : Os) (owner : Owner) (file : PlannedFile)
    (bytes : Bytes) : Metered Disk Report Unit := do
  let relative := placeOf file.relative
  (requireRealParents os [] file.relative).quiet
  match ← (inspectDestination sha os relative bytes).quiet with
  | .identical existing => (repairExisting os owner relative file.mode existing).quiet
  | _ => writeAfreshMetered os owner relative file.mode bytes

def readEntryBoundedMetered (entry : Entry) (relative : RelPath) (budget : Nat) :
    Metered σ Invalid (Bytes × Nat) := do
  let limit := min entryDecompressedCap budget
  Prog.record (.added limit 1)
  let contents := entry.data.take (saturatingAdd limit 1)
  -- A read that fails has got no further than the one that works.
  Prog.record (.buffered contents.length)
  if !entry.readable then Prog.fail (.cannotRead relative)
  else if contents.length > limit then Prog.fail (.pastLimit relative)
  else do
    Prog.record (.subtracted budget contents.length)
    pure (contents,budget-contents.length)

def writeEntriesMetered (sha : Bytes → δ) (os : Os) (owner : Owner) (planned : List PlannedFile)
    (budget : Nat) (written : List RelPath) : List (Option Entry) → Metered Disk InstallError Unit
  | [] => pure ()
  | none :: _ => Prog.fail (.invalid .unreadableEntry)
  | some entry :: rest =>
    match matchPlanned planned entry with
    | none => writeEntriesMetered sha os owner planned budget written rest
    | some file => do
      let (contents,budget) ← (readEntryBoundedMetered entry file.relative budget).mapError
        (overCapAfterWriting file.relative written)
      (writeFileMetered sha os owner file contents).mapError (.failed file.relative written)
      writeEntriesMetered sha os owner planned budget (written ++ [file.relative]) rest

def writeAllMetered (sha : Bytes → δ) (os : Os) (root : InstallRoot) (archive : Archive)
    (planned : List PlannedFile) : Metered Disk InstallError Unit :=
  match treeOwner root with
  | .error e => Prog.fail e
  | .ok owner =>
    match openInstallTree root with
    | .error e => Prog.fail e
    | .ok () =>
      if !archive.opens then Prog.fail (.invalid .cannotReadEntries)
      else writeEntriesMetered sha os owner planned archiveDecompressedCap [] archive.items

def onDiskMetered {α : Type} (x : Metered Disk InstallError α) :
    Metered (World δ) (ExtensionError δ) α := fun s =>
  match x ⟨s.state.disk,s.log⟩ with
  | .done a d => .done a ⟨{ s.state with disk := d.state },d.log⟩
  | .failed e d => .failed (.install e) ⟨{ s.state with disk := d.state },d.log⟩
  | .hangs d => .hangs ⟨{ s.state with disk := d.state },d.log⟩

def installArchiveMetered (s : Surroundings δ) (artifact : ManifestArtifact δ) :
    Metered (World δ) (ExtensionError δ) (List RelPath) := do
  let bytes ← (readVerified s artifact).quiet
  let planned ← (planMetered (s.unpack bytes) artifact.files).mapError .invalid
  onDiskMetered (writeAllMetered s.sha s.os s.root (s.unpack bytes) planned)
  pure (planned.map (·.relative))

end Passes

section Erasure
variable {σ δ : Type} [DecidableEq δ] {sha : Bytes → δ} {os : Os} {owner : Owner}

/-! ### The record is only ghost state -/

theorem checkDecompressedCapsMetered_erases (relative : RelPath) (size declared : Nat) :
    (checkDecompressedCapsMetered relative size declared : Metered σ Invalid Nat).Erases
      (ofExcept (checkDecompressedCaps relative size declared)) := by
  unfold checkDecompressedCapsMetered checkDecompressedCaps
  split
  · exact erases_fail _
  · refine erases_record_bind ?_
    dsimp only
    split
    · exact erases_fail _
    · exact erases_pure _

theorem ofExcept_bind_ok {ε α β : Type} (a : α) (f : α → Prog σ ε β) :
    (ofExcept (.ok a) >>= f) = f a := rfl

theorem planEntriesMetered_erases {seen : List RelPath} {declared : Nat}
    {files : List PlannedFile} (items : List (Option Entry)) :
    (planEntriesMetered seen declared files items : Metered σ Invalid _).Erases
      (ofExcept (planEntries seen declared files items)) := by
  induction items generalizing seen declared files with
  | nil => exact erases_pure _
  | cons item rest ih =>
    cases item with
    | none => exact erases_fail _
    | some entry =>
      simp only [planEntriesMetered,planEntries]
      cases entry.size with
      | none => exact erases_fail _
      | some size =>
        rcases planEntry entry with e | _ | file
        · exact erases_fail _
        · exact ih
        · dsimp only
          split
          · exact erases_fail _
          · have hcaps := checkDecompressedCapsMetered_erases (σ := σ) file.relative size declared
            have hrest : ∀ total, (planEntriesMetered (file.relative :: seen) total
                (files ++ [file]) rest : Metered σ Invalid _).Erases
                  (ofExcept (planEntries (file.relative :: seen) total (files ++ [file]) rest)) :=
              fun _ => ih
            have hboth := hcaps.bind hrest
            cases hc : checkDecompressedCaps file.relative size declared with
            | error e =>
              rw [hc] at hboth
              exact hboth
            | ok total =>
              rw [hc] at hboth
              exact hboth

theorem planMetered_erases (archive : Archive) (manifestFiles : List Text) :
    (planMetered archive manifestFiles : Metered σ Invalid _).Erases
      (ofExcept (plan archive manifestFiles)) := by
  unfold planMetered plan
  split
  · exact erases_fail _
  · have hentries : (planEntriesMetered [] 0 [] archive.items : Metered σ Invalid _).Erases
        (ofExcept (planEntries [] 0 [] archive.items)) := planEntriesMetered_erases _
    have hboth := hentries.bind (fun files => (erases_quiet (ofExcept
      (checkAgainstManifest (sortedByPath files) manifestFiles))).bind
        (fun _ => erases_pure (sortedByPath files)))
    cases hplanned : planEntries [] 0 [] archive.items with
    | error e =>
      rw [hplanned] at hboth
      exact hboth
    | ok files =>
      rw [hplanned,ofExcept_bind_ok] at hboth
      dsimp only [sortedByPath] at hboth ⊢
      split
      · next hm =>
        rw [hm] at hboth
        exact hboth
      · next hm =>
        rw [hm] at hboth
        exact hboth

theorem callWriteMetered_erases {ε : Type} (file : Place FileName) (bytes : Bytes) :
    (callWriteMetered os file bytes : Metered Disk ε _).Erases (callWrite os file bytes) :=
  fun s => erases_record_bind (erases_quiet (callWrite os file bytes)) s

theorem fillTempMetered_erases (destination : Place FileName) (mode : Nat) (bytes : Bytes)
    (temp : Place FileName) :
    (fillTempMetered os owner destination mode bytes temp).Erases
      (fillTemp os owner destination mode bytes temp) :=
  (callWriteMetered_erases temp bytes).bind fun _ =>
    (erases_quiet _).bind fun _ => (erases_quiet _).bind fun _ => erases_quiet _

theorem discardOnErrorMetered_erases {tempRelative : Place FileName}
    {placed : Metered Disk Report Unit} {x : Fs Report Unit} (h : placed.Erases x) :
    (discardOnErrorMetered os tempRelative placed).Erases (discardOnError os tempRelative x) := by
  intro s
  have hs := h s
  cases hp : placed s with
  | done u t =>
    rw [hp] at hs
    simp only [discardOnErrorMetered,discardOnError,hp,← hs,Outcome.map]
  | hangs t =>
    rw [hp] at hs
    simp only [discardOnErrorMetered,discardOnError,hp,← hs,Outcome.map]
  | failed report t =>
    rw [hp] at hs
    simp only [discardOnErrorMetered,discardOnError,hp,← hs,Outcome.map,Prog.quiet]
    cases discardTemp os tempRelative t.state <;> rfl

theorem writeAfreshMetered_erases (relative : Place FileName) (mode : Nat) (bytes : Bytes) :
    (writeAfreshMetered os owner relative mode bytes).Erases
      (writeAfresh os owner relative mode bytes) :=
  (erases_quiet _).bind fun _ => (erases_quiet _).bind fun (temp,_) =>
    discardOnErrorMetered_erases
      ((fillTempMetered_erases relative mode bytes temp).bind fun _ => erases_quiet _)

theorem writeFileMetered_erases (file : PlannedFile) (bytes : Bytes) :
    (writeFileMetered sha os owner file bytes).Erases (writeFile sha os owner file bytes) := by
  refine (erases_quiet _).bind fun _ => (erases_quiet _).bind fun found => ?_
  cases found
  case identical existing => exact erases_quiet _
  all_goals exact writeAfreshMetered_erases _ _ _

theorem readEntryBoundedMetered_erases (entry : Entry) (relative : RelPath) (budget : Nat) :
    (readEntryBoundedMetered entry relative budget : Metered σ Invalid _).Erases
      (ofExcept (readEntryBounded entry relative budget)) := by
  unfold readEntryBoundedMetered readEntryBounded
  refine erases_record_bind (erases_record_bind ?_)
  dsimp only
  split
  · exact erases_fail _
  · split
    · exact erases_fail _
    · exact erases_record_bind (erases_pure _)

theorem writeEntriesMetered_erases {planned : List PlannedFile} {budget : Nat}
    {written : List RelPath} (items : List (Option Entry)) :
    (writeEntriesMetered sha os owner planned budget written items).Erases
      (writeEntries sha os owner planned budget written items) := by
  induction items generalizing budget written with
  | nil => exact erases_pure _
  | cons item rest ih =>
    cases item with
    | none => exact erases_fail _
    | some entry =>
      simp only [writeEntriesMetered,writeEntries]
      cases matchPlanned planned entry with
      | none => exact ih
      | some file =>
        have hbounded := (readEntryBoundedMetered_erases (σ := Disk) entry file.relative
          budget).mapError (overCapAfterWriting file.relative written)
        have hwrite : ∀ r : Bytes × Nat, (do
            (writeFileMetered sha os owner file r.1).mapError (.failed file.relative written)
            writeEntriesMetered sha os owner planned r.2 (written ++ [file.relative]) rest :
              Metered Disk InstallError Unit).Erases (do
            (writeFile sha os owner file r.1).mapError (.failed file.relative written)
            writeEntries sha os owner planned r.2 (written ++ [file.relative]) rest) := fun r =>
          ((writeFileMetered_erases file r.1).mapError _).bind fun _ => ih
        have hall := hbounded.bind hwrite
        dsimp only
        cases hread : readEntryBounded entry file.relative budget with
        | error e =>
          rw [hread] at hall
          exact hall
        | ok r =>
          rw [hread] at hall
          exact hall

theorem writeAllMetered_erases (root : InstallRoot) (archive : Archive)
    (planned : List PlannedFile) :
    (writeAllMetered sha os root archive planned).Erases
      (writeAll sha os root archive planned) := by
  unfold writeAllMetered writeAll
  cases treeOwner root with
  | error e => exact erases_fail _
  | ok owner =>
    cases openInstallTree root with
    | error e => exact erases_fail _
    | ok u =>
      dsimp only
      split
      · exact erases_fail _
      · exact writeEntriesMetered_erases _

omit [DecidableEq δ] in
theorem onDiskMetered_erases {α : Type} {y : Metered Disk InstallError α} {x : Fs InstallError α}
    (h : y.Erases x) : (onDiskMetered y : Metered (World δ) _ α).Erases (onDisk x) := by
  intro s
  have hs := h ⟨s.state.disk,s.log⟩
  cases hy : y ⟨s.state.disk,s.log⟩ <;>
  · rw [hy] at hs
    simp only [onDiskMetered,onDisk,hy,← hs,Outcome.map]

theorem installArchiveMetered_erases (s : Surroundings δ) (artifact : ManifestArtifact δ) :
    (installArchiveMetered s artifact).Erases (installArchive s artifact) := by
  refine (erases_quiet _).bind fun bytes => ?_
  have hplan := (planMetered_erases (σ := World δ) (s.unpack bytes) artifact.files).mapError
    (ExtensionError.invalid (δ := δ))
  have hlift : (ofExcept (plan (s.unpack bytes) artifact.files) : Prog (World δ) _ _).mapError
      ExtensionError.invalid =
        liftExcept ((plan (s.unpack bytes) artifact.files).mapError .invalid) := by
    cases plan (s.unpack bytes) artifact.files <;> rfl
  rw [hlift] at hplan
  exact hplan.bind fun planned =>
    (onDiskMetered_erases (writeAllMetered_erases s.root _ planned)).bind fun _ => erases_pure _

end Erasure

/-! ### What the record may say -/

/-- The operation's result is the exact one, and it fits into 64 bits. -/
def Effect.Exact : Effect → Prop
  | .added a b => a+b ≤ u64Max
  | .subtracted a b => b ≤ a
  | .buffered _ | .wrote _ => True

def Effect.bufferedBytes : Effect → Nat
  | .buffered bytes => bytes
  | _ => 0

def Effect.wroteBytes : Effect → Nat
  | .wrote bytes => bytes
  | _ => 0

def bufferedTotal (log : List Effect) : Nat := (log.map Effect.bufferedBytes).sum

def wroteTotal (log : List Effect) : Nat := (log.map Effect.wroteBytes).sum

@[simp] theorem bufferedTotal_append (first rest : List Effect) :
    bufferedTotal (first ++ rest) = bufferedTotal first+bufferedTotal rest := by
  simp [bufferedTotal]

@[simp] theorem wroteTotal_append (first rest : List Effect) :
    wroteTotal (first ++ rest) = wroteTotal first+wroteTotal rest := by
  simp [wroteTotal]

/-- Each read is bounded by what the reads before it have left of the budget. -/
structure Bounded (budget : Nat) (log : List Effect) : Prop where
  exact : ∀ effect ∈ log, effect.Exact
  buffered : ∀ before n after, log = before ++ .buffered n :: after →
    n ≤ min entryDecompressedCap (budget-bufferedTotal before)+1

structure Keeps (budget : Nat) (log : List Effect) : Prop extends Bounded budget log where
  wrote : wroteTotal log ≤ budget

theorem Bounded.append {budget : Nat} {first rest : List Effect} (hfirst : Bounded budget first)
    (hrest : Bounded (budget-bufferedTotal first) rest) : Bounded budget (first ++ rest) := by
  refine ⟨fun effect h => ?_,fun before n after h => ?_⟩
  · rcases List.mem_append.mp h with h | h
    · exact hfirst.exact effect h
    · exact hrest.exact effect h
  · rcases List.append_eq_append_iff.mp h with ⟨mid,rfl,hmid⟩ | ⟨mid,hmid,hafter⟩
    · -- The read is one of the second part.
      have hread := hrest.buffered mid n after hmid
      rwa [Nat.sub_sub,← bufferedTotal_append] at hread
    · cases mid with
      | nil =>
        rw [List.append_nil] at hmid
        have hread := hrest.buffered [] n after (by rw [hafter]; rfl)
        rw [hmid] at hread
        simpa [bufferedTotal] using hread
      | cons effect mid =>
        simp only [List.cons_append,List.cons.injEq] at hafter
        rw [← hafter.1] at hmid
        exact hfirst.buffered before n mid hmid

/-- A part of the record that says nothing of reads. -/
theorem Bounded.of_no_reads {log : List Effect} (budget : Nat)
    (hexact : ∀ effect ∈ log, effect.Exact) (hno : ∀ n, .buffered n ∉ log) :
    Bounded budget log := by
  refine ⟨hexact,fun before n after h => absurd ?_ (hno n)⟩
  rw [h]
  simp

theorem bufferedTotal_of_no_reads {log : List Effect} (hno : ∀ n, .buffered n ∉ log) :
    bufferedTotal log = 0 := by
  induction log with
  | nil => rfl
  | cons effect rest ih =>
    have hrest := ih (fun n hn => hno n (List.mem_cons_of_mem _ hn))
    cases effect with
    | buffered n => exact absurd List.mem_cons_self (hno n)
    | added a b => simpa [bufferedTotal,Effect.bufferedBytes] using hrest
    | subtracted a b => simpa [bufferedTotal,Effect.bufferedBytes] using hrest
    | wrote n => simpa [bufferedTotal,Effect.bufferedBytes] using hrest

/-! ### What the passes record -/

section Run
variable {σ δ : Type} [DecidableEq δ] {sha : Bytes → δ} {os : Os} {owner : Owner}

/-- Pass one only adds up. -/
def Charges (log : List Effect) : Prop := ∀ effect ∈ log, ∃ a b, effect = .added a b ∧ a+b ≤ u64Max

theorem Charges.append {first rest : List Effect} (hfirst : Charges first) (hrest : Charges rest) :
    Charges (first ++ rest) := by
  intro effect h
  rcases List.mem_append.mp h with h | h
  · exact hfirst effect h
  · exact hrest effect h

theorem Charges.no_reads {log : List Effect} (h : Charges log) (n : Nat) : .buffered n ∉ log := by
  intro hmem
  obtain ⟨a,b,heq,-⟩ := h _ hmem
  cases heq

theorem Charges.bounded {log : List Effect} (h : Charges log) (budget : Nat) :
    Bounded budget log := by
  refine .of_no_reads budget (fun effect hmem => ?_) h.no_reads
  obtain ⟨a,b,rfl,hab⟩ := h effect hmem
  exact hab

theorem Charges.wroteTotal {log : List Effect} (h : Charges log) : wroteTotal log = 0 := by
  induction log with
  | nil => rfl
  | cons effect rest ih =>
    obtain ⟨a,b,rfl,-⟩ := h _ List.mem_cons_self
    exact (Nat.zero_add _).trans (ih (fun e he => h e (List.mem_cons_of_mem _ he)))

/-- What is charged has passed the limit of one file. -/
theorem checkDecompressedCapsMetered_adds (relative : RelPath) (size : Nat) {declared : Nat}
    (hdeclared : declared ≤ archiveDecompressedCap) :
    (checkDecompressedCapsMetered relative size declared : Metered σ Invalid Nat).Adds
      (fun r log => Charges log ∧ ∀ total, r = some total → total ≤ archiveDecompressedCap) := by
  have hcaps : entryDecompressedCap+archiveDecompressedCap ≤ u64Max := by decide
  unfold checkDecompressedCapsMetered
  split
  · exact adds_fail ⟨by simp [Charges],by simp⟩
  · have hcharge : Charges [.added declared size] := by
      rintro effect h
      rw [List.mem_singleton.mp h]
      exact ⟨declared,size,rfl,by omega⟩
    refine adds_record_bind ?_
    dsimp only
    split
    · exact adds_fail ⟨hcharge,by simp⟩
    · refine adds_pure ⟨hcharge,fun total h => ?_⟩
      rw [← Option.some.inj h]
      omega

theorem planEntriesMetered_adds {seen : List RelPath} {declared : Nat} {files : List PlannedFile}
    (hdeclared : declared ≤ archiveDecompressedCap) (items : List (Option Entry)) :
    (planEntriesMetered seen declared files items : Metered σ Invalid _).Adds
      (fun _ => Charges) := by
  have hnone : Charges [] := by simp [Charges]
  induction items generalizing seen declared files with
  | nil => exact adds_pure hnone
  | cons item rest ih =>
    cases item with
    | none => exact adds_fail hnone
    | some entry =>
      simp only [planEntriesMetered]
      cases entry.size with
      | none => exact adds_fail hnone
      | some size =>
        rcases planEntry entry with e | _ | file
        · exact adds_fail hnone
        · exact ih hdeclared
        · dsimp only
          split
          · exact adds_fail hnone
          · refine (checkDecompressedCapsMetered_adds file.relative size hdeclared).bind
              (fun log h => h.1) (fun total log h => ?_)
            exact (ih (h.2 total rfl)).mono (fun _ more hmore => h.1.append hmore)

theorem planMetered_adds (archive : Archive) (manifestFiles : List Text) :
    (planMetered archive manifestFiles : Metered σ Invalid _).Adds (fun _ => Charges) := by
  unfold planMetered
  split
  · exact adds_fail (by simp [Charges])
  · exact (planEntriesMetered_adds (Nat.zero_le _) _).bind_silent fun files =>
      silent_quiet_bind _ fun _ => adds_pure rfl

/-- Writing one file. -/
def OnlyWrites (most : Nat) (log : List Effect) : Prop :=
  (∀ effect ∈ log, ∃ n, effect = .wrote n) ∧ wroteTotal log ≤ most

theorem onlyWrites_nil (most : Nat) : OnlyWrites most [] := ⟨by simp,Nat.zero_le _⟩

theorem OnlyWrites.no_reads {most : Nat} {log : List Effect} (h : OnlyWrites most log) (n : Nat) :
    .buffered n ∉ log := by
  intro hmem
  obtain ⟨k,hk⟩ := h.1 _ hmem
  cases hk

theorem OnlyWrites.bounded {most : Nat} {log : List Effect} (h : OnlyWrites most log)
    (budget : Nat) : Bounded budget log := by
  refine .of_no_reads budget (fun effect hmem => ?_) h.no_reads
  obtain ⟨k,rfl⟩ := h.1 effect hmem
  trivial

theorem arriving_le (os : Os) (clock : Nat) (bytes : Bytes) :
    arriving os clock bytes ≤ bytes.length := by
  unfold arriving
  split
  · exact List.length_take_le' _ _
  · exact Nat.le_refl _

theorem callWriteMetered_adds {ε : Type} (file : Place FileName) (bytes : Bytes) :
    (callWriteMetered os file bytes : Metered Disk ε _).Adds
      (fun _ => OnlyWrites bytes.length) := by
  intro s
  have hwrites : OnlyWrites bytes.length [.wrote (arriving os s.state.clock bytes)] := by
    refine ⟨fun effect h => ⟨_,List.mem_singleton.mp h⟩,?_⟩
    simpa [wroteTotal,Effect.wroteBytes] using arriving_le os s.state.clock bytes
  have hall : (Prog.record (.wrote (arriving os s.state.clock bytes)) >>= fun _ =>
      (callWrite os file bytes).quiet : Metered Disk ε _).Adds
        (fun _ => OnlyWrites bytes.length) :=
    adds_record_bind (adds_quiet _ (fun _ => hwrites))
  exact hall s

theorem fillAndPlaceMetered_adds (relative : Place FileName) (mode : Nat) (bytes : Bytes)
    (temp tempRelative : Place FileName) :
    (fillAndPlaceMetered os owner relative mode bytes temp tempRelative).Adds
      (fun _ => OnlyWrites bytes.length) := by
  have hfill : (fillTempMetered os owner relative mode bytes temp).Adds
      (fun _ => OnlyWrites bytes.length) :=
    (callWriteMetered_adds temp bytes).bind_silent fun _ =>
      silent_quiet_bind _ fun _ => silent_quiet_bind _ fun _ => silent_quiet _
  exact hfill.bind_silent fun _ => silent_quiet _

theorem discardOnErrorMetered_adds {tempRelative : Place FileName} {R : List Effect → Prop}
    {placed : Metered Disk Report Unit} (h : placed.Adds (fun _ => R)) :
    (discardOnErrorMetered os tempRelative placed).Adds (fun _ => R) := by
  intro s
  obtain ⟨added,hlog,hR⟩ := h s
  refine ⟨added,?_,hR⟩
  rw [← hlog]
  cases hp : placed s with
  | done u t => simp only [discardOnErrorMetered,hp]
  | hangs t => simp only [discardOnErrorMetered,hp]
  | failed report t =>
    simp only [discardOnErrorMetered,hp,Prog.quiet]
    cases discardTemp os tempRelative t.state <;> rfl

theorem writeFileMetered_adds (file : PlannedFile) (bytes : Bytes) :
    (writeFileMetered sha os owner file bytes).Adds (fun _ => OnlyWrites bytes.length) := by
  have hnone := onlyWrites_nil bytes.length
  have hafresh : (writeAfreshMetered os owner (placeOf file.relative) file.mode bytes).Adds
      (fun _ => OnlyWrites bytes.length) :=
    adds_quiet_bind _ hnone fun _ => adds_quiet_bind _ hnone fun (_,_) =>
      discardOnErrorMetered_adds (fillAndPlaceMetered_adds _ _ _ _ _)
  refine adds_quiet_bind _ hnone fun _ => adds_quiet_bind _ hnone fun found => ?_
  cases found
  case identical existing => exact adds_quiet _ (fun _ => hnone)
  all_goals exact hafresh

theorem bounded_cons {budget : Nat} {effect : Effect} {log : List Effect}
    (hexact : effect.Exact) (hno : ∀ n, effect ≠ .buffered n) (h : Bounded budget log) :
    Bounded budget (effect :: log) := by
  have hfirst : Bounded budget [effect] :=
    .of_no_reads budget (by simpa using hexact) (by simpa [eq_comm] using hno)
  have hzero : bufferedTotal [effect] = 0 :=
    bufferedTotal_of_no_reads (by simpa [eq_comm] using hno)
  exact hfirst.append (by rwa [hzero,Nat.sub_zero])

theorem bounded_read {budget n : Nat} (h : n ≤ min entryDecompressedCap budget+1) :
    Bounded budget [.buffered n] := by
  refine ⟨fun effect hmem => ?_,fun before k after heq => ?_⟩
  · rw [List.mem_singleton.mp hmem]
    trivial
  · cases before with
    | nil =>
      simp only [List.nil_append,List.cons.injEq,Effect.buffered.injEq] at heq
      rw [← heq.1]
      simpa [bufferedTotal] using h
    | cons effect rest => simp at heq

theorem keeps_nil (budget : Nat) : Keeps budget [] :=
  ⟨.of_no_reads budget (by simp) (by simp),Nat.zero_le _⟩

/-- The limit has been passed or the budget pays for the contents. -/
theorem readEntryBoundedMetered_adds (entry : Entry) (relative : RelPath) {budget : Nat} :
    (readEntryBoundedMetered entry relative budget : Metered σ Invalid _).Adds
      (fun r log => Bounded budget log ∧ wroteTotal log = 0 ∧ ∀ contents left,
        r = some (contents,left) → bufferedTotal log = contents.length ∧
          contents.length+left = budget) := by
  have hcap : entryDecompressedCap+1 ≤ u64Max := by decide
  have hone : min entryDecompressedCap budget+1 ≤ u64Max := by omega
  have htake : (entry.data.take (saturatingAdd (min entryDecompressedCap budget) 1)).length ≤
      min entryDecompressedCap budget+1 := by
    refine (List.length_take_le _ _).trans ?_
    exact min_le_left _ _
  refine adds_record_bind (adds_record_bind ?_)
  generalize entry.data.take (saturatingAdd (min entryDecompressedCap budget) 1) = contents at htake ⊢
  have hstart : Bounded budget [.added (min entryDecompressedCap budget) 1,
      .buffered contents.length] := bounded_cons hone (by simp) (bounded_read htake)
  split
  · exact adds_fail ⟨hstart,rfl,by simp⟩
  · split
    · exact adds_fail ⟨hstart,rfl,by simp⟩
    · rename_i hlimit
      have hleft : contents.length ≤ budget := by omega
      refine adds_record_bind (adds_pure ⟨?_,rfl,fun c left h => ?_⟩)
      · have hsub : Bounded (budget-bufferedTotal [.added (min entryDecompressedCap budget) 1,
            .buffered contents.length]) [.subtracted budget contents.length] :=
          .of_no_reads _ (by simpa [Effect.Exact] using hleft) (by simp)
        exact hstart.append hsub
      · simp only [Option.some.injEq,Prod.mk.injEq] at h
        rw [← h.1,← h.2]
        exact ⟨by simp [bufferedTotal,Effect.bufferedBytes],by omega⟩

/-- The invariant is the budget itself: what is left of it bounds the rest of the run. -/
theorem writeEntriesMetered_adds {planned : List PlannedFile} {budget : Nat}
    {written : List RelPath} (items : List (Option Entry)) :
    (writeEntriesMetered sha os owner planned budget written items).Adds
      (fun _ => Keeps budget) := by
  induction items generalizing budget written with
  | nil => exact adds_pure (keeps_nil budget)
  | cons item rest ih =>
    cases item with
    | none => exact adds_fail (keeps_nil budget)
    | some entry =>
      simp only [writeEntriesMetered]
      cases matchPlanned planned entry with
      | none => exact ih
      | some file =>
        refine ((readEntryBoundedMetered_adds entry file.relative).mapError _).bind ?_ ?_
        · rintro log ⟨hbounded,hzero,-⟩
          exact ⟨hbounded,by rw [hzero]; exact Nat.zero_le _⟩
        · rintro ⟨contents,left⟩ log ⟨hbounded,hzero,hread⟩
          obtain ⟨hbuffered,hbudget⟩ := hread contents left rfl
          have hleft : budget-bufferedTotal log = left := by omega
          -- Up to here nothing has been written, then one file, then the rest.
          refine ((writeFileMetered_adds file contents).mapError _).bind ?_ ?_
          · intro fileLog hfile
            refine ⟨hbounded.append (hfile.bounded _),?_⟩
            rw [wroteTotal_append,hzero]
            have hwrote := hfile.2
            omega
          · intro _ fileLog hfile
            refine ih.mono (fun _ restLog hrest => ?_)
            have hquiet := bufferedTotal_of_no_reads hfile.no_reads
            have htail : Bounded left (fileLog ++ restLog) :=
              (hfile.bounded left).append (by rw [hquiet]; exact hrest.toBounded)
            refine ⟨hbounded.append (by rwa [hleft]),?_⟩
            rw [wroteTotal_append,wroteTotal_append,hzero]
            have hwrote := hfile.2
            have hrestWrote := hrest.wrote
            omega

theorem writeAllMetered_adds (root : InstallRoot) (archive : Archive)
    (planned : List PlannedFile) :
    (writeAllMetered sha os root archive planned).Adds
      (fun _ => Keeps archiveDecompressedCap) := by
  have hnone := keeps_nil archiveDecompressedCap
  unfold writeAllMetered
  cases treeOwner root with
  | error e => exact adds_fail hnone
  | ok owner =>
    cases openInstallTree root with
    | error e => exact adds_fail hnone
    | ok u =>
      dsimp only
      split
      · exact adds_fail hnone
      · exact writeEntriesMetered_adds _

omit [DecidableEq δ] in
theorem onDiskMetered_adds {α : Type} {y : Metered Disk InstallError α} {R : List Effect → Prop}
    (h : y.Adds (fun _ => R)) : (onDiskMetered y : Metered (World δ) _ α).Adds (fun _ => R) := by
  intro s
  obtain ⟨added,hlog,hR⟩ := h ⟨s.state.disk,s.log⟩
  refine ⟨added,?_,hR⟩
  rw [← hlog]
  cases hy : y ⟨s.state.disk,s.log⟩ <;> simp only [onDiskMetered,hy,Outcome.state]

theorem installArchiveMetered_adds (s : Surroundings δ) (artifact : ManifestArtifact δ) :
    (installArchiveMetered s artifact).Adds (fun _ => Keeps archiveDecompressedCap) := by
  refine adds_quiet_bind _ (keeps_nil _) fun bytes => ?_
  refine ((planMetered_adds (s.unpack bytes) artifact.files).mapError _).bind ?_ ?_
  · intro log hplan
    exact ⟨hplan.bounded _,by rw [hplan.wroteTotal]; exact Nat.zero_le _⟩
  · intro planned log hplan
    refine ((onDiskMetered_adds (writeAllMetered_adds s.root _ planned)).bind_silent
      fun _ => adds_pure rfl).mono (fun _ more hmore => ?_)
    have hquiet := bufferedTotal_of_no_reads hplan.no_reads
    refine ⟨(hplan.bounded _).append (by rw [hquiet]; exact hmore.toBounded),?_⟩
    rw [wroteTotal_append,hplan.wroteTotal,Nat.zero_add]
    exact hmore.wrote

end Run

/-! ### An archive that declares too much -/

def declaredTotal (entries : List Entry) : Nat :=
  ((entries.filter (fun entry => entry.kind.isFile)).map (fun entry => entry.size.getD 0)).sum

/-- One of the regular files, or all of them together, are to be larger than allowed. -/
def Overdeclares (archive : Archive) : Prop :=
  (∃ entry ∈ archive.entries, entry.kind.isFile = true ∧
    ∃ size, entry.size = some size ∧ entryDecompressedCap < size) ∨
  archiveDecompressedCap < declaredTotal archive.entries

theorem checkDecompressedCaps_ok {relative : RelPath} {size declared total : Nat}
    (h : checkDecompressedCaps relative size declared = .ok total) :
    size ≤ entryDecompressedCap ∧ declared+size ≤ archiveDecompressedCap ∧
      total = declared+size := by
  have hcap : archiveDecompressedCap < u64Max := by decide
  simp only [checkDecompressedCaps] at h
  split at h
  · cases h
  · split at h
    · cases h
    · have htotal := Except.ok.inj h
      simp only [saturatingAdd] at htotal
      rename_i hsize hsum
      simp only [saturatingAdd] at hsum
      omega

theorem planEntry_none {entry : Entry} (h : planEntry entry = .ok none) :
    entry.kind.isFile = false := by
  simp only [planEntry] at h
  split at h
  · rename_i hdir
    simp only [EntryType.isDir,decide_eq_true_eq] at hdir
    simp [EntryType.isFile,hdir]
  · split at h
    · cases h
    · split at h <;> cases h

theorem planEntry_some {entry : Entry} {file : PlannedFile} (h : planEntry entry = .ok (some file)) :
    entry.kind.isFile = true := by
  have hplanned := planEntry_ok h
  by_contra hfile
  simp [Entry.planned,hfile] at hplanned

/-- What has been charged so far and what is still to come fit together. -/
theorem planEntries_declared {seen : List RelPath} {declared : Nat}
    {files planned : List PlannedFile} {items : List (Option Entry)}
    (h : planEntries seen declared files items = .ok planned)
    (hdeclared : declared ≤ archiveDecompressedCap) :
    (∀ entry ∈ items.filterMap id, entry.kind.isFile = true → ∀ size, entry.size = some size →
      size ≤ entryDecompressedCap) ∧
    declared+declaredTotal (items.filterMap id) ≤ archiveDecompressedCap := by
  induction items generalizing seen declared files with
  | nil => exact ⟨by simp,by simpa [declaredTotal] using hdeclared⟩
  | cons item rest ih =>
    cases item with
    | none => cases h
    | some entry =>
      simp only [planEntries] at h
      cases hsize : entry.size with
      | none =>
        rw [hsize] at h
        cases h
      | some size =>
        rw [hsize] at h
        cases hentry : planEntry entry with
        | error e =>
          rw [hentry] at h
          cases h
        | ok file =>
          rw [hentry] at h
          cases file with
          | none =>
            -- A directory, which is not charged.
            have hdir := planEntry_none hentry
            obtain ⟨hsizes,htotal⟩ := ih h hdeclared
            refine ⟨fun e he => ?_,by simpa [declaredTotal,hdir] using htotal⟩
            rcases List.mem_cons.mp he with rfl | he
            · simp [hdir]
            · exact hsizes e he
          | some file =>
            dsimp only at h
            split at h
            · cases h
            · cases hcaps : checkDecompressedCaps file.relative size declared with
              | error e =>
                rw [hcaps] at h
                cases h
              | ok total =>
                rw [hcaps] at h
                have hfile := planEntry_some hentry
                obtain ⟨hcap,hsum,rfl⟩ := checkDecompressedCaps_ok hcaps
                obtain ⟨hsizes,htotal⟩ := ih h hsum
                refine ⟨fun e he => ?_,?_⟩
                · rcases List.mem_cons.mp he with rfl | he
                  · rintro - n hn
                    rw [hsize] at hn
                    rwa [← Option.some.inj hn]
                  · exact hsizes e he
                · simpa [declaredTotal,hfile,hsize,Nat.add_assoc] using htotal

theorem plan_not_overdeclared {archive : Archive} {manifestFiles : List Text}
    {planned : List PlannedFile} (h : plan archive manifestFiles = .ok planned) :
    ¬ Overdeclares archive := by
  simp only [plan] at h
  split at h
  · cases h
  · split at h
    · cases h
    · rename_i files hfiles
      obtain ⟨hsizes,htotal⟩ := planEntries_declared hfiles (Nat.zero_le _)
      rw [Nat.zero_add] at htotal
      rintro (⟨entry,hentry,hfile,size,hsize,hlarge⟩ | hlarge)
      · exact absurd hlarge (Nat.not_lt.mpr (hsizes entry hentry hfile size hsize))
      · exact absurd hlarge (Nat.not_lt.mpr htotal)

/-- For each archive the installer is the one without the record, the record keeps to the
limits, and an archive that declares too much leaves the tree as it was. -/
theorem installArchive_limits {δ : Type} [DecidableEq δ] (s : Surroundings δ)
    (artifact : ManifestArtifact δ) (w : World δ) :
    (installArchiveMetered s artifact ⟨w,[]⟩).map Logged.state = installArchive s artifact w ∧
    Keeps archiveDecompressedCap (installArchiveMetered s artifact ⟨w,[]⟩).state.log ∧
    ∀ bytes w₁, readVerified s artifact w = .done bytes w₁ → Overdeclares (s.unpack bytes) →
      ∃ detail, installArchive s artifact w = .failed (.invalid detail) w₁ ∧ w₁.tree = w.tree := by
  refine ⟨installArchiveMetered_erases s artifact ⟨w,[]⟩,?_,?_⟩
  · obtain ⟨added,hlog,hkeeps⟩ := installArchiveMetered_adds s artifact ⟨w,[]⟩
    rw [hlog]
    exact hkeeps
  · intro bytes w₁ hread hover
    cases hplan : plan (s.unpack bytes) artifact.files with
    | ok planned => exact absurd hover (plan_not_overdeclared hplan)
    | error detail => exact ⟨detail,installArchive_refused hread hplan,readVerified_tree hread⟩

example : (writeAllMetered id quietOs sampleRoot plainArchive vectorPlan ⟨emptyDisk,[]⟩).state.log =
    [.added entryDecompressedCap 1,.buffered 2,.subtracted archiveDecompressedCap 2,.wrote 2] := by
  decide +kernel

end PgEmbedSetup.Extensions
