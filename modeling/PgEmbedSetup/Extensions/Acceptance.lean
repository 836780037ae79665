import PgEmbedSetup.Extensions.OwnBytes
import PgEmbedSetup.Extensions.Replacement

set_option autoImplicit false

/-!
When the writing pass goes through with what the planning pass has accepted. Planning looks
at each entry by itself and at the size its header declares. It sees neither that one
planned path lies below another nor how much data really follows.
-/

namespace PgEmbedSetup.Extensions
open Library

variable {δ : Type} [DecidableEq δ] {sha : Bytes → δ} {os : Os} {owner : Owner}
  {planned : List PlannedFile} {start t t' : Tree} {d d' : Disk}

/-! ### A tree the plan can be written into -/

/-- Real directories for parents, regular files or nothing at the destinations. -/
def Fits (t : Tree) (planned : List PlannedFile) : Prop :=
  ∀ file ∈ planned, Clear t (placeOf file.relative).tail ∧
    (t.node (placeOf file.relative) = none ∨
      ∃ data, t.node (placeOf file.relative) = some (.file data))

/-- No planned file is to be a directory above another. -/
def NoneAbove (planned : List PlannedFile) : Prop :=
  ∀ a ∈ planned, ∀ b ∈ planned, a.relative <+: b.relative → a.relative = b.relative

/-- Of sixteen names drawn in a row one is used neither in the tree nor by the plan. -/
def NamesFresh (os : Os) (t : Tree) (planned : List PlannedFile) : Prop :=
  ∀ k, ∃ i, i < tempNameAttempts ∧ ∀ dir, t.node (.text (os.tempName (k+i)) :: dir) = none ∧
    ∀ file ∈ planned, ¬ .text (os.tempName (k+i)) :: dir <:+ placeOf file.relative

theorem placeOf_suffix {a b : RelPath} : placeOf a <:+ placeOf b ↔ a <+: b := by
  have hinj : Function.Injective FileName.text := fun _ _ h => FileName.text.inj h
  unfold placeOf
  rw [List.map_reverse,List.map_reverse,List.reverse_suffix]
  constructor
  · rintro ⟨rest,hrest⟩
    obtain ⟨front,back,rfl,hfront,-⟩ := List.map_eq_append_iff.mp hrest.symm
    rw [List.map_injective_iff.mpr hinj hfront]
    exact List.prefix_append _ _
  · exact fun h => h.map _

theorem NoneAbove.not_above {a b : PlannedFile} (h : NoneAbove planned) (ha : a ∈ planned)
    (hb : b ∈ planned) (hne : placeOf b.relative ≠ []) :
    ¬ placeOf a.relative <:+ (placeOf b.relative).tail := by
  intro hs
  have heq := h a ha b hb (placeOf_suffix.mp (hs.trans (List.tail_suffix _)))
  have hlen := hs.length_le
  have hpos := List.length_pos_of_ne_nil hne
  rw [heq,List.length_tail] at hlen
  omega

/-- Writing one planned file leaves room for the others. -/
theorem Fits.write {file : PlannedFile} (h : Fits t planned) (habove : NoneAbove planned)
    (hwell : PlanWellFormed planned) (hfile : file ∈ planned)
    (hframe : Framed t t' (placeOf file.relative))
    (hwritten : ∃ data, t'.node (placeOf file.relative) = some (.file data)) :
    Fits t' planned := by
  intro other hother
  have hne : placeOf other.relative ≠ [] := by simpa [placeOf] using (hwell other hother).1
  obtain ⟨hclear,hnode⟩ := h other hother
  refine ⟨fun p hp => ?_,?_⟩
  · have hp' : p ≠ placeOf file.relative := by
      rintro rfl
      exact habove.not_above hfile hother hne hp
    rcases hframe p hp' with he | ⟨-,hdir,-⟩
    · rw [he]
      exact hclear p hp
    · exact .inr hdir
  · by_cases hsame : placeOf other.relative = placeOf file.relative
    · rw [hsame]
      exact .inr hwritten
    · rcases hframe _ hsame with he | ⟨-,-,hs⟩
      · rw [he]
        exact hnode
      · have heq := habove other hother file hfile (placeOf_suffix.mp hs)
        exact absurd (congrArg placeOf heq) hsame

/-- `t` differs from `start` at planned paths and above them at most. -/
def Within (start t : Tree) (planned : List PlannedFile) : Prop :=
  ∀ p, t.node p = start.node p ∨ ∃ file ∈ planned, p <:+ placeOf file.relative

theorem Within.write {file : PlannedFile} (h : Within start t planned) (hfile : file ∈ planned)
    (hframe : Framed t t' (placeOf file.relative)) : Within start t' planned := by
  intro p
  by_cases hp : p = placeOf file.relative
  · exact .inr ⟨file,hfile,hp ▸ List.suffix_rfl⟩
  · rcases hframe p hp with he | ⟨-,-,hs⟩
    · rw [he]
      exact h p
    · exact .inr ⟨file,hfile,hs⟩

theorem NamesFresh.free (h : NamesFresh os start planned) (hwithin : Within start t planned)
    (dir : Place FileName) : NamesFree os t dir := by
  intro k
  obtain ⟨i,hi,hfresh⟩ := h k
  obtain ⟨hnone,hplanned⟩ := hfresh dir
  refine ⟨i,hi,?_⟩
  rcases hwithin (.text (os.tempName (k+i)) :: dir) with he | ⟨file,hfile,hs⟩
  · exact he.trans hnone
  · exact absurd hs (hplanned file hfile)

/-! ### How much data there is -/

/-- The entries pass two writes: those that lead to a planned path, whatever their kind. -/
def matched (planned : List PlannedFile) (entries : List Entry) : List Entry :=
  entries.filter fun entry => (matchPlanned planned entry).isSome

def totalSize (entries : List Entry) : Nat := (entries.map fun entry => entry.data.length).sum

/-- The data that is written keeps to the limits. -/
def WithinLimits (planned : List PlannedFile) (entries : List Entry) (budget : Nat) : Prop :=
  (∀ entry ∈ matched planned entries, entry.data.length ≤ entryDecompressedCap) ∧
    totalSize (matched planned entries) ≤ budget

theorem readEntryBounded_within {entry : Entry} {budget : Nat} (relative : RelPath)
    (hreadable : entry.readable = true) (hcap : entry.data.length ≤ entryDecompressedCap)
    (hbudget : entry.data.length ≤ budget) :
    readEntryBounded entry relative budget = .ok (entry.data,budget-entry.data.length) := by
  have hcap' : entryDecompressedCap ≤ u64Max-1 := by decide
  have htake : entry.data.take (saturatingAdd (min entryDecompressedCap budget) 1) = entry.data := by
    refine List.take_of_length_le ?_
    unfold saturatingAdd
    omega
  simp only [readEntryBounded,hreadable,htake,Bool.not_true,Bool.false_eq_true,if_false]
  rw [if_neg (by omega)]

theorem readEntryBounded_limits {entry : Entry} {relative : RelPath} {budget left : Nat}
    {contents : Bytes} (h : readEntryBounded entry relative budget = .ok (contents,left)) :
    entry.data.length ≤ entryDecompressedCap ∧ entry.data.length ≤ budget ∧
      left = budget-entry.data.length := by
  have hcontents := readEntryBounded_ok h
  subst hcontents
  simp only [readEntryBounded] at h
  split at h
  · cases h
  · split at h
    · cases h
    · rename_i hlimit
      simp only [Except.ok.injEq,Prod.mk.injEq] at h
      rw [h.1] at hlimit h
      exact ⟨by omega,by omega,h.2.symm⟩

theorem matched_cons_some {entry : Entry} {entries : List Entry} {file : PlannedFile}
    (h : matchPlanned planned entry = some file) :
    matched planned (entry :: entries) = entry :: matched planned entries := by
  simp [matched,h]

theorem matched_cons_none {entry : Entry} {entries : List Entry}
    (h : matchPlanned planned entry = none) :
    matched planned (entry :: entries) = matched planned entries := by
  simp [matched,h]

/-! ### The entries one after the other -/

theorem QuietFrom.onlyReading {file : PlannedFile} {bytes : Bytes} (h : QuietFrom os 0) :
    FaultsOnlyReading sha os d file bytes :=
  fun k _ hfault => absurd (h k (Nat.zero_le k)) hfault

variable (sha owner) in
/-- One planned file is written, and the tree still fits the plan. -/
theorem writeFile_fits {file : PlannedFile} (hquiet : QuietFrom os 0)
    (hwell : PlanWellFormed planned) (habove : NoneAbove planned)
    (hnames : NamesFresh os start planned) (hfits : Fits d.tree planned)
    (hwithin : Within start d.tree planned) (hfile : file ∈ planned) (bytes : Bytes) :
    ∃ d', writeFile sha os owner file bytes d = .done () d' ∧ Fits d'.tree planned ∧
      Within start d'.tree planned := by
  obtain ⟨hclear,hnode⟩ := hfits file hfile
  have hdir : d.tree.node (placeOf file.relative) ≠ some .dir := by
    rcases hnode with hnode | ⟨data,hnode⟩ <;> simp [hnode]
  have hfifo : d.tree.node (placeOf file.relative) ≠ some (.special .fifo) := by
    rcases hnode with hnode | ⟨data,hnode⟩ <;> simp [hnode]
  have hfaults : FaultsOnlyReading sha os d file bytes := hquiet.onlyReading
  obtain ⟨d',hrun⟩ := writeFile_quiet owner hfaults
    (hwell file hfile).1 hclear (hnames.free hwithin _) hdir hfifo
  obtain ⟨⟨data,hdata,-⟩,hframe⟩ := writeFile_done (hwell file hfile).1 hrun
  exact ⟨d',hrun,hfits.write habove hwell hfile hframe ⟨data,hdata⟩,hwithin.write hfile hframe⟩

theorem writeEntries_finishes {budget : Nat} {written : List RelPath} {items : List (Option Entry)}
    (hquiet : QuietFrom os 0) (hwell : PlanWellFormed planned) (habove : NoneAbove planned)
    (hnames : NamesFresh os start planned) (hitems : none ∉ items)
    (hreadable : ∀ entry ∈ items.filterMap id, entry.readable = true)
    (hlimits : WithinLimits planned (items.filterMap id) budget)
    (hfits : Fits d.tree planned) (hwithin : Within start d.tree planned) :
    ∃ d', writeEntries sha os owner planned budget written items d = .done () d' := by
  induction items generalizing budget written d with
  | nil => exact ⟨d,rfl⟩
  | cons item rest ih =>
    cases item with
    | none => exact absurd (List.mem_cons_self ..) hitems
    | some entry =>
      have hrest : none ∉ rest := fun h => hitems (List.mem_cons_of_mem _ h)
      have hcons : (some entry :: rest).filterMap id = entry :: rest.filterMap id := rfl
      rw [hcons] at hlimits hreadable
      have hreadable' : ∀ e ∈ rest.filterMap id, e.readable = true :=
        fun e he => hreadable e (List.mem_cons_of_mem _ he)
      rw [writeEntries]
      cases hmatch : matchPlanned planned entry with
      | none =>
        rw [WithinLimits,matched_cons_none hmatch] at hlimits
        exact ih hrest hreadable' hlimits hfits hwithin
      | some file =>
        rw [WithinLimits,matched_cons_some hmatch] at hlimits
        obtain ⟨hcaps,htotal⟩ := hlimits
        simp only [totalSize,List.map_cons,List.sum_cons] at htotal
        have hread : readEntryBounded entry file.relative budget =
            .ok (entry.data,budget-entry.data.length) :=
          readEntryBounded_within _ (hreadable entry (List.mem_cons_self ..))
            (hcaps entry (List.mem_cons_self ..)) (by omega)
        obtain ⟨d₁,hwrite,hfits₁,hwithin₁⟩ := writeFile_fits sha owner hquiet
          hwell habove hnames hfits hwithin (matchPlanned_some hmatch).1 entry.data
        have hlimits' : WithinLimits planned (rest.filterMap id) (budget-entry.data.length) :=
          ⟨fun e he => hcaps e (List.mem_cons_of_mem _ he),by simp only [totalSize]; omega⟩
        obtain ⟨d',hlater⟩ := @ih d₁ (budget-entry.data.length) (written ++ [file.relative]) hrest
          hreadable' hlimits' hfits₁ hwithin₁
        refine ⟨d',?_⟩
        simp only [hread]
        exact (bind_of_done (mapError_done.mpr hwrite)).trans hlater

/-- A pass that went through kept to the limits. -/
theorem writeEntries_limits {budget : Nat} {written : List RelPath} {items : List (Option Entry)}
    (hrun : writeEntries sha os owner planned budget written items d = .done () d') :
    WithinLimits planned (items.filterMap id) budget := by
  induction items generalizing budget written d with
  | nil => exact ⟨fun entry h => by simp [matched] at h,Nat.zero_le _⟩
  | cons item rest ih =>
    obtain ⟨entry,rfl,⟨hmatch,hrest⟩ | ⟨file,contents,left,d₁,hmatch,hread,-,hrest⟩⟩ :=
      writeEntries_cons hrun
    all_goals
      have hcons : (some entry :: rest).filterMap id = entry :: rest.filterMap id := rfl
      rw [hcons]
    · rw [WithinLimits,matched_cons_none hmatch]
      exact ih hrest
    · obtain ⟨hcap,hbudget,rfl⟩ := readEntryBounded_limits hread
      obtain ⟨hcaps,htotal⟩ := ih hrest
      rw [WithinLimits,matched_cons_some hmatch]
      refine ⟨fun e he => ?_,?_⟩
      · rcases List.mem_cons.mp he with rfl | he
        · exact hcap
        · exact hcaps e he
      · simp only [totalSize,List.map_cons,List.sum_cons] at htotal ⊢
        omega

/-- The planned files some entry has brought are there. -/
def Present (t : Tree) (planned : List PlannedFile) (seen : List Entry) : Prop :=
  ∀ file ∈ planned, (∃ entry ∈ seen, entry.relative = some file.relative) →
    ∃ data, t.node (placeOf file.relative) = some (.file data)

theorem writeEntries_present {budget : Nat} {written : List RelPath} {items : List (Option Entry)}
    {seen : List Entry} (hwell : PlanWellFormed planned) (h : Present d.tree planned seen)
    (hrun : writeEntries sha os owner planned budget written items d = .done () d') :
    Present d'.tree planned (seen ++ items.filterMap id) := by
  induction items generalizing budget written seen d with
  | nil =>
    rw [← (pure_done.mp hrun).2]
    simpa using h
  | cons item rest ih =>
    obtain ⟨entry,rfl,⟨hmatch,hrest⟩ | ⟨file,contents,left,d₁,hmatch,hread,hwrite,hrest⟩⟩ :=
      writeEntries_cons hrun
    all_goals
      have hnext : seen ++ (some entry :: rest).filterMap id =
          (seen ++ [entry]) ++ rest.filterMap id := by simp
      rw [hnext]
    · refine ih (fun file hfile hentry => ?_) hrest
      obtain ⟨e,he,hrel⟩ := hentry
      rcases List.mem_append.mp he with he | he
      · exact h file hfile ⟨e,he,hrel⟩
      · rw [List.mem_singleton.mp he] at hrel
        exact absurd hrel (matchPlanned_none hmatch hfile)
    · obtain ⟨hfile,hrel⟩ := matchPlanned_some hmatch
      obtain ⟨⟨data,hdata,-⟩,hframe⟩ := writeFile_done (hwell file hfile).1 hwrite
      refine ih (fun other hother hentry => ?_) hrest
      by_cases hsame : placeOf other.relative = placeOf file.relative
      · exact ⟨data,hsame ▸ hdata⟩
      · have hseen : ∃ e ∈ seen, e.relative = some other.relative := by
          obtain ⟨e,he,hother'⟩ := hentry
          rcases List.mem_append.mp he with he | he
          · exact ⟨e,he,hother'⟩
          · rw [List.mem_singleton.mp he,hrel,Option.some.injEq] at hother'
            exact absurd (congrArg placeOf hother'.symm) hsame
        obtain ⟨old,hold⟩ := h other hother hseen
        rcases hframe _ hsame with he | ⟨hnone,-,-⟩
        · exact ⟨old,he.trans hold⟩
        · rw [hold] at hnone
          cases hnone

/-- A file is not a directory above another. -/
theorem noneAbove_of_present {seen : List Entry} (h : Present t planned seen)
    (hall : ∀ file ∈ planned, ∃ entry ∈ seen, entry.relative = some file.relative) :
    NoneAbove planned := by
  intro a ha b hb habove
  obtain ⟨x,hx⟩ := h a ha (hall a ha)
  obtain ⟨y,hy⟩ := h b hb (hall b hb)
  have hs := placeOf_suffix.mpr habove
  cases hplace : placeOf b.relative with
  | nil =>
    rw [hplace,t.root_dir] at hy
    cases hy
  | cons n dir =>
    rw [hplace] at hs hy
    rcases List.suffix_cons_iff.mp hs with heq | hs
    · exact placeOf_injective (heq.trans hplace.symm)
    · rcases clear_of_dir (t.parent_dir n dir _ hy) _ hs with hnone | hdir
      · rw [hx] at hnone
        cases hnone
      · rw [hx] at hdir
        cases hdir

/-! ### Both passes -/

theorem planEntries_readable {seen : List RelPath} {declared : Nat} {files : List PlannedFile}
    {items : List (Option Entry)} (h : planEntries seen declared files items = .ok planned) :
    none ∉ items := by
  induction items generalizing seen declared files with
  | nil => exact List.not_mem_nil
  | cons item rest ih =>
    cases item with
    | none => simp [planEntries] at h
    | some entry =>
      refine fun hmem => absurd (List.mem_of_ne_of_mem (by simp) hmem) ?_
      simp only [planEntries] at h
      split at h
      · cases h
      · split at h
        · cases h
        · exact ih h
        · split at h
          · cases h
          · split at h
            · cases h
            · exact ih h

theorem plan_opens {archive : Archive} {manifestFiles : List Text}
    (h : plan archive manifestFiles = .ok planned) :
    archive.opens = true ∧ none ∉ archive.items := by
  simp only [plan] at h
  split at h
  · cases h
  · rename_i hopens
    split at h
    · cases h
    · rename_i files hfiles
      exact ⟨by simpa using hopens,planEntries_readable hfiles⟩

/-- The root is a directory that can be opened. -/
def RootOpens (root : InstallRoot) : Prop :=
  (∃ owner, treeOwner root = .ok owner) ∧ openInstallTree root = .ok ()

theorem writeAll_finishes_iff {archive : Archive} {manifestFiles : List Text} {root : InstallRoot}
    (hplan : plan archive manifestFiles = .ok planned) (hroot : RootOpens root)
    (hquiet : QuietFrom os 0) (hreadable : ∀ entry ∈ archive.entries, entry.readable = true)
    (hfits : Fits d.tree planned) (hnames : NamesFresh os d.tree planned) :
    (∃ d', writeAll sha os root archive planned d = .done () d') ↔
      NoneAbove planned ∧ WithinLimits planned archive.entries archiveDecompressedCap := by
  obtain ⟨⟨owner,howner⟩,hopen⟩ := hroot
  obtain ⟨hopens,hitems⟩ := plan_opens hplan
  have hwell := plan_wellFormed hplan
  have hrun : writeAll sha os root archive planned d =
      writeEntries sha os owner planned archiveDecompressedCap [] archive.items d := by
    rw [writeAll,howner]
    simp only [hopen,hopens,Bool.not_true,Bool.false_eq_true,if_false]
  rw [hrun]
  constructor
  · rintro ⟨d',h⟩
    refine ⟨?_,writeEntries_limits h⟩
    have hstart : Present d.tree planned [] := by
      rintro file - ⟨entry,hentry,-⟩
      cases hentry
    refine noneAbove_of_present (writeEntries_present hwell hstart h) (fun file hfile => ?_)
    obtain ⟨entry,hentry,hfrom⟩ := (mem_plan hplan file).mp hfile
    exact ⟨entry,hentry,Entry.relative_of_planned hfrom⟩
  · rintro ⟨habove,hlimits⟩
    exact writeEntries_finishes hquiet hwell habove hnames hitems hreadable hlimits hfits
      (fun p => .inl rfl)

section Claim
variable {s : Surroundings δ} {artifact : ManifestArtifact δ} {w w' w₁ : World δ} {bytes : Bytes}

theorem readVerified_tree (h : readVerified s artifact w = .done bytes w₁) : w₁.tree = w.tree := by
  obtain ⟨found,w₂,hopen,h⟩ := bind_done.mp h
  have htree₂ := (cacheCall_done hopen).2.2
  rcases found with _ | content | _ | _
  case some.file =>
    obtain ⟨taken,w₃,hread,h⟩ := bind_done.mp h
    have htree₃ := (cacheCall_done hread).2.2
    split at h
    · exact absurd h fail_done
    · rw [← (pure_done.mp h).2]
      exact htree₃.trans htree₂
  all_goals exact absurd h fail_done

variable (s artifact w bytes)

/-- What pass one accepts pass two writes, and an archive refused for its content has left
the tree alone. `bytes` is what `readVerified` found, in the world `w₁`. -/
structure PassOneDecides (w₁ : World δ) : Prop where
  finishes : ∀ planned, plan (s.unpack bytes) artifact.files = .ok planned →
    ∃ d', writeAll s.sha s.os s.root (s.unpack bytes) planned w₁.disk = .done () d'
  untouched : ∀ e w', installArchive s artifact w = .failed e w' → e.kind = .archiveInvalid →
    w'.tree = w.tree

variable {s artifact w bytes}

/-- What pass one refuses ends the installation before the tree is opened. -/
theorem installArchive_refused (hread : readVerified s artifact w = .done bytes w₁)
    {detail : Invalid} (hplan : plan (s.unpack bytes) artifact.files = .error detail) :
    installArchive s artifact w = .failed (.invalid detail) w₁ := by
  have hfailed : (liftExcept ((plan (s.unpack bytes) artifact.files).mapError .invalid) :
      Inst δ (List PlannedFile)) w₁ = .failed (.invalid detail) w₁ := by
    rw [hplan]
    rfl
  rw [installArchive,bind_of_done hread,bind_of_failed hfailed]

theorem installArchive_untouched (hread : readVerified s artifact w = .done bytes w₁)
    (hwrites : ∀ planned, plan (s.unpack bytes) artifact.files = .ok planned →
      ∃ d', writeAll s.sha s.os s.root (s.unpack bytes) planned w₁.disk = .done () d')
    {e : ExtensionError δ} (h : installArchive s artifact w = .failed e w') : w'.tree = w.tree := by
  cases hplan : plan (s.unpack bytes) artifact.files with
  | error detail =>
    rw [installArchive_refused hread hplan] at h
    cases h
    exact readVerified_tree hread
  | ok planned =>
    rw [installArchive,bind_of_done hread] at h
    have hplanned : (liftExcept ((plan (s.unpack bytes) artifact.files).mapError .invalid) :
        Inst δ (List PlannedFile)) w₁ = .done planned w₁ := by
      rw [hplan]
      rfl
    obtain ⟨d',hwritten⟩ := hwrites planned hplan
    have hdisk : onDisk (writeAll s.sha s.os s.root (s.unpack bytes) planned) w₁ =
        .done () { w₁ with disk := d' } := by simp only [onDisk,hwritten]
    rw [bind_of_done hplanned,bind_of_done hdisk] at h
    cases h

variable (s artifact w bytes w₁)

/-- Pass one decides just when no planned path lies below another and the data behind the
planned paths keeps to the limits its headers were checked against. -/
theorem passOneDecides_iff (hread : readVerified s artifact w = .done bytes w₁)
    (hroot : RootOpens s.root) (hquiet : QuietFrom s.os 0)
    (hreadable : ∀ entry ∈ (s.unpack bytes).entries, entry.readable = true)
    (hfits : ∀ planned, plan (s.unpack bytes) artifact.files = .ok planned →
      Fits w.tree planned ∧ NamesFresh s.os w.tree planned) :
    PassOneDecides s artifact w bytes w₁ ↔
      ∀ planned, plan (s.unpack bytes) artifact.files = .ok planned →
        NoneAbove planned ∧
          WithinLimits planned (s.unpack bytes).entries archiveDecompressedCap := by
  have htree : w₁.disk.tree = w.tree := readVerified_tree hread
  have hiff : ∀ planned, plan (s.unpack bytes) artifact.files = .ok planned →
      ((∃ d', writeAll s.sha s.os s.root (s.unpack bytes) planned w₁.disk = .done () d') ↔
        NoneAbove planned ∧
          WithinLimits planned (s.unpack bytes).entries archiveDecompressedCap) := by
    intro planned hplan
    obtain ⟨hfit,hfresh⟩ := hfits planned hplan
    rw [← htree] at hfit hfresh
    exact writeAll_finishes_iff hplan hroot hquiet hreadable hfit hfresh
  constructor
  · intro h planned hplan
    exact (hiff planned hplan).mp (h.finishes planned hplan)
  · intro h
    have hwrites := fun planned hplan => (hiff planned hplan).mpr (h planned hplan)
    exact ⟨hwrites,fun e w' hfailed _ => installArchive_untouched hread hwrites hfailed⟩

end Claim

/-! ### An archive that decides, and one that does not -/

theorem emptyTree_fits {planned : List PlannedFile} (hwell : PlanWellFormed planned) :
    Fits emptyTree planned := by
  intro file hfile
  have hne : placeOf file.relative ≠ [] := by simpa [placeOf] using (hwell file hfile).1
  refine ⟨fun p _ => ?_,.inl (if_neg hne)⟩
  by_cases hp : p = []
  · exact .inr (if_pos hp)
  · exact .inl (if_neg hp)

def sampleRead : World Bytes := { sampleWorld with disk := ⟨emptyTree,2⟩ }

theorem passOneDecides_iff_shared :
    PassOneDecides samplePlace (artifactWith [1]) sampleWorld [1] sampleRead := by
  have hplan : plan (samplePlace.unpack [1]) (artifactWith [1]).files =
      .ok [⟨sharedPath,0o755⟩] := by decide
  have honly : ∀ planned, plan (samplePlace.unpack [1]) (artifactWith [1]).files = .ok planned →
      planned = [⟨sharedPath,0o755⟩] := by
    intro planned h
    rw [hplan] at h
    exact (Except.ok.inj h).symm
  refine (passOneDecides_iff samplePlace (artifactWith [1]) sampleWorld sampleRead [1] rfl
    ⟨⟨_,rfl⟩,rfl⟩ (fun _ _ => rfl) (by decide) (fun planned h => ?_)).mpr (fun planned h => ?_)
  · refine ⟨emptyTree_fits (plan_wellFormed h),fun k => ⟨0,by decide,fun dir => ⟨rfl,?_⟩⟩⟩
    rw [honly planned h]
    simp [List.suffix_cons_iff,placeOf,sharedPath,samplePlace,quietOs,libDir]
  · rw [honly planned h]
    refine ⟨by simp [NoneAbove],by decide,by decide⟩

/-- A planned file that is to be a directory above another one. -/
def nestedArchive : Archive :=
  ⟨true,[some ⟨.regular,ascii "share/extension/a",some 1,[1],true⟩,
    some ⟨.regular,ascii "share/extension/a/b",some 1,[2],true⟩]⟩

def nestedPlan : List PlannedFile :=
  [⟨[shareDir,extensionDir,['a']],0o644⟩,⟨[shareDir,extensionDir,['a'],['b']],0o644⟩]

def nestedPlace : Surroundings Bytes := { samplePlace with unpack := fun _ => nestedArchive }

def nestedArtifact : ManifestArtifact Bytes :=
  { artifactWith [1] with files := ["share/extension/a".toList,"share/extension/a/b".toList] }

/-- Planning accepts it, the writing pass fails, and the first file is left. -/
theorem passOneDecides_not_nested :
    readVerified nestedPlace nestedArtifact sampleWorld = .done [1] sampleRead ∧
    plan (nestedPlace.unpack [1]) nestedArtifact.files = .ok nestedPlan ∧
    (writeAll id quietOs sampleRoot nestedArchive nestedPlan sampleRead.disk).state.tree.node
      (placeOf [shareDir,extensionDir,['a']]) = some (.file ⟨[1],0o644,⟨1000,1000⟩⟩) ∧
    ¬ PassOneDecides nestedPlace nestedArtifact sampleWorld [1] sampleRead := by
  have hplan : plan (nestedPlace.unpack [1]) nestedArtifact.files = .ok nestedPlan := by
    decide +kernel
  have hfailed : (writeAll id quietOs sampleRoot nestedArchive nestedPlan
      sampleRead.disk).finished.isSome = false := by decide +kernel
  refine ⟨rfl,hplan,by decide +kernel,fun h => ?_⟩
  obtain ⟨d',hrun⟩ := h.finishes nestedPlan hplan
  have hrun' : writeAll id quietOs sampleRoot nestedArchive nestedPlan sampleRead.disk =
      .done () d' := hrun
  rw [hrun'] at hfailed
  cases hfailed

end PgEmbedSetup.Extensions
