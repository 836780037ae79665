import PgEmbedSetup.Extensions.Acquired

set_option autoImplicit false

/-!
Several archives installed one after the other: whose bytes the listed files hold in the end.
-/

namespace PgEmbedSetup.Extensions
open Library

/-! ### Archives one after the other -/

/-- The path is one of a regular file that the archive installs. -/
def Archive.plans (archive : Archive) (relative : RelPath) : Bool :=
  archive.entries.any fun entry => entry.planned.any fun file => file.relative = relative

/-- The entry whose bytes the archive leaves at a path it plans. -/
def Archive.leaves (archive : Archive) (relative : RelPath) : Option Entry :=
  if archive.plans relative then archive.lastAt relative else none

/-- What the last of the archives to plan the path leaves there. -/
def lastAmong (archives : List Archive) (relative : RelPath) : Option Entry :=
  archives.reverse.findSome? fun archive => archive.leaves relative

theorem lastAmong_append (seen : List Archive) (archive : Archive) (relative : RelPath) :
    lastAmong (seen ++ [archive]) relative =
      (archive.leaves relative).or (lastAmong seen relative) := by
  simp only [lastAmong,List.reverse_append,List.reverse_cons,List.reverse_nil,List.nil_append,
    List.cons_append,List.findSome?_cons]
  cases archive.leaves relative <;> rfl

theorem Archive.plans_iff {archive : Archive} {relative : RelPath} :
    archive.plans relative = true ↔
      ∃ entry ∈ archive.entries, ∃ file, entry.planned = some file ∧ file.relative = relative := by
  simp [Archive.plans,Option.any_eq_true]

theorem Entry.relative_of_planned {entry : Entry} {file : PlannedFile}
    (h : entry.planned = some file) : entry.relative = some file.relative := by
  simp only [Entry.planned,Option.ite_none_right_eq_some,Option.map_eq_some_iff] at h
  obtain ⟨-,relative,hrel,rfl⟩ := h
  exact hrel

theorem Archive.leaves_isSome {archive : Archive} {relative : RelPath}
    (h : archive.plans relative = true) : ∃ last, archive.leaves relative = some last := by
  obtain ⟨entry,hentry,file,hfile,rfl⟩ := Archive.plans_iff.mp h
  rw [Archive.leaves,if_pos h]
  exact lastOf_isSome hentry (Entry.relative_of_planned hfile)

theorem mem_plan_relative {archive : Archive} {manifestFiles : List Text}
    {planned : List PlannedFile} (h : plan archive manifestFiles = .ok planned)
    {relative : RelPath} :
    relative ∈ planned.map (·.relative) ↔ archive.plans relative = true := by
  rw [Archive.plans_iff]
  constructor
  · intro hmem
    obtain ⟨file,hfile,rfl⟩ := List.mem_map.mp hmem
    obtain ⟨entry,hentry,hplanned⟩ := (mem_plan h file).mp hfile
    exact ⟨entry,hentry,file,hplanned,rfl⟩
  · rintro ⟨entry,hentry,file,hplanned,rfl⟩
    exact List.mem_map_of_mem ((mem_plan h file).mpr ⟨entry,hentry,hplanned⟩)

/-- What the archives, installed in this order, make of a tree. -/
structure Laid (archives : List Archive) (start t : Tree) : Prop where
  bytes : ∀ relative last, lastAmong archives relative = some last →
    ∃ data, t.node (placeOf relative) = some (.file data) ∧ data.bytes = last.data
  unchanged : ∀ p node, (∀ relative last, lastAmong archives relative = some last →
    p ≠ placeOf relative) → start.node p = some node → t.node p = some node

theorem laid_nil (t : Tree) : Laid [] t t :=
  ⟨fun _ _ h => by simp [lastAmong] at h,fun _ _ _ h => h⟩

theorem Laid.install {archives : List Archive} {archive : Archive} {manifestFiles : List Text}
    {planned : List PlannedFile} {start t t' : Tree} (h : Laid archives start t)
    (hplan : plan archive manifestFiles = .ok planned)
    (hinstalled : Installed planned t archive.entries t') :
    Laid (archives ++ [archive]) start t' := by
  have hplans : ∀ file ∈ planned, archive.plans file.relative = true := fun file hfile =>
    (mem_plan_relative hplan).mp (List.mem_map_of_mem hfile)
  refine ⟨fun relative last hlast => ?_,fun p node hp hnode => ?_⟩
  · rw [lastAmong_append,Option.or_eq_some_iff] at hlast
    rcases hlast with hleaves | ⟨hnone,hlast⟩
    · rw [Archive.leaves,Option.ite_none_right_eq_some] at hleaves
      obtain ⟨file,hfile,rfl⟩ := List.mem_map.mp ((mem_plan_relative hplan).mpr hleaves.1)
      obtain ⟨data,hdata,-,hbytes⟩ := hinstalled.bytes file hfile last hleaves.2
      exact ⟨data,hdata,hbytes⟩
    · obtain ⟨data,hdata,hbytes⟩ := h.bytes relative last hlast
      refine ⟨data,hinstalled.unchanged (fun file hfile he => ?_) hdata,hbytes⟩
      obtain ⟨left,hleft⟩ := Archive.leaves_isSome (hplans file hfile)
      rw [placeOf_injective he,hleft] at hnone
      cases hnone
  · have hold : t.node p = some node := by
      refine h.unchanged p node (fun relative last hlast => ?_) hnode
      cases hleaves : archive.leaves relative with
      | none => exact hp relative last (by rw [lastAmong_append,hleaves]; exact hlast)
      | some left => exact hp relative left (by rw [lastAmong_append,hleaves]; rfl)
    refine hinstalled.unchanged (fun file hfile => ?_) hold
    obtain ⟨left,hleft⟩ := Archive.leaves_isSome (hplans file hfile)
    exact hp file.relative left (by rw [lastAmong_append,hleft]; rfl)

/-! ### The whole pipeline -/

/-- No two of the contents in play have one digest. -/
structure CollisionFree {δ : Type} (s : Surroundings δ) (S : Set Bytes) : Prop where
  injective : Set.InjOn s.sha S
  download : ∀ moment url body k, s.download moment url = some body → body.take k ∈ S
  unpacked : ∀ bytes ∈ S, ∀ entry ∈ (s.unpack bytes).entries, entry.data ∈ S

structure World.Within {δ : Type} (w : World δ) (S : Set Bytes) : Prop where
  tree : ∀ p data, w.tree.node p = some (.file data) → data.bytes ∈ S
  cache : ∀ digest file bytes, w.cache.entry digest file = some (.file bytes) → bytes ∈ S

section Pipeline
variable {δ : Type} {s : Surroundings δ} {S : Set Bytes} {w w' : World δ}

/-- The archive the manifest pins for the selection. -/
def Pins (s : Surroundings δ) (S : Set Bytes) (selection : Selection δ) (bytes : Bytes) : Prop :=
  bytes ∈ S ∧ s.sha bytes = selection.artifact.sha256

/-- The key a selection's archive is cached under. -/
def Selection.keyed (selection : Selection δ) (digest : δ) (file : Text) : Prop :=
  digest = selection.artifact.sha256 ∧ file = selection.artifact.file

/-- What installing the selections does to the cache: valid entries and those of other archives
stay what they are. -/
structure Stocked (s : Surroundings δ) (selections : List (Selection δ)) (before after : Cache δ) :
    Prop where
  valid : ∀ digest file bytes, before.entry digest file = some (.file bytes) →
    s.sha bytes = digest → after.entry digest file = some (.file bytes)
  others : ∀ digest file, (∀ selection ∈ selections, ¬ selection.keyed digest file) →
    after.entry digest file = before.entry digest file
  found : ∀ selection ∈ selections, ∃ bytes,
    after.entry selection.artifact.sha256 selection.artifact.file = some (.file bytes) ∧
    s.sha bytes = selection.artifact.sha256

variable [DecidableEq δ] {selection : Selection δ} {bytes : Bytes}

/-- One archive: the pinned bytes are unpacked into the tree, and cached. -/
theorem installOne_done {name : ExtensionName} {e : InstalledExtension δ}
    (hfree : CollisionFree s S) (hwithin : w.Within S)
    (hsize : selection.artifact.size ≤ archiveSizeCap)
    (h : installOne s name selection w = .done e w') :
    ∃ bytes planned, Pins s S selection bytes ∧
      plan (s.unpack bytes) selection.artifact.files = .ok planned ∧
      e.files = planned.map (·.relative) ∧
      Installed planned w.tree (s.unpack bytes).entries w'.tree ∧ w'.Within S ∧
      Stocked s [selection] w.cache w'.cache := by
  obtain ⟨origin,w₁,hacquire,h₁⟩ := bind_done.mp h
  obtain ⟨htree₁,hacquired⟩ := acquire_done hacquire
  obtain ⟨files,w₂,hinstall,h₂⟩ := bind_done.mp h₁
  obtain ⟨hcache₂,bytes,planned,d,hentry,hsha,hplan,hfiles,htree,hwrite⟩ :=
    installArchive_done hsize hinstall
  obtain ⟨he,hw⟩ := pure_done.mp h₂
  subst he hw
  obtain ⟨found,hfound,hfoundSha,hsource⟩ := hacquired.found
  rw [hentry] at hfound
  cases hfound
  have hmem : bytes ∈ S := by
    rcases hsource with hold | ⟨moment,body,hbody,rfl⟩
    · exact hwithin.cache _ _ _ hold
    · exact hfree.download _ _ _ _ hbody
  have hcontents : Contents d.tree (s.unpack bytes).entries ⊆ S := by
    rintro content (⟨entry,hentry,rfl⟩ | ⟨p,data,hnode,rfl⟩)
    · exact hfree.unpacked bytes hmem entry hentry
    · rw [htree,htree₁] at hnode
      exact hwithin.tree p data hnode
  have hinstalled := writeAll_installed hplan (hfree.injective.mono hcontents) hwrite
  have hstart : d.tree = w.tree := htree.trans htree₁
  rw [hstart] at hinstalled hcontents
  refine ⟨bytes,planned,⟨hmem,hsha⟩,hplan,hfiles,hinstalled,⟨?_,?_⟩,?_,?_,?_⟩
  · exact fun p data hnode => hcontents (hinstalled.contents hnode)
  · intro digest file content hcontent
    rw [hcache₂] at hcontent
    by_cases hkey : selection.keyed digest file
    · obtain ⟨rfl,rfl⟩ := hkey
      rw [hentry] at hcontent
      cases hcontent
      exact hmem
    · rw [hacquired.others digest file hkey] at hcontent
      exact hwithin.cache digest file content hcontent
  · intro digest file content hcontent hvalid
    rw [hcache₂]
    by_cases hkey : selection.keyed digest file
    · obtain ⟨rfl,rfl⟩ := hkey
      rw [hentry,hfree.injective (hwithin.cache _ _ _ hcontent) hmem (hvalid.trans hsha.symm)]
    · rw [hacquired.others digest file hkey,hcontent]
  · intro digest file hno
    rw [hcache₂]
    exact hacquired.others digest file (hno selection (by simp))
  · intro other hother
    obtain rfl := List.mem_singleton.mp hother
    rw [hcache₂]
    exact ⟨bytes,hentry,hsha⟩

omit [DecidableEq δ] in
theorem Stocked.cons {rest : List (Selection δ)} {before between after : Cache δ}
    (h : Stocked s [selection] before between) (h' : Stocked s rest between after) :
    Stocked s (selection :: rest) before after := by
  refine ⟨?_,?_,?_⟩
  · intro digest file bytes hbytes hsha
    exact h'.valid digest file bytes (h.valid digest file bytes hbytes hsha) hsha
  · intro digest file hno
    rw [h'.others digest file (fun other hother => hno other (by simp [hother]))]
    refine h.others digest file (fun other hother => hno other ?_)
    rw [List.mem_singleton.mp hother]
    exact List.mem_cons_self ..
  · intro other hother
    rcases List.mem_cons.mp hother with rfl | hother
    · obtain ⟨bytes,hbytes,hsha⟩ := h.found other (by simp)
      exact ⟨bytes,h'.valid _ _ bytes hbytes hsha,hsha⟩
    · exact h'.found other hother

omit [DecidableEq δ] in
theorem Pins.unique (hfree : CollisionFree s S) {selections : List (Selection δ)}
    {contents contents' : List Bytes} (h : List.Forall₂ (Pins s S) selections contents)
    (h' : List.Forall₂ (Pins s S) selections contents') : contents = contents' := by
  induction h generalizing contents' with
  | nil =>
    cases h'
    rfl
  | cons hpins _ ih =>
    cases h' with
    | cons hpins' hrest' =>
      rw [hfree.injective hpins.1 hpins'.1 (hpins.2.trans hpins'.2.symm),ih hrest']

/-- The files listed are those the archive plans. -/
def Lists (s : Surroundings δ) (e : InstalledExtension δ) (bytes : Bytes) : Prop :=
  ∀ relative, relative ∈ e.files ↔ (s.unpack bytes).plans relative = true

/-- The run over all selections. -/
theorem installEach_done (hfree : CollisionFree s S) {pairs : List (ExtensionName × Selection δ)}
    (hsizes : ∀ pair ∈ pairs, pair.2.artifact.size ≤ archiveSizeCap) {archives : List Archive}
    {start : Tree} (hwithin : w.Within S) (hlaid : Laid archives start w.tree)
    {installed : List (InstalledExtension δ)} (h : installEach s pairs w = .done installed w') :
    ∃ contents, List.Forall₂ (Pins s S) (pairs.map (·.2)) contents ∧
      List.Forall₂ (Lists s) installed contents ∧
      Laid (archives ++ contents.map s.unpack) start w'.tree ∧
      Stocked s (pairs.map (·.2)) w.cache w'.cache ∧ w'.Within S := by
  induction pairs generalizing archives w installed with
  | nil =>
    obtain ⟨rfl,rfl⟩ := pure_done.mp h
    refine ⟨[],.nil,.nil,by simpa using hlaid,⟨?_,?_,?_⟩,hwithin⟩
    · exact fun digest file bytes hbytes _ => hbytes
    · exact fun digest file _ => rfl
    · exact fun selection hselection => by cases hselection
  | cons pair rest ih =>
    obtain ⟨name,selection⟩ := pair
    obtain ⟨e,w₁,hone,h₁⟩ := bind_done.mp h
    obtain ⟨others,w₂,hrest,h₂⟩ := bind_done.mp h₁
    obtain ⟨hinstalled,hw⟩ := pure_done.mp h₂
    subst hinstalled hw
    obtain ⟨bytes,planned,hpins,hplan,hfiles,htree,hwithin₁,hstocked⟩ :=
      installOne_done hfree hwithin (hsizes (name,selection) (by simp)) hone
    obtain ⟨contents,hpins',hlists,hlaid',hstocked',hwithin'⟩ :=
      ih (fun pair hpair => hsizes pair (by simp [hpair])) hwithin₁ (hlaid.install hplan htree) hrest
    refine ⟨bytes :: contents,.cons hpins hpins',.cons ?_ hlists,?_,hstocked.cons hstocked',
      hwithin'⟩
    · intro relative
      rw [hfiles]
      exact mem_plan_relative hplan
    · simpa using hlaid'

/-! ### Whose bytes are there -/

/-- Each listed file is one of the archive's own and holds its bytes. -/
def HoldsOwn (s : Surroundings δ) (t : Tree) (e : InstalledExtension δ) (bytes : Bytes) : Prop :=
  ∀ relative ∈ e.files, (s.unpack bytes).plans relative = true ∧
    ∀ entry ∈ (s.unpack bytes).entries, ∀ file, entry.planned = some file →
      file.relative = relative → ∃ data, t.node (placeOf relative) = some (.file data) ∧
        data.bytes = entry.data

/-- What the last archives leave at the archive's own paths is the archive's own. -/
def OwnLast (archives : List Archive) (archive : Archive) : Prop :=
  ∀ entry ∈ archive.entries, ∀ file, entry.planned = some file →
    ∀ last, lastAmong archives file.relative = some last → last.data = entry.data

/-- For every regular entry of an archive, what the last archive to plan its path leaves there
are the same bytes. -/
def Undisturbed (archives : List Archive) : Prop :=
  ∀ archive ∈ archives, OwnLast archives archive

/-- Every file is there still, with its bytes. -/
structure KeepsContents (w w' : World δ) : Prop where
  tree : ∀ p data, w.tree.node p = some (.file data) →
    ∃ data', w'.tree.node p = some (.file data') ∧ data'.bytes = data.bytes
  cache : ∀ digest file bytes, w.cache.entry digest file = some (.file bytes) →
    w'.cache.entry digest file = some (.file bytes)

theorem lastAmong_isSome {archives : List Archive} {archive : Archive} (hmem : archive ∈ archives)
    {relative : RelPath} (h : archive.plans relative = true) :
    ∃ last, lastAmong archives relative = some last := by
  obtain ⟨last,hlast⟩ := Archive.leaves_isSome h
  rw [← Option.isSome_iff_exists,lastAmong,List.findSome?_isSome_iff]
  exact ⟨archive,by simpa using hmem,by rw [hlast]; rfl⟩

omit [DecidableEq δ] in
theorem holdsOwn_iff {archives : List Archive} {start t : Tree} {e : InstalledExtension δ}
    (hlists : Lists s e bytes) (hlaid : Laid archives start t) (hmem : s.unpack bytes ∈ archives) :
    HoldsOwn s t e bytes ↔ OwnLast archives (s.unpack bytes) := by
  constructor
  · intro hholds entry hentry file hfile last hlast
    have hlisted := (hlists file.relative).mpr (Archive.plans_iff.mpr ⟨entry,hentry,file,hfile,rfl⟩)
    obtain ⟨data,hdata,hown⟩ := (hholds file.relative hlisted).2 entry hentry file hfile rfl
    obtain ⟨data',hdata',hbytes⟩ := hlaid.bytes file.relative last hlast
    rw [hdata] at hdata'
    cases hdata'
    rw [← hbytes,hown]
  · intro hlast relative hlisted
    have hplans := (hlists relative).mp hlisted
    refine ⟨hplans,?_⟩
    rintro entry hentry file hfile rfl
    obtain ⟨last,hlastEntry⟩ := lastAmong_isSome hmem hplans
    obtain ⟨data,hdata,hbytes⟩ := hlaid.bytes file.relative last hlastEntry
    exact ⟨data,hdata,hbytes.trans (hlast entry hentry file hfile last hlastEntry)⟩

omit [DecidableEq δ] in
theorem allHoldOwn_iff {archives : List Archive} {start t : Tree} {contents : List Bytes}
    {installed : List (InstalledExtension δ)} (hlists : List.Forall₂ (Lists s) installed contents)
    (hlaid : Laid archives start t) (hmem : ∀ bytes ∈ contents, s.unpack bytes ∈ archives) :
    List.Forall₂ (HoldsOwn s t) installed contents ↔
      ∀ bytes ∈ contents, OwnLast archives (s.unpack bytes) := by
  induction hlists with
  | nil => simp
  | @cons e bytes _ rest hlists _ ih =>
    rw [List.forall₂_cons,holdsOwn_iff hlists hlaid (hmem bytes (by simp)),
      ih (fun bytes hbytes => hmem bytes (by simp [hbytes])),List.forall_mem_cons]

omit [DecidableEq δ] in
/-- The same archives once more leave every file what it is. -/
theorem keepsContents_again {contents : List Bytes} {selections : List (Selection δ)}
    {start : Tree} {before : Cache δ} {w'' : World δ}
    (hlaid : Laid (contents.map s.unpack) start w'.tree)
    (hstocked : Stocked s selections before w'.cache)
    (hlaid' : Laid (contents.map s.unpack) w'.tree w''.tree)
    (hstocked' : Stocked s selections w'.cache w''.cache) : KeepsContents w' w'' := by
  refine ⟨fun p data hnode => ?_,fun digest file bytes hbytes => ?_⟩
  · by_cases hp : ∃ relative last, lastAmong (contents.map s.unpack) relative = some last ∧
      p = placeOf relative
    · obtain ⟨relative,last,hlast,rfl⟩ := hp
      obtain ⟨data₁,hdata₁,hbytes₁⟩ := hlaid.bytes relative last hlast
      obtain ⟨data₂,hdata₂,hbytes₂⟩ := hlaid'.bytes relative last hlast
      rw [hnode] at hdata₁
      cases hdata₁
      exact ⟨data₂,hdata₂,hbytes₂.trans hbytes₁.symm⟩
    · push Not at hp
      exact ⟨data,hlaid'.unchanged p _ hp hnode,rfl⟩
  · by_cases hkey : ∃ selection ∈ selections, selection.keyed digest file
    · obtain ⟨selection,hselection,rfl,rfl⟩ := hkey
      obtain ⟨found,hfound,hsha⟩ := hstocked.found selection hselection
      rw [hbytes] at hfound
      cases hfound
      exact hstocked'.valid _ _ bytes hbytes hsha
    · push Not at hkey
      rw [hstocked'.others digest file hkey,hbytes]

/-- What a call that succeeds has done. -/
theorem installExtensions_done (hfree : CollisionFree s S) {request : ExtensionRequest δ}
    (hwithin : w.Within S) {installed : List (InstalledExtension δ)}
    (h : installExtensions s request w = .done installed w') :
    ∃ selections contents, resolve s request = .ok selections ∧
      List.Forall₂ (Pins s S) selections contents ∧ List.Forall₂ (Lists s) installed contents ∧
      Laid (contents.map s.unpack) w.tree w'.tree ∧ Stocked s selections w.cache w'.cache ∧
      w'.Within S := by
  obtain ⟨selections,w₁,hlift,hrun⟩ := bind_done.mp h
  obtain ⟨hresolve,hw⟩ := liftExcept_done hlift
  subst hw
  have hresolved : resolve s request = .ok selections := by
    cases hr : resolve s request with
    | error e =>
      rw [hr] at hresolve
      cases hresolve
    | ok found =>
      rw [hr] at hresolve
      cases hresolve
      rfl
  obtain ⟨hlength,hsizes⟩ := resolved hresolved
  have hzip : (request.names.zip selections).map (·.2) = selections :=
    List.map_snd_zip (le_of_eq hlength)
  obtain ⟨contents,hpins,hlists,hlaid,hstocked,hwithin'⟩ := installEach_done hfree
    (fun pair hpair => hsizes pair.2 (List.of_mem_zip hpair).2) hwithin (laid_nil w₁.tree) hrun
  rw [hzip] at hpins hstocked
  exact ⟨selections,contents,hresolved,hpins,hlists,hlaid,hstocked,hwithin'⟩

/-- After a call that succeeds the listed files hold their own bytes exactly when no archive
disturbs another one or itself. A second one changes no file, and one that cannot resolve a name
changes nothing. -/
theorem install_own_bytes_iff (s : Surroundings δ) (S : Set Bytes) (request : ExtensionRequest δ)
    (w : World δ) (hfree : CollisionFree s S) (hwithin : w.Within S) :
    (∀ installed w', installExtensions s request w = .done installed w' →
      ∃ selections contents, resolve s request = .ok selections ∧
        List.Forall₂ (Pins s S) selections contents ∧
        (List.Forall₂ (HoldsOwn s w'.tree) installed contents ↔
          Undisturbed (contents.map s.unpack)) ∧
        ∀ installed' w'', installExtensions s request w' = .done installed' w'' →
          KeepsContents w' w'') ∧
    ∀ manifest running name e, load s.host s.sha request.manifest = .ok manifest →
      runningVersion s.host = .ok running → name ∈ request.names →
      manifest.select s.host name running s.host.target = .error e →
      ∃ e', installExtensions s request w = .failed (.manifest e') w ∧
        (ExtensionError.manifest e').kind = .unavailable := by
  refine ⟨fun installed w' hrun => ?_,fun manifest running name e hload hrunning hname herror =>
    unresolved_untouched w hload hrunning hname herror⟩
  obtain ⟨selections,contents,hresolve,hpins,hlists,hlaid,hstocked,hwithin'⟩ :=
    installExtensions_done hfree hwithin hrun
  refine ⟨selections,contents,hresolve,hpins,?_,fun installed' w'' hrun' => ?_⟩
  · rw [allHoldOwn_iff hlists hlaid (fun bytes hbytes => List.mem_map_of_mem hbytes),Undisturbed,
      List.forall_mem_map]
  · obtain ⟨selections',contents',hresolve',hpins',-,hlaid',hstocked',-⟩ :=
      installExtensions_done hfree hwithin' hrun'
    rw [hresolve] at hresolve'
    cases hresolve'
    rw [← Pins.unique hfree hpins hpins'] at hlaid'
    exact keepsContents_again hlaid hstocked hlaid' hstocked'

end Pipeline

/-! ### Two archives with one path -/

def sharedPath : RelPath := [libDir,"shared.so".toList]

def archiveWith (content : Bytes) : Archive :=
  ⟨true,[some ⟨.regular,ascii "lib/shared.so",some content.length,content,true⟩]⟩

def artifactWith (content : Bytes) : ManifestArtifact Bytes where
  postgresql := "17.11.0".toList
  target := "x86_64-unknown-linux-gnu".toList
  file := "archive.tar.gz".toList
  url := "https://example.com/archive.tar.gz".toList
  sha256 := content
  size := content.length
  files := ["lib/shared.so".toList]

def sharingManifest : Manifest Bytes where
  schemaVersion := 1
  extensions :=
    [⟨"first".toList,"1.0".toList,[artifactWith [1]]⟩,
      ⟨"second".toList,"1.0".toList,[artifactWith [2]]⟩]

def sampleHost : Host Bytes where
  target := "x86_64-unknown-linux-gnu".toList
  parseVersion := fun text => if text = "17.11.0".toList then some ⟨17,11⟩ else none
  parseUrl := fun _ => some ⟨"https".toList,some "example.com".toList⟩
  isLoopbackIp := fun _ => false
  parseJson := fun _ => some sharingManifest
  readFile := fun _ => some []
  fetch := fun _ => none
  dirName := some "17.11.0".toList
  pgConfig := none

def samplePlace : Surroundings Bytes where
  host := sampleHost
  sha := id
  unpack := archiveWith
  os := quietOs
  download := fun _ _ => none
  root := sampleRoot

/-- Both archives are cached. -/
def sampleWorld : World Bytes where
  disk := emptyDisk
  cache := ⟨fun _ => true,fun _ => true,fun digest _ =>
    if digest = [1] ∨ digest = [2] then some (.file digest) else none⟩

def requestFor (names : List ExtensionName) : ExtensionRequest Bytes :=
  ⟨names,.path "manifest.json".toList none⟩

def firstName : ExtensionName := ⟨"first".toList,by decide⟩

def secondName : ExtensionName := ⟨"second".toList,by decide⟩

theorem samplePlace_collisionFree : CollisionFree samplePlace Set.univ :=
  ⟨Set.injOn_id _,fun _ _ _ _ _ => Set.mem_univ _,fun _ _ _ _ => Set.mem_univ _⟩

theorem sampleWorld_within : sampleWorld.Within Set.univ :=
  ⟨fun _ _ _ => Set.mem_univ _,fun _ _ _ _ => Set.mem_univ _⟩

theorem install_own_bytes_iff_one :
    ∃ e w', installExtensions samplePlace (requestFor [firstName]) sampleWorld = .done [e] w' ∧
      e.files = [sharedPath] ∧ HoldsOwn samplePlace w'.tree e [1] := by
  have hruns : (installExtensions samplePlace (requestFor [firstName]) sampleWorld).satisfies
      (fun installed _ => installed.map (·.files) = [[sharedPath]]) = true := by decide +kernel
  obtain ⟨installed,w',hrun,hfiles⟩ := exists_of_satisfies hruns
  simp only [decide_eq_true_eq] at hfiles
  obtain ⟨selections,contents,hresolve,hpins,hiff,-⟩ := (install_own_bytes_iff samplePlace Set.univ
    (requestFor [firstName]) sampleWorld samplePlace_collisionFree sampleWorld_within).1
    installed w' hrun
  have hselected : resolve samplePlace (requestFor [firstName]) =
      .ok [⟨⟨"first".toList,"1.0".toList,[artifactWith [1]]⟩,artifactWith [1]⟩] := by decide +kernel
  rw [hselected] at hresolve
  cases hresolve
  cases hpins with
  | cons hpin hrest =>
    cases hrest
    obtain ⟨-,hdigest⟩ := hpin
    cases hdigest
    have hown : ∀ entry ∈ (archiveWith [1]).entries, ∀ file ∈ entry.planned,
        ∀ last ∈ lastAmong [archiveWith [1]] file.relative, last.data = entry.data := by decide
    have hundisturbed : Undisturbed ([([1] : Bytes)].map samplePlace.unpack) := by
      intro archive harchive
      rw [List.mem_singleton.mp harchive]
      exact fun entry hentry file hfile last hlast => hown entry hentry file hfile last hlast
    cases hiff.mpr hundisturbed with
    | @cons e _ _ _ hholds hnil =>
      cases hnil
      simp only [List.map_cons,List.map_nil,List.cons.injEq,and_true] at hfiles
      exact ⟨e,w',hrun,hfiles,hholds⟩

/-- The manifest is accepted and both extensions are reported as installed, but the file that is
listed for the first one holds the bytes of the second one. -/
theorem install_first_overwritten :
    Manifest.parse sampleHost [] = .ok sharingManifest ∧
    ∃ e other w', installExtensions samplePlace (requestFor [firstName,secondName]) sampleWorld =
        .done [e,other] w' ∧ e.name = firstName ∧ e.archiveSha256 = [1] ∧ e.files = [sharedPath] ∧
      w'.tree.node (placeOf sharedPath) = some (.file ⟨[2],0o755,⟨1000,1000⟩⟩) ∧
      ¬ HoldsOwn samplePlace w'.tree e [1] := by
  refine ⟨by decide +kernel,?_⟩
  have hruns : (installExtensions samplePlace (requestFor [firstName,secondName])
      sampleWorld).satisfies (fun installed w =>
        installed.map (fun e => (e.name,e.archiveSha256,e.files)) =
          [(firstName,[1],[sharedPath]),(secondName,[2],[sharedPath])] ∧
        w.tree.node (placeOf sharedPath) = some (.file ⟨[2],0o755,⟨1000,1000⟩⟩)) = true := by
    decide +kernel
  obtain ⟨installed,w',hrun,hwanted⟩ := exists_of_satisfies hruns
  simp only [decide_eq_true_eq] at hwanted
  obtain ⟨hinstalled,hnode⟩ := hwanted
  obtain ⟨e,rest,rfl,he,hrest⟩ := List.map_eq_cons_iff.mp hinstalled
  obtain ⟨other,rest,rfl,-,hnil⟩ := List.map_eq_cons_iff.mp hrest
  obtain rfl := List.map_eq_nil_iff.mp hnil
  simp only [Prod.mk.injEq] at he
  obtain ⟨hname,hdigest,hfiles⟩ := he
  refine ⟨e,other,w',hrun,hname,hdigest,hfiles,hnode,fun hholds => ?_⟩
  have hentry : ∃ entry ∈ (archiveWith [1]).entries, entry.data = [1] ∧
      entry.planned.map (·.relative) = some sharedPath := by decide +kernel
  obtain ⟨entry,hmem,hdata,hplanned⟩ := hentry
  obtain ⟨file,hfile,hrelative⟩ := Option.map_eq_some_iff.mp hplanned
  have hlisted : sharedPath ∈ e.files := by simp [hfiles]
  obtain ⟨data,hfound,hbytes⟩ := (hholds sharedPath hlisted).2 entry hmem file hfile hrelative
  rw [hnode,Option.some.injEq,Node.file.injEq] at hfound
  rw [← hfound,hdata] at hbytes
  simp at hbytes

end PgEmbedSetup.Extensions
