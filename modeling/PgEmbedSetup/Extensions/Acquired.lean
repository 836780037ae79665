import PgEmbedSetup.Extensions.Exactness
import PgEmbedSetup.Extensions.Pipeline

set_option autoImplicit false

/-!
What each part of the pipeline does when it succeeds, and what the resolution of the names
guarantees.
-/

namespace PgEmbedSetup.Extensions
open Library

/-! ### Calls -/

section Calls
variable {δ α : Type} {w w' : World δ}

theorem onDisk_done {x : Fs InstallError α} {a : α} (h : onDisk x w = .done a w') :
    x w.disk = .done a w'.disk ∧ w'.cache = w.cache := by
  unfold onDisk at h
  cases hx : x w.disk with
  | done b d =>
    rw [hx] at h
    cases h
    exact ⟨rfl,rfl⟩
  | failed e d =>
    rw [hx] at h
    cases h
  | hangs d =>
    rw [hx] at h
    cases h

theorem cacheCall_done {os : Os} {error : ExtensionError δ} {act : Cache δ → α × Cache δ} {a : α}
    (h : cacheCall os error act w = .done a w') :
    a = (act w.cache).1 ∧ w'.cache = (act w.cache).2 ∧ w'.tree = w.tree := by
  unfold cacheCall at h
  split at h <;> cases h
  exact ⟨rfl,rfl,rfl⟩

theorem cacheTry_done {os : Os} {f : Cache δ → α} {r : Option α}
    (h : cacheTry os f w = .done r w') :
    w'.cache = w.cache ∧ w'.tree = w.tree ∧ ∀ a, r = some a → a = f w.cache := by
  unfold cacheTry at h
  split at h <;> cases h
  · exact ⟨rfl,rfl,fun a ha => by cases ha⟩
  · exact ⟨rfl,rfl,fun a ha => (Option.some.inj ha).symm⟩

theorem liftExcept_done {x : Except (ExtensionError δ) α} {a : α}
    (h : liftExcept x w = .done a w') : x = .ok a ∧ w' = w := by
  cases x with
  | error e => exact absurd h fail_done
  | ok b =>
    obtain ⟨rfl,rfl⟩ := pure_done.mp h
    exact ⟨rfl,rfl⟩

end Calls

section Pipeline
variable {δ : Type} [DecidableEq δ] {s : Surroundings δ} {w w' : World δ}
  {artifact : ManifestArtifact δ}

/-! ### Acquiring -/

/-- The artifact's own entry holds bytes of its digest: those it held, or downloaded ones. -/
structure Acquired (s : Surroundings δ) (artifact : ManifestArtifact δ) (before after : Cache δ) :
    Prop where
  others : ∀ digest file, ¬ (digest = artifact.sha256 ∧ file = artifact.file) →
    after.entry digest file = before.entry digest file
  found : ∃ bytes, after.entry artifact.sha256 artifact.file = some (.file bytes) ∧
    s.sha bytes = artifact.sha256 ∧
    (before.entry artifact.sha256 artifact.file = some (.file bytes) ∨
      ∃ moment body, s.download moment artifact.url = some body ∧
        bytes = body.take (artifact.size+1))

theorem setEntry_self (c : Cache δ) (digest : δ) (file : Text) (found : Option CacheEntry) :
    (c.setEntry digest file found).entry digest file = found := by
  simp [Cache.setEntry]

theorem setEntry_of_ne (c : Cache δ) {digest other : δ} {file name : Text}
    (found : Option CacheEntry) (h : ¬ (other = digest ∧ name = file)) :
    (c.setEntry digest file found).entry other name = c.entry other name := by
  by_cases hd : other = digest
  · subst hd
    have hn : name ≠ file := fun hn => h ⟨rfl,hn⟩
    simp [Cache.setEntry,hn]
  · simp [Cache.setEntry,hd]

theorem cachedState_done {state : CachedState} (h : cachedState s artifact w = .done state w') :
    w'.cache = w.cache ∧ w'.tree = w.tree ∧ (state = .valid → ∃ bytes,
      w.cache.entry artifact.sha256 artifact.file = some (.file bytes) ∧
      s.sha bytes = artifact.sha256) := by
  obtain ⟨found,w₁,htry,h⟩ := bind_done.mp h
  obtain ⟨hcache,htree,hfound⟩ := cacheTry_done htry
  rcases found with _ | _ | bytes | _ | _
  case some.some.file =>
    have hentry := hfound _ rfl
    obtain ⟨actual,w₂,hread,h⟩ := bind_done.mp h
    obtain ⟨hcache',htree',hactual⟩ := cacheTry_done hread
    refine ⟨?_,?_,fun hvalid => ⟨bytes,hentry.symm,?_⟩⟩
    · cases actual <;> cases h <;> exact hcache'.trans hcache
    · cases actual <;> cases h <;> exact htree'.trans htree
    · cases actual with
      | none =>
        cases h
        cases hvalid
      | some actual =>
        obtain ⟨rfl,-⟩ := pure_done.mp h
        split at hvalid
        · next heq => rw [← heq,hactual _ rfl]
        · cases hvalid
  all_goals
    cases h
    exact ⟨hcache,htree,fun hvalid => by cases hvalid⟩

theorem clearUnusableEntry_done (h : clearUnusableEntry s artifact w = .done () w') :
    w'.tree = w.tree ∧ ∀ digest file, ¬ (digest = artifact.sha256 ∧ file = artifact.file) →
      w'.cache.entry digest file = w.cache.entry digest file := by
  obtain ⟨found,w₁,hlook,h⟩ := bind_done.mp h
  obtain ⟨-,hcache,htree⟩ := cacheCall_done hlook
  rcases found with _ | bytes | _ | _
  case some.dir | some.other =>
    obtain ⟨-,hcache',htree'⟩ := cacheCall_done h
    refine ⟨htree'.trans htree,fun digest file hne => ?_⟩
    rw [hcache',setEntry_of_ne _ _ hne,hcache]
  all_goals
    cases h
    exact ⟨htree,fun digest file _ => by rw [hcache]⟩

omit [DecidableEq δ] in
theorem httpGet_done {url : Text} {cap : Nat} {body : Option Bytes}
    (h : httpGet s url cap w = .done body w') :
    w'.cache = w.cache ∧ w'.tree = w.tree ∧ ∀ bytes, body = some bytes →
      ∃ moment whole, s.download moment url = some whole ∧ bytes = whole.take (cap+1) := by
  unfold httpGet at h
  cases h
  refine ⟨rfl,rfl,fun bytes hbytes => ?_⟩
  obtain ⟨whole,hwhole,rfl⟩ := Option.map_eq_some_iff.mp hbytes
  split at hwhole
  · exact ⟨_,whole,hwhole,rfl⟩
  · cases hwhole

theorem download_done (h : download s artifact w = .done () w') :
    w'.tree = w.tree ∧ ∃ bytes, w'.cache = w.cache.setEntry artifact.sha256 artifact.file
        (some (.file bytes)) ∧ s.sha bytes = artifact.sha256 ∧
      ∃ moment body, s.download moment artifact.url = some body ∧
        bytes = body.take (artifact.size+1) := by
  obtain ⟨_,w₁,htemp,h⟩ := bind_done.mp h
  obtain ⟨-,hcache₁,htree₁⟩ := cacheCall_done htemp
  obtain ⟨body,w₂,hget,h⟩ := bind_done.mp h
  obtain ⟨hcache₂,htree₂,hbody⟩ := httpGet_done hget
  cases body with
  | none => exact absurd h fail_done
  | some bytes =>
    dsimp only at h
    split at h
    · exact absurd h fail_done
    · next hmatches =>
      push Not at hmatches
      obtain ⟨-,hcache₃,htree₃⟩ := cacheCall_done h
      refine ⟨htree₃.trans (htree₂.trans htree₁),bytes,?_,hmatches.2,hbody bytes rfl⟩
      rw [hcache₃,hcache₂,hcache₁]

theorem acquire_done {origin : ArchiveOrigin} (h : acquire s artifact w = .done origin w') :
    w'.tree = w.tree ∧ Acquired s artifact w.cache w'.cache := by
  obtain ⟨_,w₁,hdir,h⟩ := bind_done.mp h
  obtain ⟨-,hcache₁,htree₁⟩ := cacheCall_done hdir
  obtain ⟨_,w₂,hlock,h⟩ := bind_done.mp h
  obtain ⟨-,hcache₂,htree₂⟩ := cacheCall_done hlock
  obtain ⟨state,w₃,hstate,h⟩ := bind_done.mp h
  obtain ⟨hcache₃,htree₃,hvalid⟩ := cachedState_done hstate
  have htree : w₃.tree = w.tree := htree₃.trans (htree₂.trans htree₁)
  have hentry : w₂.cache.entry = w.cache.entry := by rw [hcache₂,hcache₁]
  have hcleared : ∀ {w₃ : World δ}, w₃.tree = w.tree → w₃.cache = w₂.cache →
      (clearUnusableEntry s artifact >>= fun _ => download s artifact >>= fun _ =>
        (pure .downloaded : Inst δ ArchiveOrigin)) w₃ = .done origin w' →
      w'.tree = w.tree ∧ Acquired s artifact w.cache w'.cache := by
    intro w₃ htree hcache₃ h
    obtain ⟨_,w₄,hclear,h⟩ := bind_done.mp h
    obtain ⟨htree₄,hothers⟩ := clearUnusableEntry_done hclear
    obtain ⟨_,w₅,hdownload,h⟩ := bind_done.mp h
    obtain ⟨htree₅,bytes,hcache₅,hsha,hbody⟩ := download_done hdownload
    obtain ⟨-,rfl⟩ := pure_done.mp h
    refine ⟨htree₅.trans (htree₄.trans htree),fun digest file hne => ?_,bytes,?_,hsha,.inr hbody⟩
    · rw [hcache₅,setEntry_of_ne _ _ hne,hothers _ _ hne,hcache₃,hentry]
    · rw [hcache₅,setEntry_self]
  cases state with
  | valid =>
    obtain ⟨bytes,hbytes,hsha⟩ := hvalid rfl
    obtain ⟨-,rfl⟩ := pure_done.mp h
    refine ⟨htree,fun digest file _ => by rw [hcache₃,hentry],bytes,?_,hsha,.inl ?_⟩
    · rw [hcache₃]
      exact hbytes
    · rw [← hentry]
      exact hbytes
  | missing | corrupt | unreadable => exact hcleared htree hcache₃ h

/-! ### Installing one archive -/

theorem readVerified_done {bytes : Bytes} (hsize : artifact.size ≤ archiveSizeCap)
    (h : readVerified s artifact w = .done bytes w') :
    w'.cache = w.cache ∧ w'.tree = w.tree ∧
      w.cache.entry artifact.sha256 artifact.file = some (.file bytes) ∧
      s.sha bytes = artifact.sha256 := by
  obtain ⟨found,w₁,hopen,h⟩ := bind_done.mp h
  obtain ⟨hfound,hcache₁,htree₁⟩ := cacheCall_done hopen
  rcases found with _ | content | _ | _
  case some.file =>
    obtain ⟨taken,w₂,hread,h⟩ := bind_done.mp h
    obtain ⟨htaken,hcache₂,htree₂⟩ := cacheCall_done hread
    split at h
    · exact absurd h fail_done
    · next hmatches =>
      push Not at hmatches
      obtain ⟨rfl,rfl⟩ := pure_done.mp h
      have hwhole : taken = content := by
        have hlength := hmatches.1
        rw [htaken] at hlength ⊢
        simp only [List.length_take,saturatingAdd,u64Max] at hlength ⊢
        simp only [archiveSizeCap] at hsize
        exact List.take_of_length_le (by omega)
      refine ⟨hcache₂.trans hcache₁,htree₂.trans htree₁,?_,hmatches.2⟩
      rw [hwhole]
      exact hfound.symm
  all_goals exact absurd h fail_done

theorem installArchive_done {files : List RelPath} (hsize : artifact.size ≤ archiveSizeCap)
    (h : installArchive s artifact w = .done files w') :
    w'.cache = w.cache ∧ ∃ bytes planned d,
      w.cache.entry artifact.sha256 artifact.file = some (.file bytes) ∧
      s.sha bytes = artifact.sha256 ∧ plan (s.unpack bytes) artifact.files = .ok planned ∧
      files = planned.map (·.relative) ∧ d.tree = w.tree ∧
      writeAll s.sha s.os s.root (s.unpack bytes) planned d = .done () w'.disk := by
  obtain ⟨bytes,w₁,hread,h₁⟩ := bind_done.mp h
  obtain ⟨hcache₁,htree₁,hentry,hsha⟩ := readVerified_done hsize hread
  obtain ⟨planned,w₂,hlift,h₂⟩ := bind_done.mp h₁
  obtain ⟨hplan,hw₂⟩ := liftExcept_done hlift
  obtain ⟨_,w₃,hdisk,h₃⟩ := bind_done.mp h₂
  obtain ⟨hwrite,hcache₃⟩ := onDisk_done hdisk
  obtain ⟨hfiles,hw₃⟩ := pure_done.mp h₃
  rw [hw₂] at hwrite hcache₃
  rw [hw₃] at hwrite hcache₃
  refine ⟨hcache₃.trans hcache₁,bytes,planned,w₁.disk,hentry,hsha,?_,hfiles.symm,htree₁,hwrite⟩
  cases hp : plan (s.unpack bytes) artifact.files with
  | error detail =>
    rw [hp] at hplan
    cases hplan
  | ok found =>
    rw [hp] at hplan
    cases hplan
    rfl

end Pipeline

/-! ### Resolving the names -/

section Resolve
variable {ε α β : Type}

theorem forM_ok {f : α → Except ε Unit} {xs : List α} (h : xs.forM f = .ok ()) :
    ∀ x ∈ xs, f x = .ok () := by
  induction xs with
  | nil => exact fun x hx => by cases hx
  | cons y ys ih =>
    change (f y >>= fun _ => ys.forM f) = .ok () at h
    cases hy : f y with
    | error e =>
      rw [hy] at h
      cases h
    | ok u =>
      rw [hy] at h
      intro x hx
      rcases List.mem_cons.mp hx with rfl | hx
      · exact hy
      · exact ih h x hx

theorem mapM_ok {f : α → Except ε β} {xs : List α} {ys : List β} (h : xs.mapM f = .ok ys) :
    ys.length = xs.length ∧ ∀ y ∈ ys, ∃ x ∈ xs, f x = .ok y := by
  induction xs generalizing ys with
  | nil =>
    cases h
    exact ⟨rfl,fun y hy => by cases hy⟩
  | cons x xs ih =>
    rw [List.mapM_cons] at h
    cases hx : f x with
    | error e =>
      rw [hx] at h
      cases h
    | ok y =>
      cases hxs : xs.mapM f with
      | error e =>
        rw [hx,hxs] at h
        cases h
      | ok rest =>
        rw [hx,hxs] at h
        cases h
        obtain ⟨hlength,hall⟩ := ih hxs
        refine ⟨by simp [hlength],fun z hz => ?_⟩
        rcases List.mem_cons.mp hz with rfl | hz
        · exact ⟨x,List.mem_cons_self ..,hx⟩
        · obtain ⟨v,hv,hz⟩ := hall z hz
          exact ⟨v,List.mem_cons_of_mem _ hv,hz⟩

theorem mapM_error {f : α → Except ε β} {xs : List α} {x : α} (hmem : x ∈ xs) {e : ε}
    (h : f x = .error e) : ∃ y ∈ xs, ∃ e', f y = .error e' ∧ xs.mapM f = .error e' := by
  induction xs with
  | nil => cases hmem
  | cons y ys ih =>
    rw [List.mapM_cons]
    cases hy : f y with
    | error e' => exact ⟨y,List.mem_cons_self ..,e',hy,rfl⟩
    | ok b =>
      have hys : x ∈ ys := by
        rcases List.mem_cons.mp hmem with rfl | hys
        · rw [h] at hy
          cases hy
        · exact hys
      obtain ⟨z,hz,e',he',hmap⟩ := ih hys
      exact ⟨z,List.mem_cons_of_mem _ hz,e',he',by rw [hmap]; rfl⟩

end Resolve

section Pipeline
variable {δ : Type} [DecidableEq δ] {s : Surroundings δ} {request : ExtensionRequest δ}
  {manifest : Manifest δ} {running : Version} {selections : List (Selection δ)}

omit [DecidableEq δ] in
/-- Every entry of an accepted manifest is named as the schema wants, and passes its checks. -/
theorem validated_of_parse {host : Host δ} {bytes : Bytes}
    (h : Manifest.parse host bytes = .ok manifest) {extension : ManifestExtension δ}
    (hextension : extension ∈ manifest.extensions) :
    isExtensionName extension.name = true ∧ ∀ artifact ∈ extension.artifacts,
      validateArtifact host extension.name artifact = .ok () := by
  have hvalid : manifest.validate host = .ok () := by
    unfold Manifest.parse at h
    cases hjson : host.parseJson bytes with
    | none =>
      rw [hjson] at h
      cases h
    | some found =>
      rw [hjson] at h
      cases hv : found.validate host with
      | error e =>
        simp only [hv] at h
        cases h
      | ok u =>
        simp only [hv] at h
        cases h
        exact hv
  unfold Manifest.validate at hvalid
  split at hvalid
  · cases hvalid
  · have hone := forM_ok hvalid extension hextension
    unfold validateExtension at hone
    split at hone
    · cases hone
    · next hname => exact ⟨by simpa using hname,fun artifact => forM_ok hone artifact⟩

omit [DecidableEq δ] in
/-- An artifact that passes its checks has a version, and is no larger than the cap. -/
theorem validateArtifact_ok {host : Host δ} {name : Text} {artifact : ManifestArtifact δ}
    (h : validateArtifact host name artifact = .ok ()) :
    (∃ built, artifactVersion host artifact = some built) ∧ artifact.size ≤ archiveSizeCap := by
  unfold validateArtifact at h
  split at h
  · cases h
  · next hversion =>
    refine ⟨Option.ne_none_iff_exists'.mp (by simpa using hversion),?_⟩
    split at h
    · cases h
    · split at h
      · cases h
      · next hsize =>
        push Not at hsize
        exact hsize.2

theorem load_parsed {sha : Bytes → δ} {source : ManifestSource δ}
    (h : load s.host sha source = .ok manifest) :
    ∃ bytes, Manifest.parse s.host bytes = .ok manifest := by
  unfold load at h
  cases hread : readSource s.host source with
  | error e =>
    rw [hread] at h
    cases h
  | ok found =>
    obtain ⟨bytes,pinned⟩ := found
    rw [hread] at h
    cases pinned with
    | none => exact ⟨bytes,h⟩
    | some expected =>
      change (verifyDigest sha bytes expected source >>= fun _ => Manifest.parse s.host bytes) =
        .ok manifest at h
      cases hverify : verifyDigest sha bytes expected source with
      | error e =>
        rw [hverify] at h
        cases h
      | ok u =>
        rw [hverify] at h
        exact ⟨bytes,h⟩

omit [DecidableEq δ] in
theorem select_mem {name : ExtensionName} {target : Text} {selection : Selection δ}
    (h : manifest.select s.host name running target = .ok selection) :
    selection.extension ∈ manifest.extensions ∧
      selection.artifact ∈ selection.extension.artifacts := by
  unfold Manifest.select at h
  split at h
  · cases h
  · next extension hfind =>
    split at h
    · cases h
    · next artifact hartifact =>
      cases h
      exact ⟨List.mem_of_find?_eq_some hfind,List.mem_of_find?_eq_some hartifact⟩

theorem resolve_ok (h : resolve s request = .ok selections) :
    ∃ manifest running, load s.host s.sha request.manifest = .ok manifest ∧
      runningVersion s.host = .ok running ∧ selectAll s request manifest running = .ok selections := by
  unfold resolve at h
  cases hload : load s.host s.sha request.manifest with
  | error e =>
    rw [hload] at h
    cases h
  | ok manifest =>
    rw [hload] at h
    cases hrunning : runningVersion s.host with
    | error e =>
      rw [hrunning] at h
      cases h
    | ok running =>
      rw [hrunning] at h
      exact ⟨manifest,running,rfl,rfl,h⟩

/-- Every name is resolved, to an artifact whose size the manifest may declare. -/
theorem resolved (h : resolve s request = .ok selections) :
    selections.length = request.names.length ∧
      ∀ selection ∈ selections, selection.artifact.size ≤ archiveSizeCap := by
  obtain ⟨manifest,running,hload,-,hselect⟩ := resolve_ok h
  obtain ⟨bytes,hparse⟩ := load_parsed hload
  obtain ⟨hlength,hall⟩ := mapM_ok hselect
  refine ⟨hlength,fun selection hselection => ?_⟩
  obtain ⟨name,-,hname⟩ := hall selection hselection
  obtain ⟨hextension,hartifact⟩ := select_mem hname
  exact (validateArtifact_ok ((validated_of_parse hparse hextension).2 _ hartifact)).2

/-- A name that cannot be resolved stops the pipeline before it does anything. -/
theorem unresolved_untouched (w : World δ) (hload : load s.host s.sha request.manifest = .ok manifest)
    (hrunning : runningVersion s.host = .ok running) {name : ExtensionName}
    (hname : name ∈ request.names) {e : ManifestError δ}
    (h : manifest.select s.host name running s.host.target = .error e) :
    ∃ e', installExtensions s request w = .failed (.manifest e') w ∧
      (ExtensionError.manifest e').kind = .unavailable := by
  obtain ⟨other,-,e',he',hmap⟩ := mapM_error
    (f := fun name => manifest.select s.host name running s.host.target) hname h
  have hresolve : resolve s request = .error e' := by
    unfold resolve
    rw [hload,hrunning]
    exact hmap
  refine ⟨e',?_,?_⟩
  · change Prog.bind (liftExcept ((resolve s request).mapError .manifest)) _ w = _
    rw [hresolve]
    rfl
  · unfold Manifest.select at he'
    split at he'
    · cases he'
      rfl
    · split at he' <;> cases he'
      rfl

end Pipeline

end PgEmbedSetup.Extensions
