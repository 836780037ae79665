import PgEmbedSetup.Startup.Files

set_option autoImplicit false

/-!
No cache entry gets a file from an extension hook, as long as no population begins from a tree in
which a hook has left one: the setup lock keeps every hook out while the tree is copied.
-/

namespace PgEmbedSetup.Startup.Files
open Library

/-- Where a run is with its lock, and the tree from which it fills the cache. -/
structure FileGhost where
  run : Ghost
  filling : Option (Path Bytes)

def filledFrom : Op → Option (Path Bytes)
  | .populateCache _ _ source => some source
  | _ => none

def FileGhost.Allows (g : FileGhost) : Act → Prop
  | .dies me | .closeFiles me => me = g.run.me
  | .begins op | .returns op => g.run.admits op
  | .piece op _ => g.run.admits op ∧ g.filling = filledFrom op

def FileGhost.after (g : FileGhost) : (a : Act) → Answer a → FileGhost
  | .closeFiles _, _ => ⟨{ g.run with holding := .nothing },none⟩
  | .begins op, _ => { g with filling := filledFrom op }
  | .returns op, r => ⟨g.run.after op r,none⟩
  | .dies _, _ | .piece _ _, _ => g

def files : Outline Act Answer FileGhost where
  ok := FileGhost.Allows
  next g a r g' := g' = g.after a r
  final g := g.run.holding = .nothing ∧ g.filling = none

theorem files_act {α : Type} {g : FileGhost} {a : Act} {f : Answer a → Steps α}
    {post : α → FileGhost → Prop} (hok : g.Allows a)
    (hnext : ∀ r, files.wp (f r) post (g.after a r)) : files.wp (act a >>= f) post g := by
  refine wp_perform_bind.mpr ⟨hok,?_⟩
  rintro r g' rfl
  exact hnext r

theorem survives_wp {α : Type} {g : FileGhost} {next : Steps (Option α)}
    {post : Option α → FileGhost → Prop}
    (hdead : post none ⟨{ g.run with holding := .nothing },none⟩) (hnext : files.wp next post g) :
    files.wp (survives g.run.me next) post g := by
  refine files_act rfl (fun dead => ?_)
  cases dead with
  | true => exact files_act rfl (fun _ => hdead)
  | false => exact hnext

/-- How a call spelled out ends: the process is dead, or it goes on as after the call. -/
def Ends (g : Ghost) (op : Op) : Option (Reply op) → FileGhost → Prop
  | none, g' => files.final g'
  | some r, g' => ∃ g₁, guarded.next g op r g₁ ∧ g₁.me = g.me ∧ g' = ⟨g₁,none⟩

theorem finish_wp {g : Ghost} {op : Op} (hok : g.admits op) (xs : List Piece) :
    files.wp (finish g.me op xs) (Ends g op) ⟨g,filledFrom op⟩ := by
  induction xs with
  | nil =>
    refine survives_wp (g := ⟨g,filledFrom op⟩) ⟨rfl,rfl⟩ (files_act hok (fun r => ?_))
    exact ⟨g.after op r,rfl,rfl,rfl⟩
  | cons x rest ih =>
    refine survives_wp (g := ⟨g,filledFrom op⟩) ⟨rfl,rfl⟩ (files_act ⟨hok,rfl⟩ (fun _ => ?_))
    exact ih

theorem perform_wp {g : Ghost} {op : Op} (hok : g.admits op) :
    files.wp (perform g.me op) (Ends g op) ⟨g,none⟩ := by
  refine survives_wp (g := ⟨g,none⟩) ⟨rfl,rfl⟩ (files_act hok (fun xs => ?_))
  exact finish_wp hok xs

theorem program_files (isVersion : Text → Bool) (me : RunId) (r : Run) :
    files.Safe (program isVersion me r) ⟨⟨me,r.root,.nothing⟩,none⟩ := by
  have hfinal : ∀ g, guarded.final g → files.final ⟨g,none⟩ := fun g hg => ⟨hg,rfl⟩
  refine safe_handle (I := fun g => g.me = me) hfinal ?_ rfl (program_safe isVersion me r)
  rintro g op rfl hok
  refine wp_mono (perform_wp hok) (fun r g' hends => ?_)
  cases r <;> exact hends

/-! ### The files -/

theorem pristine_add {files : Contents} {f : File} (h : pristine files = true)
    (hf : f.byHook = false) : pristine (files.add f) = true := by
  refine List.all_eq_true.mpr (fun g hg => ?_)
  rcases List.mem_cons.mp hg with rfl | hg
  · simp [hf]
  · exact List.all_eq_true.mp h g (List.mem_of_mem_filter hg)

theorem byHook_of_pristine {files : Contents} {f : File} (h : pristine files = true)
    (hf : f ∈ files) : f.byHook = false := by
  simpa using List.all_eq_true.mp h f hf

theorem pristine_install {w : World} {dir source : Path Bytes} {f : File}
    (h : pristine (w.trees source) = true) (hf : f.byHook = false) :
    pristine ((w.install dir f).trees source) = true := by
  by_cases hdir : source = dir
  · subst hdir
    simpa [World.install] using pristine_add h hf
  · simpa [World.install,hdir] using h

theorem pristine_store {w : World} {version v : Text} {f : File}
    (h : pristine (w.entries v) = true) (hf : f.byHook = false) :
    pristine ((w.store version f).entries v) = true := by
  by_cases hv : v = version
  · subst hv
    simpa [World.store] using pristine_add h hf
  · simpa [World.store,hv] using h

section Worlds
variable {runs : List Run} {w w' : World} {ghosts : List FileGhost} {i : Nat} {g g' : FileGhost}

/-- Who fills the cache has the setup lock, and no hook has been at what is copied. -/
structure Clean (runs : List Run) (w : World) (ghosts : List FileGhost) : Prop where
  locks : Fits runs w.locks (ghosts.map FileGhost.run)
  entries : ∀ version, pristine (w.entries version) = true
  locked : ∀ (i : Nat) (g : FileGhost) source, ghosts[i]? = some g → g.filling = some source →
    ∃ inode, g.run.holding = .locked inode
  source : ∀ (i : Nat) (g : FileGhost) source, ghosts[i]? = some g → g.filling = some source →
    pristine (w.trees source) = true

theorem getElem?_run (hg : ghosts[i]? = some g) :
    (ghosts.map FileGhost.run)[i]? = some g.run := by
  rw [List.getElem?_map,hg,Option.map_some]

theorem Clean.set (h : Clean runs w ghosts)
    (hlocks : Fits runs w'.locks ((ghosts.map FileGhost.run).set i g'.run))
    (hentries : ∀ version, pristine (w'.entries version) = true)
    (hmine : ∀ source, g'.filling = some source →
      (∃ inode, g'.run.holding = .locked inode) ∧ pristine (w'.trees source) = true)
    (hothers : ∀ j k source, j ≠ i → ghosts[j]? = some k → k.filling = some source →
      pristine (w'.trees source) = true) : Clean runs w' (ghosts.set i g') := by
  refine ⟨by rw [List.map_set]; exact hlocks,hentries,?_,?_⟩
  · intro j k source hk hfilling
    rcases getElem?_set_some hk with ⟨rfl,rfl⟩ | ⟨_,hold⟩
    · exact (hmine source hfilling).1
    · exact h.locked j k source hold hfilling
  · intro j k source hk hfilling
    rcases getElem?_set_some hk with ⟨rfl,rfl⟩ | ⟨hji,hold⟩
    · exact (hmine source hfilling).2
    · exact hothers j k source hji hold hfilling

/-- A change of the files alone. -/
theorem Clean.change (h : Clean runs w ghosts) (hlocks : w'.locks = w.locks)
    (hentries : ∀ version, pristine (w'.entries version) = true)
    (hsource : ∀ (i : Nat) (g : FileGhost) source, ghosts[i]? = some g → g.filling = some source →
      pristine (w'.trees source) = true) : Clean runs w' ghosts :=
  ⟨by rw [hlocks]; exact h.locks,hentries,h.locked,hsource⟩

/-- What is not from a hook may go into any tree. -/
theorem Clean.install (h : Clean runs w ghosts) (dir : Path Bytes) {f : File}
    (hf : f.byHook = false) : Clean runs (w.install dir f) ghosts :=
  h.change rfl h.entries (fun i g source hg hfilling =>
    pristine_install (h.source i g source hg hfilling) hf)

/-- The hook's lock and the lock of who fills the cache are one. -/
theorem Clean.touch (h : Clean runs w ghosts) {root : Path Bytes}
    (hroot : ∀ r ∈ runs, r.root = root) (hg : ghosts[i]? = some g) {op : Op} {x : Piece}
    (hok : g.Allows (.piece op x)) : Clean runs (w.touch x op) ghosts := by
  obtain ⟨⟨hallows,_⟩,hfilling⟩ := hok
  cases op with
  | copyFromCache me version target =>
    simp only [World.touch]
    split
    · next hmem => exact h.install target (byHook_of_pristine (h.entries version) hmem)
    · exact h
  | setup me s cacheHit =>
    cases cacheHit
    · exact h.install x.dir rfl
    · exact h
  | populateCache me version source =>
    simp only [World.touch]
    split
    · next hmem =>
      have hf := byHook_of_pristine (h.source i g source hg hfilling) hmem
      exact h.change rfl (fun v => pristine_store (h.entries v) hf) h.source
    · exact h
  | installExtensions me names dir =>
    refine h.change rfl h.entries (fun j k source hk hsource => ?_)
    -- Another run fills the cache, which would have the lock as well.
    obtain ⟨r,hr,hgroot⟩ := (h.locks.own i g.run (getElem?_run hg)).2
    obtain ⟨r',hr',hkroot⟩ := (h.locks.own j k.run (getElem?_run hk)).2
    have hsame : g.run.root = k.run.root := by
      rw [hgroot,hkroot,hroot r (List.mem_of_getElem? hr),hroot r' (List.mem_of_getElem? hr')]
    have hij := h.locks.alone (getElem?_run hg) (getElem?_run hk) hsame (hallows rfl).2
      (h.locked j k source hk hsource)
    subst hij
    rw [hg] at hk
    cases hk
    rw [hfilling] at hsource
    cases hsource
  | _ => exact h

theorem Clean.step (h : Clean runs w ghosts) {root : Path Bytes}
    (hroot : ∀ r ∈ runs, r.root = root) (hg : ghosts[i]? = some g) {a : Act} {r : Answer a}
    (hok : g.Allows a)
    (hmeets : ∀ op source, a = .begins op → filledFrom op = some source →
      pristine (w.trees source) = true)
    (ha : answerAct w a r = some w') : Clean runs w' (ghosts.set i (g.after a r)) := by
  have hkept : ∀ j k source, j ≠ i → ghosts[j]? = some k → k.filling = some source →
      pristine (w.trees source) = true := fun j k source _ hk hfilling =>
    h.source j k source hk hfilling
  cases a with
  | dies me =>
    cases ha
    rw [show g.after (.dies me) r = g from rfl,set_same hg]
    exact h
  | closeFiles me =>
    cases ha
    obtain rfl : me = g.run.me := hok
    have hmine : g.run.allows (.closeLock g.run.me) := rfl
    have hclosed : answer w.locks (.closeLock g.run.me) () = some (w.locks.close g.run.me) := rfl
    have hlocks := h.locks.step (getElem?_run hg) hmine hclosed
    exact h.set hlocks h.entries (fun source hfilling => by cases hfilling) hkept
  | begins op =>
    cases ha
    refine h.set ?_ h.entries (fun source hfilling => ?_) hkept
    · rw [show (g.after (.begins op) r).run = g.run from rfl,set_same (getElem?_run hg)]
      exact h.locks
    · refine ⟨hok.2 ?_,hmeets op source rfl hfilling⟩
      cases op <;> first | rfl | cases hfilling
  | piece op x =>
    cases ha
    rw [show g.after (.piece op x) r = g from rfl,set_same hg]
    exact h.touch hroot hg hok
  | returns op =>
    obtain ⟨d,hd,rfl⟩ := Option.map_eq_some_iff.mp ha
    exact h.set (h.locks.step (getElem?_run hg) hok.1 hd) h.entries
      (fun source hfilling => by cases hfilling) hkept

end Worlds

/-! ### Every run -/

theorem pristine_nil : pristine [] = true := rfl

theorem Clean.user {runs : List Run} {w w' : World} {ghosts : List FileGhost}
    (h : Clean runs w ghosts) {u : UserAction} (hu : userStep w u = some w') :
    Clean runs w' ghosts := by
  cases u with
  | deleteEntry version =>
    cases hu
    refine h.change rfl (fun v => ?_) h.source
    by_cases hv : v = version
    · subst hv
      simpa using pristine_nil
    · simpa [hv] using h.entries v
  | deleteTree dir =>
    cases hu
    refine h.change rfl h.entries (fun i g source hg hfilling => ?_)
    by_cases hdir : source = dir
    · subst hdir
      simpa using pristine_nil
    · simpa [hdir] using h.source i g source hg hfilling

theorem files_preserves {runs : List Run} {root : Path Bytes} (hroot : ∀ r ∈ runs, r.root = root) :
    Preserves machine files (Clean runs) (fun s a => meets s a = true ∧ Uncut s a) := by
  refine ⟨?_,?_,?_⟩
  · intro s i a r w ghosts g hc ha hclean hg hok
    refine ⟨_,[],rfl,.nil,?_⟩
    rw [List.append_nil]
    refine hclean.step hroot hg hok ?_ ha
    rintro op source rfl hsource
    cases op with
    | populateCache me version source' =>
      cases hsource
      exact hc.1
    | _ => cases hsource
  · intro s i ghosts hc
    exact hc.2.elim
  · intro s e w ghosts _ hw hclean
    exact hclean.user hw

theorem begin_clean (isVersion : Text → Bool) (runs : List Run) (trees : Path Bytes → Contents)
    {entries : Text → Contents} (hentries : ∀ version, pristine (entries version) = true) :
    Outlined files (Clean runs) (begin isVersion trees entries runs) := by
  have hidle : ∀ (i : Nat) (g : FileGhost) source,
      ((outside runs).map fun g => (⟨g,none⟩ : FileGhost))[i]? = some g →
        g.filling ≠ some source := by
    intro i g source hg hfilling
    rw [List.getElem?_map,Option.map_eq_some_iff] at hg
    obtain ⟨_,_,rfl⟩ := hg
    cases hfilling
  refine ⟨(outside runs).map fun g => ⟨g,none⟩,?_,?_,hentries,?_,?_⟩
  · rw [begin,outside,List.forall₂_iff_get]
    refine ⟨by simp,fun i hi hi' => ?_⟩
    simp only [List.get_eq_getElem,List.getElem_map,List.getElem_mapIdx]
    exact program_files isVersion i _
  · have hmap : ((outside runs).map fun g => (⟨g,none⟩ : FileGhost)).map FileGhost.run = outside runs := by
      rw [List.map_map]
      exact List.map_id _
    rw [hmap]
    exact fits_outside runs
  · exact fun i g source hg hfilling => absurd hfilling (hidle i g source hg)
  · exact fun i g source hg hfilling => absurd hfilling (hidle i g source hg)

/-- What is copied from an entry without files from a hook is none itself. -/
theorem extensionFree_of_pristine {s : State} (h : ∀ version, pristine (s.world.entries version) = true) :
    ExtensionFree s := by
  refine ⟨fun version f hf => byHook_of_pristine (h version) hf,?_⟩
  intro i me version target x t hstep f hf
  have hworld : t.world = s.world.touch x (.copyFromCache me version target) := by
    simp only [Machine.step] at hstep
    split at hstep
    · rename_i hthread hanswer
      cases hanswer
      cases hstep
      rfl
    · cases hstep
  rw [hworld] at hf
  simp only [World.touch] at hf
  split at hf
  · rename_i hmem
    simp only [World.install,Function.update_self] at hf
    rcases List.mem_cons.mp hf with rfl | hf
    · exact .inr (byHook_of_pristine (h version) hmem)
    · exact .inl (List.mem_of_mem_filter hf)
  · exact .inl hf

def uncut : Action → Bool
  | .abort _ => false
  | _ => true

/-- The steps of a call that comes to the files and returns. -/
def does (me : RunId) (op : Op) (xs : List Piece) (r : Reply op) : List Action :=
  [.advance me (.dies me) false,.advance me (.begins op) xs] ++
    xs.flatMap (fun x => [.advance me (.dies me) false,.advance me (.piece op x) ()]) ++
      [.advance me (.dies me) false,.advance me (.returns op) r]

def versionDir : Path Bytes := sharedRoot.join (ascii "16.1")

def version : Text := "16.1".toList

def postgres : Piece := ⟨versionDir,⟨["postgres".toList,"bin".toList],false⟩⟩

def vectorLibrary : Piece := ⟨versionDir,⟨["vector.so".toList,"lib".toList],true⟩⟩

/-- A start without extensions. -/
def plain : Run := ⟨.startPostgres,⟨⟨sharedRoot,"^16".toList,false⟩,false,none⟩⟩

/-- A start that finds nothing in the cache, up to its population. -/
def misses (me : RunId) (extracted : List Piece) : List Action :=
  let settings : Settings := ⟨sharedRoot,"^16".toList,false⟩
  does me (.createDirAll me sharedRoot) [] true ++
    does me (.openLock me (sharedRoot.join setupLockFile)) [] (some 0) ++
    does me (.lockFile me 0) [] true ++ does me (.findCached me "^16".toList) [] none ++
    does me (.setup me settings false) extracted true ++
    does me (.resolveInstalledDir me settings) [] (some versionDir) ++
    does me (.checkCache me version) [] false ++ does me (.lockCache me version true) [] true ++
    does me (.checkCache me version) [] false

def populates (me : RunId) (copied : List Piece) (done : Bool) : List Action :=
  does me (.populateCache me version versionDir) copied done ++ does me (.unlockCache me version) [] ()

/-- The hook installs `vector`, the server starts, and the lock drops. -/
def installs (me : RunId) : List Action :=
  let settings : Settings := ⟨sharedRoot,"^16".toList,false⟩
  does me (.resolveInstalledDir me settings) [] (some versionDir) ++
    does me (.installExtensions me ["vector".toList] versionDir) [vectorLibrary] true ++
    does me (.start me settings) [] true ++ does me (.closeLock me) [] ()

def bothStarts : List Run := [withVector .startPostgres,plain]

theorem starts_reach (runs : List Run) (allowed : State → Action → Bool) (as : List Action)
    (wanted : State → Bool)
    (h : (machine.run (fun s a => uncut a && allowed s a)
      (begin (fun _ => true) (fun _ => []) (fun _ => []) runs) as).any wanted = true) :
    ∃ s, ((starts (fun _ => true) runs).restrict (fun s a => allowed s a = true)).Reachable s ∧
      wanted s = true := by
  have huntouched : Untouched (fun _ => true) runs
      (begin (fun _ => true) (fun _ => []) (fun _ => []) runs) :=
    ⟨fun _ => [],fun _ => [],fun _ => rfl,fun _ => rfl,rfl⟩
  rw [starts,System.restrict_restrict]
  refine machine.run_reaches (fun s a => uncut a && allowed s a) (fun s a hmeets => ?_) huntouched
    as wanted h
  obtain ⟨huncut,hallowed⟩ := Bool.and_eq_true_iff.mp hmeets
  refine ⟨hallowed,?_⟩
  cases a with
  | abort i => cases huncut
  | _ => trivial

end PgEmbedSetup.Startup.Files
