import PgEmbedSetup.TestSupport.StagingCalls

set_option autoImplicit false

/-!
What each change of the file system leaves to the tests that stage the worker, and to what they
rely on.
-/

namespace PgEmbedSetup.TestSupport.Staging
open Library

/-! ### What holds of the files -/

/-- The file an event is about, as it was then. -/
def Event.shows : Event → Option (Ino × File)
  | .found ino file | .planted ino file | .published _ ino file | .opened _ ino file _ =>
    some (ino,file)
  | .littered _ | .crashed | .strayed | .returned _ _ => none

section Files
variable (uid : Uid)

def World.Entered (w : World) : Prop :=
  ∃ node, w.place = some node ∧ node.own uid = true ∧ node.mode = 0o755

def World.Usable (w : World) : Prop :=
  ∃ ino file, w.staged = some ino ∧ w.files[ino]? = some file ∧ isUsable file.mode = true

/-- Nobody but the test that made it has come across the file. -/
structure Private (w : World) (temp : Ino) : Prop where
  known : temp < w.files.length
  source : temp ≠ w.source
  hidden : ∀ e ∈ w.events, ∀ ino file, e.shows = some (ino,file) → ino ≠ temp

/-- The file stands in a relation to the build that was opened for it. -/
def Holds (w : World) (c : Caller) (temp source : Ino) (P : File → File → Prop) : Prop :=
  ∃ build time file, .opened c source build time ∈ w.events ∧ w.files[temp]? = some file ∧
    P build file

def Phase.Fits (w : World) (c : Caller) : Phase → Prop
  | .outside | .ended => True
  | .validated => w.inside uid = true
  | .entered => w.Entered uid
  | .usable | .published => w.Entered uid ∧ w.Usable
  | .holding temp => w.Entered uid ∧ Private w temp
  | .opened temp source => w.Entered uid ∧ Private w temp ∧ Holds w c temp source fun _ _ => True
  | .copying temp source offset => w.Entered uid ∧ Private w temp ∧
      Holds w c temp source fun build file => file.bytes = build.bytes.take offset
  | .copied temp source => w.Entered uid ∧ Private w temp ∧
      Holds w c temp source fun build file => file.bytes = build.bytes
  | .ready temp source => w.Entered uid ∧ Private w temp ∧
      Holds w c temp source fun build file => file.bytes = build.bytes ∧ file.mode = 0o755

structure Fits (w : World) : Prop where
  source : w.source < w.files.length
  closed : ∀ node, w.place = some node → node.uid = uid →
    node.fileType = .dir ∧ node.mode &&& 0o022 = 0
  within : ∀ ino, w.staged = some ino → w.inside uid = true
  kept : ∀ e ∈ w.events, ∀ ino file, e.shows = some (ino,file) → w.files[ino]? = some file
  stands : ∀ ino, w.staged = some ino → ∃ file, .found ino file ∈ w.events ∨
    ∃ c, .published c ino file ∈ w.events
  complete : ∀ c ino file, .published c ino file ∈ w.events → file.mode = 0o755 ∧
    ∃ source build time, .opened c source build time ∈ w.events ∧ file.bytes = build.bytes
  opened : ∀ c ino build time, .opened c ino build time ∈ w.events → time ≤ w.clock ∧
    (ino = w.source ∨ ∃ src, w.files[w.source]? = some src ∧ time ≤ src.mtime)
  once : ∀ c ino build time ino' build' time', .opened c ino build time ∈ w.events →
    .opened c ino' build' time' ∈ w.events → ino = ino' ∧ build = build' ∧ time = time'
  unstrayed : .strayed ∉ w.events
  unplanted : ∀ ino file, .planted ino file ∉ w.events
  returned : ∀ c, .returned c (.ok ()) ∈ w.events → w.Entered uid ∧ w.Usable

/-- What a step leaves to everyone, a step on the given file to everyone who is not at work on it. -/
structure Keeps (own : Option Ino) (w w' : World) : Prop where
  inside : w.inside uid = true → w'.inside uid = true
  entered : w.Entered uid → w'.Entered uid
  usable : w.Usable → w'.Usable
  hidden : ∀ temp, own ≠ some temp → Private w temp → Private w' temp
  files : ∀ temp, own ≠ some temp → ∀ file, w.files[temp]? = some file →
    w'.files[temp]? = some file
  events : ∀ e ∈ w.events, e ∈ w'.events

variable {uid} {w w' : World} {own : Option Ino} {c : Caller} {temp source : Ino}

theorem Holds.mono {P Q : File → File → Prop} (h : Holds w c temp source P)
    (hPQ : ∀ build file, P build file → Q build file) : Holds w c temp source Q := by
  obtain ⟨build,time,file,hopened,hfile,hP⟩ := h
  exact ⟨build,time,file,hopened,hfile,hPQ build file hP⟩

theorem Keeps.holds (h : Keeps uid own w w') (hne : own ≠ some temp) {P : File → File → Prop}
    (hheld : Holds w c temp source P) : Holds w' c temp source P := by
  obtain ⟨build,time,file,hopened,hfile,hP⟩ := hheld
  exact ⟨build,time,file,h.events _ hopened,h.files temp hne file hfile,hP⟩

theorem Phase.Fits.keep {p : Phase} (hp : p.Fits uid w c) (h : Keeps uid own w w')
    (hne : ∀ temp, p.temp = some temp → own ≠ some temp) : p.Fits uid w' c := by
  cases p with
  | outside => trivial
  | ended => trivial
  | validated => exact h.inside hp
  | entered => exact h.entered hp
  | usable => exact ⟨h.entered hp.1,h.usable hp.2⟩
  | published => exact ⟨h.entered hp.1,h.usable hp.2⟩
  | holding temp => exact ⟨h.entered hp.1,h.hidden temp (hne temp rfl) hp.2⟩
  | opened temp source =>
    exact ⟨h.entered hp.1,h.hidden temp (hne temp rfl) hp.2.1,h.holds (hne temp rfl) hp.2.2⟩
  | copying temp source offset =>
    exact ⟨h.entered hp.1,h.hidden temp (hne temp rfl) hp.2.1,h.holds (hne temp rfl) hp.2.2⟩
  | copied temp source =>
    exact ⟨h.entered hp.1,h.hidden temp (hne temp rfl) hp.2.1,h.holds (hne temp rfl) hp.2.2⟩
  | ready temp source =>
    exact ⟨h.entered hp.1,h.hidden temp (hne temp rfl) hp.2.1,h.holds (hne temp rfl) hp.2.2⟩

/-- From `entered` on a test goes on with a directory of its own. -/
theorem World.Entered.inside (h : w.Entered uid) : w.inside uid = true := by
  obtain ⟨node,hplace,hown,_⟩ := h
  simpa [World.inside,hplace] using hown

theorem within_inside (h : w.inside uid = true) (next : Option World) :
    w.within uid next = next := if_pos h

/-! ### One lemma for each way the world changes -/

theorem keeps_refl : Keeps uid own w w :=
  ⟨id,id,id,fun _ _ h => h,fun _ _ _ h => h,fun _ h => h⟩

theorem Fits.temps (h : Fits uid w) (temps : List Ino) : Fits uid { w with temps := temps } :=
  ⟨h.source,h.closed,h.within,h.kept,h.stands,h.complete,h.opened,h.once,h.unstrayed,h.unplanted,
    h.returned⟩

theorem keeps_temps (temps : List Ino) : Keeps uid own w { w with temps := temps } :=
  ⟨id,id,id,fun _ _ h => ⟨h.known,h.source,h.hidden⟩,fun _ _ _ h => h,fun _ h => h⟩

theorem Fits.tick (h : Fits uid w) : Fits uid { w with clock := w.clock+1 } := by
  refine ⟨h.source,h.closed,h.within,h.kept,h.stands,h.complete,fun c ino build time hmem => ?_,
    h.once,h.unstrayed,h.unplanted,h.returned⟩
  obtain ⟨hle,hsource⟩ := h.opened c ino build time hmem
  exact ⟨hle.trans (Nat.le_succ _),hsource⟩

theorem keeps_tick : Keeps uid own w { w with clock := w.clock+1 } :=
  ⟨id,id,id,fun _ _ h => ⟨h.known,h.source,h.hidden⟩,fun _ _ _ h => h,fun _ h => h⟩

section Place
variable {there : Option Node}

theorem Fits.place (h : Fits uid w)
    (hclosed : ∀ node, there = some node → node.uid = uid →
      node.fileType = .dir ∧ node.mode &&& 0o022 = 0)
    (hkeeps : Keeps uid none w { w with place := there }) : Fits uid { w with place := there } := by
  refine ⟨h.source,hclosed,fun ino hstaged => hkeeps.inside (h.within ino hstaged),h.kept,h.stands,
    h.complete,h.opened,h.once,h.unstrayed,h.unplanted,fun c hmem => ?_⟩
  obtain ⟨hentered,husable⟩ := h.returned c hmem
  exact ⟨hkeeps.entered hentered,husable⟩

/-- Where the user has no directory yet there is nothing to keep. -/
theorem keeps_place (hplace : w.inside uid = false) : Keeps uid own w { w with place := there } := by
  have hnone : ¬ w.inside uid = true := by simp [hplace]
  refine ⟨fun h => absurd h hnone,fun h => absurd h.inside hnone,id,
    fun _ _ h => ⟨h.known,h.source,h.hidden⟩,fun _ _ _ h => h,fun _ h => h⟩

theorem keeps_chmod (hplace : w.inside uid = true) : Keeps uid own w
    { w with place := w.place.map fun node => { node with mode := 0o755 } } ∧
    World.Entered uid { w with place := w.place.map fun node => { node with mode := 0o755 } } := by
  cases hnode : w.place with
  | none => simp [World.inside,hnode] at hplace
  | some node =>
    have hown : node.own uid = true := by simpa [World.inside,hnode] using hplace
    have hentered : World.Entered uid
        { w with place := some { node with mode := 0o755 } } := ⟨_,rfl,hown,rfl⟩
    exact ⟨⟨fun _ => hentered.inside,fun _ => hentered,id,
      fun _ _ h => ⟨h.known,h.source,h.hidden⟩,fun _ _ _ h => h,fun _ h => h⟩,hentered⟩

end Place

section Log
variable {e : Event}

theorem Fits.log (h : Fits uid w) (hshows : e.shows = none) (hstrayed : e ≠ .strayed)
    (hreturned : ∀ c, e = .returned c (.ok ()) → w.Entered uid ∧ w.Usable) :
    Fits uid (w.log e) := by
  have hold {e' : Event} {p : Ino × File} (hp : e'.shows = some p) (hmem : e' ∈ (w.log e).events) :
      e' ∈ w.events := by
    rcases List.mem_append.mp hmem with hmem | hmem
    · exact hmem
    · cases List.mem_singleton.mp hmem
      rw [hshows] at hp
      cases hp
  have hnew {e' : Event} (hmem : e' ∈ w.events) : e' ∈ (w.log e).events :=
    List.mem_append_left _ hmem
  refine ⟨h.source,h.closed,h.within,fun e' hmem ino file hp => h.kept e' (hold hp hmem) ino file hp,
    fun ino hino => ?_,fun c ino file hmem => ?_,fun c ino build time hmem => ?_,
    fun c ino build time ino' build' time' hmem hmem' => ?_,fun hmem => ?_,
    fun ino file hmem => h.unplanted ino file (hold rfl hmem),fun c hmem => ?_⟩
  · obtain ⟨file,hfound | ⟨c,hpublished⟩⟩ := h.stands ino hino
    · exact ⟨file,.inl (hnew hfound)⟩
    · exact ⟨file,.inr ⟨c,hnew hpublished⟩⟩
  · obtain ⟨hmode,source,build,time,hopened,hbytes⟩ := h.complete c ino file (hold rfl hmem)
    exact ⟨hmode,source,build,time,hnew hopened,hbytes⟩
  · exact h.opened c ino build time (hold rfl hmem)
  · exact h.once c ino build time ino' build' time' (hold rfl hmem) (hold rfl hmem')
  · rcases List.mem_append.mp hmem with hmem | hmem
    · exact h.unstrayed hmem
    · exact hstrayed (List.mem_singleton.mp hmem).symm
  · rcases List.mem_append.mp hmem with hmem | hmem
    · exact h.returned c hmem
    · exact hreturned c (List.mem_singleton.mp hmem).symm

/-- An event may show files that are nobody's. -/
theorem keeps_log (hshows : ∀ ino file, e.shows = some (ino,file) → ∀ temp, own ≠ some temp →
    Private w temp → ino ≠ temp) : Keeps uid own w (w.log e) := by
  refine ⟨id,id,id,fun temp hne h => ⟨h.known,h.source,fun e' hmem ino file hp => ?_⟩,
    fun _ _ _ h => h,fun e' h => List.mem_append_left _ h⟩
  rcases List.mem_append.mp hmem with hmem | hmem
  · exact h.hidden e' hmem ino file hp
  · cases List.mem_singleton.mp hmem
    exact hshows ino file hp temp hne h

theorem keeps_log_none (hshows : e.shows = none) : Keeps uid own w (w.log e) :=
  keeps_log fun ino file hp => by rw [hshows] at hp; cases hp

end Log

section Store
variable {file : File}

theorem getElem?_append_some {files more : List File} {ino : Ino} (h : files[ino]? = some file) :
    (files ++ more)[ino]? = some file := by
  obtain ⟨hlt,_⟩ := List.getElem?_eq_some_iff.mp h
  rw [List.getElem?_append_left hlt]
  exact h

theorem usable_append (h : w.Usable) (source : Ino) :
    World.Usable { w with files := w.files ++ [file], source := source } := by
  obtain ⟨ino,staged,hino,hstaged,hmode⟩ := h
  exact ⟨ino,staged,hino,getElem?_append_some hstaged,hmode⟩

theorem Fits.append (h : Fits uid w) {source : Ino}
    (hsource : source = w.source ∨ source = w.files.length ∧ file.mtime = w.clock) :
    Fits uid { w with files := w.files ++ [file], source := source } := by
  have hlength : (w.files ++ [file]).length = w.files.length+1 := List.length_append
  refine ⟨?_,h.closed,h.within,
    fun e hmem ino shown hp => getElem?_append_some (h.kept e hmem ino shown hp),h.stands,
    h.complete,fun c ino build time hmem => ?_,h.once,h.unstrayed,h.unplanted,fun c hmem => ?_⟩
  · change source < (w.files ++ [file]).length
    rw [hlength]
    rcases hsource with rfl | ⟨rfl,_⟩
    · exact h.source.trans (Nat.lt_succ_self _)
    · exact Nat.lt_succ_self _
  · obtain ⟨hle,hcurrent⟩ := h.opened c ino build time hmem
    refine ⟨hle,?_⟩
    rcases hsource with rfl | ⟨rfl,htime⟩
    · rcases hcurrent with rfl | ⟨src,hsrc,hsrctime⟩
      · exact .inl rfl
      · exact .inr ⟨src,getElem?_append_some hsrc,hsrctime⟩
    · exact .inr ⟨file,List.getElem?_concat_length,htime ▸ hle⟩
  · obtain ⟨hentered,husable⟩ := h.returned c hmem
    exact ⟨hentered,usable_append husable source⟩

theorem keeps_append {source : Ino} (hsource : source = w.source ∨ source = w.files.length) :
    Keeps uid own w { w with files := w.files ++ [file], source := source } := by
  refine ⟨id,id,fun h => usable_append h source,fun temp _ h => ⟨?_,?_,h.hidden⟩,
    fun _ _ _ h => getElem?_append_some h,fun _ h => h⟩
  · change temp < (w.files ++ [file]).length
    rw [List.length_append]
    exact h.known.trans (Nat.lt_succ_self _)
  · rcases hsource with rfl | rfl
    · exact h.source
    · exact Nat.ne_of_lt h.known

theorem Fits.private_ne (h : Fits uid w) (htemp : Private w temp) {ino : Ino}
    (hino : w.staged = some ino) : ino ≠ temp := by
  obtain ⟨shown,hfound | ⟨c,hpublished⟩⟩ := h.stands ino hino
  · exact htemp.hidden _ hfound ino shown rfl
  · exact htemp.hidden _ hpublished ino shown rfl

theorem Fits.usable_put (h : Fits uid w) (htemp : Private w temp) (husable : w.Usable) :
    (w.put temp file).Usable := by
  obtain ⟨ino,staged,hino,hstaged,hmode⟩ := husable
  refine ⟨ino,staged,hino,?_,hmode⟩
  change (w.files.set temp file)[ino]? = some staged
  rw [List.getElem?_set_ne (h.private_ne htemp hino).symm]
  exact hstaged

theorem Fits.put (h : Fits uid w) (htemp : Private w temp) : Fits uid (w.put temp file) := by
  have hother {ino : Ino} (hne : ino ≠ temp) : (w.put temp file).files[ino]? = w.files[ino]? :=
    List.getElem?_set_ne hne.symm
  refine ⟨?_,h.closed,h.within,fun e hmem ino shown hp => ?_,h.stands,h.complete,
    fun c ino build time hmem => ?_,h.once,h.unstrayed,h.unplanted,fun c hmem => ?_⟩
  · change w.source < (w.files.set temp file).length
    rw [List.length_set]
    exact h.source
  · rw [hother (htemp.hidden e hmem ino shown hp)]
    exact h.kept e hmem ino shown hp
  · have hsource : (w.put temp file).files[w.source]? = w.files[w.source]? :=
      hother htemp.source.symm
    obtain ⟨hle,hcurrent⟩ := h.opened c ino build time hmem
    refine ⟨hle,hcurrent.imp_right fun ⟨src,hsrc,hsrctime⟩ => ⟨src,?_,hsrctime⟩⟩
    exact hsource.trans hsrc
  · obtain ⟨hentered,husable⟩ := h.returned c hmem
    exact ⟨hentered,h.usable_put htemp husable⟩

theorem Private.put (h : Private w temp) {ino : Ino} : Private (w.put ino file) temp := by
  refine ⟨?_,h.source,h.hidden⟩
  change temp < (w.files.set ino file).length
  rw [List.length_set]
  exact h.known

theorem Fits.keeps_put (h : Fits uid w) (htemp : Private w temp) :
    Keeps uid (some temp) w (w.put temp file) := by
  refine ⟨id,id,h.usable_put htemp,fun _ _ h => h.put,fun other hne shown hshown => ?_,fun _ h => h⟩
  change (w.files.set temp file)[other]? = some shown
  rw [List.getElem?_set_ne (fun heq => hne (congrArg some heq))]
  exact hshown

theorem Private.get_put (h : Private w temp) : (w.put temp file).files[temp]? = some file :=
  List.getElem?_set_self h.known

/-- The source is opened as it is now. -/
theorem Fits.logOpened (h : Fits uid w) {build : File} (hbuild : w.files[w.source]? = some build)
    (hfirst : ∀ ino build time, .opened c ino build time ∉ w.events) :
    Fits uid (w.log (.opened c w.source build w.clock)) := by
  have hcases {e : Event} (hmem : e ∈ (w.log (.opened c w.source build w.clock)).events) :
      e ∈ w.events ∨ e = .opened c w.source build w.clock := by
    simpa [World.log] using hmem
  have hnew {e : Event} (hmem : e ∈ w.events) :
      e ∈ (w.log (.opened c w.source build w.clock)).events := List.mem_append_left _ hmem
  refine ⟨h.source,h.closed,h.within,fun e hmem ino file hp => ?_,fun ino hino => ?_,
    fun c ino file hmem => ?_,fun c ino build time hmem => ?_,
    fun c ino build time ino' build' time' hmem hmem' => ?_,fun hmem => ?_,fun ino file hmem => ?_,
    fun c hmem => ?_⟩
  · rcases hcases hmem with hmem | rfl
    · exact h.kept e hmem ino file hp
    · cases hp
      exact hbuild
  · obtain ⟨file,hfound | ⟨c,hpublished⟩⟩ := h.stands ino hino
    · exact ⟨file,.inl (hnew hfound)⟩
    · exact ⟨file,.inr ⟨c,hnew hpublished⟩⟩
  · rcases hcases hmem with hmem | hmem
    · obtain ⟨hmode,source,build,time,hopened,hbytes⟩ := h.complete c ino file hmem
      exact ⟨hmode,source,build,time,hnew hopened,hbytes⟩
    · cases hmem
  · rcases hcases hmem with hmem | hmem
    · exact h.opened c ino build time hmem
    · cases hmem
      exact ⟨Nat.le_refl _,.inl rfl⟩
  · rcases hcases hmem with hmem | hmem <;> rcases hcases hmem' with hmem' | hmem'
    · exact h.once c ino build time ino' build' time' hmem hmem'
    · cases hmem'
      exact absurd hmem (hfirst _ _ _)
    · cases hmem
      exact absurd hmem' (hfirst _ _ _)
    · cases hmem
      cases hmem'
      exact ⟨rfl,rfl,rfl⟩
  · rcases hcases hmem with hmem | hmem
    · exact h.unstrayed hmem
    · cases hmem
  · rcases hcases hmem with hmem | hmem
    · exact h.unplanted ino file hmem
    · cases hmem
  · rcases hcases hmem with hmem | hmem
    · exact h.returned c hmem
    · cases hmem

theorem usable_publish (hfile : w.files[temp]? = some file) (hmode : file.mode = 0o755) :
    (w.publish c temp file).Usable :=
  ⟨temp,file,rfl,hfile,by simp [isUsable,hmode]⟩

theorem Fits.publish (h : Fits uid w) (hentered : w.Entered uid)
    (hfile : w.files[temp]? = some file) (hmode : file.mode = 0o755) {build : File} {time : Nat}
    (hopened : .opened c source build time ∈ w.events) (hbytes : file.bytes = build.bytes) :
    Fits uid (w.publish c temp file) := by
  have hcases {e : Event} (hmem : e ∈ (w.publish c temp file).events) :
      e ∈ w.events ∨ e = .published c temp file := by
    simpa [World.publish,World.log] using hmem
  have hnew {e : Event} (hmem : e ∈ w.events) : e ∈ (w.publish c temp file).events :=
    List.mem_append_left _ hmem
  have hlast : .published c temp file ∈ (w.publish c temp file).events :=
    List.mem_append_right _ (List.mem_singleton_self _)
  refine ⟨h.source,h.closed,fun _ _ => hentered.inside,fun e hmem ino shown hp => ?_,
    fun ino hino => ?_,fun c' ino shown hmem => ?_,fun c ino build time hmem => ?_,
    fun c ino build time ino' build' time' hmem hmem' => ?_,fun hmem => ?_,fun ino file hmem => ?_,
    fun _ _ => ⟨hentered,usable_publish hfile hmode⟩⟩
  · rcases hcases hmem with hmem | rfl
    · exact h.kept e hmem ino shown hp
    · cases hp
      exact hfile
  · cases hino
    exact ⟨file,.inr ⟨c,hlast⟩⟩
  · rcases hcases hmem with hmem | hmem
    · obtain ⟨hold,source,build,time,hopened,hbytes⟩ := h.complete c' ino shown hmem
      exact ⟨hold,source,build,time,hnew hopened,hbytes⟩
    · cases hmem
      exact ⟨hmode,source,build,time,hnew hopened,hbytes⟩
  · rcases hcases hmem with hmem | hmem
    · exact h.opened c ino build time hmem
    · cases hmem
  · rcases hcases hmem with hmem | hmem <;> rcases hcases hmem' with hmem' | hmem'
    · exact h.once c ino build time ino' build' time' hmem hmem'
    · cases hmem'
    · cases hmem
    · cases hmem
  · rcases hcases hmem with hmem | hmem
    · exact h.unstrayed hmem
    · cases hmem
  · rcases hcases hmem with hmem | hmem
    · exact h.unplanted ino file hmem
    · cases hmem

theorem keeps_publish (hfile : w.files[temp]? = some file) (hmode : file.mode = 0o755) :
    Keeps uid (some temp) w (w.publish c temp file) := by
  refine ⟨id,id,fun _ => usable_publish hfile hmode,
    fun other hne h => ⟨h.known,h.source,fun e hmem ino shown hp => ?_⟩,fun _ _ _ h => h,
    fun e h => List.mem_append_left _ h⟩
  rcases List.mem_append.mp hmem with hmem | hmem
  · exact h.hidden e hmem ino shown hp
  · cases List.mem_singleton.mp hmem
    cases hp
    exact fun heq => hne (congrArg some heq)

end Store

end Files

end PgEmbedSetup.TestSupport.Staging
