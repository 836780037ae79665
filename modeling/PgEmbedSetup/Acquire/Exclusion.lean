import PgEmbedSetup.Acquire.Outline

set_option autoImplicit false

/-!
Between a process's calls nobody else touches the directory whose lock it holds, so what it
knows stays true.
-/

namespace PgEmbedSetup.Acquire
open Library
open Extensions (ManifestArtifact CacheEntry Cache CachedState ExtensionError ArchiveOrigin
  setEntry_self setEntry_of_ne)

variable {δ : Type} {sha : Bytes → δ} {w w' w₁ : World δ} {pid q : Nat}
  {artifact : ManifestArtifact δ}

/-! ### What others leave alone -/

/-- What a step leaves of a process and of the directory it has locked. -/
structure Apart (w w' : World δ) (q : Nat) (digest : δ) : Prop where
  dead : w'.dead q = w.dead q
  seen : w'.seen q = w.seen q
  temps : w'.temps q = w.temps q
  holder : ∀ d, w'.holder d = some q ↔ w.holder d = some q
  entry : w.holder digest = some q → w'.cache.entry digest = w.cache.entry digest

theorem Apart.refl (w : World δ) (q : Nat) (digest : δ) : Apart w w q digest :=
  ⟨rfl,rfl,rfl,fun _ => Iff.rfl,fun _ => rfl⟩

theorem Apart.trans {digest : δ} (h : Apart w w₁ q digest) (h' : Apart w₁ w' q digest) :
    Apart w w' q digest where
  dead := h'.dead.trans h.dead
  seen := h'.seen.trans h.seen
  temps := h'.temps.trans h.temps
  holder d := (h'.holder d).trans (h.holder d)
  entry hheld := (h'.entry ((h.holder digest).mpr hheld)).trans (h.entry hheld)

theorem apart_setTemp (digest : δ) (hq : q ≠ pid) (temp : Option (δ × Text)) :
    Apart w (w.setTemp pid temp) q digest where
  dead := rfl
  seen := rfl
  temps := Function.update_of_ne hq _ _
  holder _ := Iff.rfl
  entry _ := rfl

theorem apart_note (digest : δ) (hq : q ≠ pid) (f : Seen → Seen) :
    Apart w (w.note pid f) q digest where
  dead := rfl
  seen := Function.update_of_ne hq _ _
  temps := rfl
  holder _ := Iff.rfl
  entry _ := rfl

theorem holder_release {d : δ} (hq : q ≠ pid) :
    (w.release pid).holder d = some q ↔ w.holder d = some q := by
  simp only [World.release]
  split
  · rename_i h
    rw [h]
    simp [Ne.symm hq]
  · exact Iff.rfl

theorem apart_release (digest : δ) (hq : q ≠ pid) : Apart w (w.release pid) q digest where
  dead := rfl
  seen := rfl
  temps := rfl
  holder _ := holder_release hq
  entry _ := rfl

theorem apart_kill {k : Killed} (digest : δ) (hq : q ≠ k.pid) : Apart w (w.kill k) q digest where
  dead := Function.update_of_ne hq _ _
  seen := rfl
  temps := Function.update_of_ne hq _ _
  holder _ := holder_release hq
  entry _ := rfl

/-! ### What a process knows is so -/

/-- The world is as the process under the lock takes it to be. -/
structure Hold.Shown (w : World δ) (pid : Nat) (artifact : ManifestArtifact δ) (h : Hold) :
    Prop where
  holder : w.holder artifact.sha256 = some pid
  seen : w.seen pid = ⟨h.before,h.lookFailed,false⟩
  temps : w.temps pid = h.temp.map (fun temp => (artifact.sha256,temp.1))
  written : ∀ name bytes, h.temp = some (name,bytes) →
    w.cache.entry artifact.sha256 name = some (.file bytes)
  entry : w.temps pid ≠ some (artifact.sha256,artifact.file) →
    w.cache.entry artifact.sha256 artifact.file = h.entry
  /-- A temporary file may only get the archive's own name while nothing has it. -/
  aside : w.temps pid = some (artifact.sha256,artifact.file) → h.entry = none

def Ghost.Fits (w : World δ) (g : Ghost δ) : Prop :=
  match g.stage with
  | .outside =>
    w.seen g.pid = ⟨none,false,false⟩ ∧ w.temps g.pid = none ∧ ∀ d, w.holder d ≠ some g.pid
  | .inside h => h.Shown w g.pid g.artifact
  | .placed bytes =>
    w.holder g.artifact.sha256 = some g.pid ∧
      w.cache.entry g.artifact.sha256 g.artifact.file = some (.file bytes)
  | .failing before =>
    w.holder g.artifact.sha256 = some g.pid ∧ (w.seen g.pid).before = before ∧
      (w.seen g.pid).placed = false ∧ ∀ bytes, before = some (.file bytes) →
        w.cache.entry g.artifact.sha256 g.artifact.file = some (.file bytes)
  | .left => True

theorem Ghost.Fits.apart {g : Ghost δ} (h : g.Fits w) (ha : Apart w w' g.pid g.artifact.sha256) :
    g.Fits w' := by
  obtain ⟨pid,artifact,stage⟩ := g
  cases stage with
  | outside =>
    obtain ⟨hseen,htemps,hholder⟩ := h
    exact ⟨ha.seen.trans hseen,ha.temps.trans htemps,fun d hd => hholder d ((ha.holder d).mp hd)⟩
  | inside hold =>
    have hentry := ha.entry h.holder
    refine ⟨(ha.holder _).mpr h.holder,ha.seen.trans h.seen,ha.temps.trans h.temps,?_,?_,?_⟩
    · intro name bytes hname
      rw [hentry]
      exact h.written name bytes hname
    · rw [ha.temps,hentry]
      exact h.entry
    · rw [ha.temps]
      exact h.aside
  | placed bytes =>
    obtain ⟨hholder,hfile⟩ := h
    exact ⟨(ha.holder _).mpr hholder,by rw [ha.entry hholder]; exact hfile⟩
  | failing before =>
    obtain ⟨hholder,hbefore,hplaced,hkept⟩ := h
    refine ⟨(ha.holder _).mpr hholder,?_,?_,?_⟩
    · rw [ha.seen]
      exact hbefore
    · rw [ha.seen]
      exact hplaced
    · rw [ha.entry hholder]
      exact hkept
  | left => trivial

/-! ### Steps under the lock -/

section Inside
variable {h : Hold} {s : Stage}

variable (sha) in
/-- What comes of a call: the process knows what is so, and others are not concerned. -/
def Goes (w w' : World δ) (pid : Nat) (artifact : ManifestArtifact δ) (s : Stage) (c : Call δ)
    (r : c.Reply) : Prop :=
  ∃ s', s.Next sha c r s' ∧ Ghost.Fits w' ⟨pid,artifact,s'⟩ ∧
    ∀ q digest, q ≠ pid → Apart w w' q digest

theorem Hold.Shown.stay {c : Call δ} {r : c.Reply} (hw : h.Shown w pid artifact)
    (hnext : s.Next sha c r (.inside h)) : Goes sha w w pid artifact s c r :=
  ⟨.inside h,hnext,hw,fun q digest _ => .refl w q digest⟩

theorem Hold.Shown.entry_of_no_temp (hw : h.Shown w pid artifact) (htemp : h.temp = none) :
    w.cache.entry artifact.sha256 artifact.file = h.entry := by
  refine hw.entry ?_
  rw [hw.temps,htemp]
  simp

theorem Hold.Shown.temps_some (hw : h.Shown w pid artifact) {name : Text} {bytes : Bytes}
    (htemp : h.temp = some (name,bytes)) : w.temps pid = some (artifact.sha256,name) := by
  rw [hw.temps,htemp]
  rfl

theorem goes_failedLook {c : Call δ} {r : c.Reply} (hw : h.Shown w pid artifact)
    (hnext : s.Next sha c r (.inside h.failedLook)) :
    Goes sha w (w.lookFailed pid) pid artifact s c r := by
  refine ⟨_,hnext,⟨hw.holder,?_,hw.temps,hw.written,hw.entry,hw.aside⟩,
    fun q digest hq => apart_note digest hq _⟩
  simp [World.lookFailed,World.note,hw.seen,Hold.failedLook]

theorem goes_return {c : Call δ} {r : c.Reply} (hnext : s.Next sha c r .left) :
    Goes sha w (w.release pid) pid artifact s c r :=
  ⟨.left,hnext,trivial,fun _ digest hq => apart_release digest hq⟩

variable [DecidableEq δ]

/-- The holder of a lock writes below its digest, where no other process holds the lock. -/
theorem apart_setEntry {digest other : δ} (hheld : w.holder digest = some pid) (hq : q ≠ pid)
    (file : Text) (found : Option CacheEntry) : Apart w (w.setEntry digest file found) q other where
  dead := rfl
  seen := rfl
  temps := rfl
  holder _ := Iff.rfl
  entry hother := by
    have hne : other ≠ digest := by
      rintro rfl
      rw [hheld] at hother
      exact hq (Option.some.inj hother).symm
    funext name
    exact setEntry_of_ne w.cache found (fun h => hne h.1)

theorem goes_symlinkMetadata (hw : h.Shown w pid artifact) (htemp : h.temp = none) {r : Metadata}
    (hact : act sha w pid artifact .symlinkMetadata r = some w') :
    Goes sha w w' pid artifact (.inside h) .symlinkMetadata r := by
  simp only [act,hw.entry_of_no_temp htemp] at hact
  cases r with
  | failed =>
    cases hact
    exact goes_failedLook hw rfl
  | notFound =>
    simp only [looked] at hact
    split at hact
    · rename_i hnone
      cases hact
      exact hw.stay ⟨rfl,hnone⟩
    · cases hact
  | found kind =>
    simp only [looked] at hact
    split at hact
    · rename_i hkind
      cases hact
      exact hw.stay ⟨rfl,hkind⟩
    · cases hact

theorem goes_ofFile (hw : h.Shown w pid artifact) (htemp : h.temp = none) {r : Option δ}
    (hact : act sha w pid artifact .ofFile r = some w') :
    Goes sha w w' pid artifact (.inside h) .ofFile r := by
  cases r with
  | none =>
    cases hact
    exact goes_failedLook hw rfl
  | some actual =>
    simp only [act,hw.entry_of_no_temp htemp] at hact
    split at hact
    · rename_i bytes hentry
      split at hact
      · rename_i hsha
        cases hact
        exact hw.stay ⟨rfl,bytes,hentry,hsha⟩
      · cases hact
    · cases hact

/-- Either way of removing what is no regular file. -/
theorem goes_remove {c : Call δ} {r : c.Reply} (hw : h.Shown w pid artifact)
    (htemp : h.temp = none) (hfile : ∀ bytes, h.entry ≠ some (.file bytes))
    (hnext : s.Next sha c r (.inside (h.cleared hfile))) :
    Goes sha w (w.setEntry artifact.sha256 artifact.file none) pid artifact s c r := by
  refine ⟨_,hnext,⟨hw.holder,hw.seen,hw.temps,fun name bytes hname => ?_,
    fun _ => setEntry_self _ _ _ _,fun _ => rfl⟩,fun q digest hq => apart_setEntry hw.holder hq _ _⟩
  rw [show (h.cleared hfile).temp = none from htemp] at hname
  cases hname

theorem removeDirAll_cases {ok : Bool} (hact : act sha w pid artifact .removeDirAll ok = some w') :
    ok = false ∧ w' = w ∨ ok = true ∧ w' = w.setEntry artifact.sha256 artifact.file none := by
  cases ok with
  | false => exact .inl ⟨rfl,(Option.some.inj hact).symm⟩
  | true =>
    simp only [act] at hact
    split at hact
    · exact .inr ⟨rfl,(Option.some.inj hact).symm⟩
    · cases hact

theorem removeFile_cases {ok : Bool} (hact : act sha w pid artifact .removeFile ok = some w') :
    ok = false ∧ w' = w ∨ ok = true ∧ w' = w.setEntry artifact.sha256 artifact.file none := by
  cases ok with
  | false => exact .inl ⟨rfl,(Option.some.inj hact).symm⟩
  | true =>
    simp only [act] at hact
    split at hact
    · exact .inr ⟨rfl,(Option.some.inj hact).symm⟩
    · exact .inr ⟨rfl,(Option.some.inj hact).symm⟩
    · cases hact

theorem goes_removeDirAll (hw : h.Shown w pid artifact) (htemp : h.temp = none)
    (hfile : ∀ bytes, h.entry ≠ some (.file bytes)) {ok : Bool}
    (hact : act sha w pid artifact .removeDirAll ok = some w') :
    Goes sha w w' pid artifact (.inside h) .removeDirAll ok := by
  rcases removeDirAll_cases hact with ⟨rfl,rfl⟩ | ⟨rfl,rfl⟩
  · exact hw.stay rfl
  · exact goes_remove hw htemp hfile ⟨hfile,rfl⟩

theorem goes_removeFile (hw : h.Shown w pid artifact) (htemp : h.temp = none)
    (hfile : ∀ bytes, h.entry ≠ some (.file bytes)) {ok : Bool}
    (hact : act sha w pid artifact .removeFile ok = some w') :
    Goes sha w w' pid artifact (.inside h) .removeFile ok := by
  rcases removeFile_cases hact with ⟨rfl,rfl⟩ | ⟨rfl,rfl⟩
  · exact hw.stay rfl
  · exact goes_remove hw htemp hfile ⟨hfile,rfl⟩

/-- The process writes to its temporary file, which is new or the one it has. -/
theorem goes_write {c : Call δ} {r : c.Reply} (hw : h.Shown w pid artifact) {name : Text}
    {bytes : Bytes} (hmine : w.temps pid = none ∨ w.temps pid = some (artifact.sha256,name))
    (hfree : name = artifact.file → h.entry = none)
    (hnext : s.Next sha c r (.inside (h.write name bytes))) :
    Goes sha w ((w.setEntry artifact.sha256 name (some (.file bytes))).setTemp pid
      (some (artifact.sha256,name))) pid artifact s c r := by
  have htemps : ((w.setEntry artifact.sha256 name (some (.file bytes))).setTemp pid
      (some (artifact.sha256,name))).temps pid = some (artifact.sha256,name) :=
    Function.update_self _ _ _
  have hshown : (h.write name bytes).Shown ((w.setEntry artifact.sha256 name
      (some (.file bytes))).setTemp pid (some (artifact.sha256,name))) pid artifact := by
    refine ⟨hw.holder,hw.seen,htemps,?_,fun hne => ?_,fun heq => ?_⟩
    · rintro name' bytes' hname
      obtain ⟨rfl,rfl⟩ := Prod.mk.inj (Option.some.inj hname)
      exact setEntry_self _ _ _ _
    · rw [htemps] at hne
      have hdiff : artifact.file ≠ name := fun hsame => hne (by rw [hsame])
      refine (setEntry_of_ne _ _ (fun hsame => hdiff hsame.2)).trans (hw.entry ?_)
      rcases hmine with hnone | hname
      · simp [hnone]
      · simpa [hname] using Ne.symm hdiff
    · rw [htemps] at heq
      exact hfree (Prod.mk.inj (Option.some.inj heq)).2
  exact ⟨_,hnext,hshown,fun q digest hq =>
    (apart_setEntry hw.holder hq _ _).trans (apart_setTemp digest hq _)⟩

theorem goes_newTemp (hw : h.Shown w pid artifact) (htemp : h.temp = none) {r : Option Text}
    (hact : act sha w pid artifact .newTemp r = some w') :
    Goes sha w w' pid artifact (.inside h) .newTemp r := by
  cases r with
  | none =>
    cases hact
    exact hw.stay rfl
  | some name =>
    simp only [act] at hact
    split at hact
    · rename_i hfree
      cases hact
      refine goes_write hw (.inl (by rw [hw.temps,htemp]; rfl)) (fun hsame => ?_) rfl
      rw [← hw.entry_of_no_temp htemp,← hsame]
      exact hfree
    · cases hact

theorem goes_receive (hw : h.Shown w pid artifact) {name : Text} {bytes : Bytes}
    (htemp : h.temp = some (name,bytes)) {r : Received}
    (hact : act sha w pid artifact .receive r = some w') :
    Goes sha w w' pid artifact (.inside h) .receive r := by
  cases r with
  | byte b =>
    have htemps := hw.temps_some htemp
    simp only [act,htemps,hw.written name bytes htemp,Option.some.injEq] at hact
    have hsame : (w.setEntry artifact.sha256 name (some (.file (bytes ++ [b])))).setTemp pid
        (some (artifact.sha256,name)) = w' := by
      rw [← hact,World.setTemp,Function.update_eq_self_iff.mpr htemps.symm]
    rw [← hsame]
    refine goes_write hw (.inr htemps) (fun hname => hw.aside ?_) ⟨name,bytes,htemp,rfl⟩
    rw [htemps,hname]
  | eof =>
    cases hact
    exact hw.stay rfl
  | failed =>
    cases hact
    exact hw.stay rfl

theorem goes_persist (hw : h.Shown w pid artifact) {name : Text} {bytes : Bytes}
    (htemp : h.temp = some (name,bytes)) {ok : Bool}
    (hact : act sha w pid artifact .persist ok = some w') :
    Goes sha w w' pid artifact (.inside h) .persist ok := by
  cases ok with
  | false =>
    cases hact
    exact hw.stay rfl
  | true =>
    simp only [act,hw.temps_some htemp,hw.written name bytes htemp] at hact
    split at hact
    · cases hact
    · rename_i bytes' hbytes _
      cases hbytes
      cases hact
      have hheld : (w.setEntry artifact.sha256 name none).holder artifact.sha256 = some pid :=
        hw.holder
      exact ⟨.placed bytes,⟨name,bytes,htemp,rfl⟩,⟨hw.holder,setEntry_self _ _ _ _⟩,
        fun q digest hq => (((apart_setEntry hw.holder hq _ _).trans
          (apart_setEntry hheld hq _ _)).trans (apart_setTemp digest hq _)).trans
            (apart_note digest hq _)⟩
    · cases hact

/-- A regular file from before is not the temporary file, whose name was free. -/
theorem goes_dropTemp (hw : h.Shown w pid artifact) {name : Text} {bytes : Bytes}
    (htemp : h.temp = some (name,bytes)) {removed : Bool}
    (hact : act sha w pid artifact .dropTemp removed = some w') :
    Goes sha w w' pid artifact (.inside h) .dropTemp removed := by
  have htemps := hw.temps_some htemp
  have hkept : ∀ bytes, h.before = some (.file bytes) → artifact.file ≠ name ∧
      w.cache.entry artifact.sha256 artifact.file = some (.file bytes) := by
    intro bytes hbefore
    have hentry := h.kept bytes hbefore
    have hdiff : artifact.file ≠ name := by
      intro hsame
      have hnone := hw.aside (by rw [htemps,hsame])
      rw [hnone] at hentry
      cases hentry
    refine ⟨hdiff,(hw.entry ?_).trans hentry⟩
    simpa [htemps] using Ne.symm hdiff
  simp only [act,htemps,Option.some.injEq] at hact
  subst hact
  cases removed with
  | false =>
    exact ⟨.failing h.before,rfl,⟨hw.holder,by simp [World.setTemp,hw.seen],
      by simp [World.setTemp,hw.seen],fun bytes hbefore => (hkept bytes hbefore).2⟩,
      fun q digest hq => apart_setTemp digest hq _⟩
  | true =>
    refine ⟨.failing h.before,rfl,⟨hw.holder,by simp [World.setTemp,World.setEntry,hw.seen],
      by simp [World.setTemp,World.setEntry,hw.seen],fun bytes hbefore => ?_⟩,
      fun q digest hq => (apart_setEntry hw.holder hq _ _).trans (apart_setTemp digest hq _)⟩
    obtain ⟨hdiff,hentry⟩ := hkept bytes hbefore
    exact (setEntry_of_ne _ _ (fun hsame => hdiff hsame.2)).trans hentry

/-! ### Any step -/

/-- A lock that is free is not another process's. -/
theorem apart_acquireLock {digest other : δ} (hfree : w.holder digest = none) (hq : q ≠ pid)
    (file : Text) : Apart w (w.acquireLock pid digest file) q other where
  dead := rfl
  seen := Function.update_of_ne hq _ _
  temps := rfl
  holder d := by
    change Function.update w.holder digest (some pid) d = some q ↔ w.holder d = some q
    by_cases hd : d = digest
    · subst hd
      rw [Function.update_self,hfree]
      simp [Ne.symm hq]
    · rw [Function.update_of_ne hd]
  entry _ := rfl

theorem goes_lock {ok : Bool} (hseen : w.seen pid = ⟨none,false,false⟩)
    (htemps : w.temps pid = none) (hholder : ∀ d, w.holder d ≠ some pid)
    (hact : act sha w pid artifact .lock ok = some w') :
    Goes sha w w' pid artifact .outside .lock ok := by
  cases ok with
  | false =>
    cases hact
    exact ⟨.outside,rfl,⟨hseen,htemps,hholder⟩,fun q digest _ => .refl w q digest⟩
  | true =>
    simp only [act] at hact
    split at hact
    · rename_i hfree
      cases hact
      refine ⟨_,⟨w.cache.entry artifact.sha256 artifact.file,rfl⟩,⟨Function.update_self _ _ _,?_,
        htemps,fun name bytes hname => (by cases hname),fun _ => rfl,fun hown => ?_⟩,
        fun q digest hq => apart_acquireLock hfree hq _⟩
      · refine (Function.update_self _ _ _).trans ?_
        rw [hseen]
        rfl
      · rw [show (w.acquireLock pid artifact.sha256 artifact.file).temps pid = none from htemps]
          at hown
        cases hown
    · cases hact

theorem goes_createDirAll {ok : Bool} (hfits : Ghost.Fits w ⟨pid,artifact,.outside⟩)
    (hact : act sha w pid artifact .createDirAll ok = some w') :
    Goes sha w w' pid artifact .outside .createDirAll ok := by
  cases ok with
  | false =>
    cases hact
    exact ⟨.outside,rfl,hfits,fun q digest _ => .refl w q digest⟩
  | true =>
    cases hact
    exact ⟨.outside,rfl,hfits,fun q digest _ => ⟨rfl,rfl,rfl,fun _ => Iff.rfl,fun _ => rfl⟩⟩

end Inside

/-! ### All processes -/

/-- Every process that lives knows what is so. -/
structure Tracked (w : World δ) (ghosts : List (Ghost δ)) : Prop where
  own : ∀ (i : Nat) (g : Ghost δ), ghosts[i]? = some g → g.pid = i
  fits : ∀ (i : Nat) (g : Ghost δ), ghosts[i]? = some g → w.dead i = false → g.Fits w

theorem tracked_kill {ghosts : List (Ghost δ)} (k : Killed) (h : Tracked w ghosts) :
    Tracked (w.kill k) ghosts := by
  refine ⟨h.own,fun i g hg hdead => ?_⟩
  have hne : g.pid ≠ k.pid := by
    intro hsame
    rw [← h.own i g hg,hsame] at hdead
    simp [World.kill] at hdead
  have ha : Apart w (w.kill k) g.pid g.artifact.sha256 := apart_kill _ hne
  refine Ghost.Fits.apart (h.fits i g hg ?_) ha
  rw [← hdead,← h.own i g hg,ha.dead]

variable [DecidableEq δ]

/-- Each call that a process may make keeps its knowledge true and leaves the others theirs. -/
theorem fits_step {stage : Stage} {c : Call δ} {r : c.Reply}
    (hfits : Ghost.Fits w ⟨pid,artifact,stage⟩) (hallows : stage.Allows sha artifact.sha256 c)
    (hact : act sha w pid artifact c r = some w') : Goes sha w w' pid artifact stage c r := by
  cases stage with
  | outside =>
    cases c with
    | createDirAll => exact goes_createDirAll hfits hact
    | lock => exact goes_lock hfits.1 hfits.2.1 hfits.2.2 hact
    | returnErr e =>
      cases hact
      exact goes_return rfl
    | _ => exact hallows.elim
  | inside h =>
    have hw : h.Shown w pid artifact := hfits
    cases c with
    | symlinkMetadata => exact goes_symlinkMetadata hw hallows hact
    | ofFile => exact goes_ofFile hw hallows hact
    | removeDirAll => exact goes_removeDirAll hw hallows.1 hallows.2 hact
    | removeFile => exact goes_removeFile hw hallows.1 hallows.2 hact
    | newTemp => exact goes_newTemp hw hallows hact
    | request =>
      cases hact
      exact hw.stay rfl
    | receive =>
      obtain ⟨⟨name,bytes⟩,htemp⟩ := Option.isSome_iff_exists.mp hallows
      exact goes_receive hw htemp hact
    | persist =>
      obtain ⟨-,name,bytes,htemp,-⟩ := hallows
      exact goes_persist hw htemp hact
    | dropTemp =>
      obtain ⟨⟨name,bytes⟩,htemp⟩ := Option.isSome_iff_exists.mp hallows
      exact goes_dropTemp hw htemp hact
    | returnOk origin =>
      cases hact
      exact goes_return rfl
    | returnErr e =>
      cases hact
      exact goes_return rfl
    | createDirAll | lock => exact hallows.elim
  | placed bytes =>
    cases c with
    | returnOk origin =>
      cases hact
      exact goes_return rfl
    | _ => exact hallows.elim
  | failing before =>
    cases c with
    | returnErr e =>
      cases hact
      exact goes_return rfl
    | _ => exact hallows.elim
  | left => cases c <;> exact hallows.elim

theorem tracked_advance {ghosts : List (Ghost δ)} {i : Nat} {op : Op δ} {r : Reply op}
    {g : Ghost δ} (hanswer : answer sha w op r = some w') (h : Tracked w ghosts)
    (hg : ghosts[i]? = some g) (hok : (outline sha).ok g op) :
    ∃ g', (outline sha).next g op r g' ∧ Tracked w' (ghosts.set i g') := by
  obtain ⟨p,a,c⟩ := op
  obtain ⟨pid,artifact,stage⟩ := g
  obtain ⟨hpid,hartifact,hallows⟩ := hok
  obtain rfl : p = pid := hpid
  obtain rfl : a = artifact := hartifact
  obtain rfl : p = i := h.own i _ hg
  simp only [answer] at hanswer
  split at hanswer
  · cases hanswer
  · rename_i hlives
    obtain ⟨s',hnext,hfits,hapart⟩ :=
      fits_step (h.fits p _ hg (by simpa using hlives)) hallows hanswer
    refine ⟨⟨p,a,s'⟩,⟨s',hnext,rfl⟩,forall_set rfl h.own,fun j g' hg' hdead => ?_⟩
    obtain ⟨rfl,rfl⟩ | ⟨hj,hg'⟩ := getElem?_set_some hg'
    · exact hfits
    · have hown : g'.pid = j := h.own j g' hg'
      have ha := hapart g'.pid g'.artifact.sha256 (hown ▸ hj)
      refine Ghost.Fits.apart (h.fits j g' hg' ?_) ha
      rw [← hdead,← hown,ha.dead]

theorem preserves : Preserves (machine sha) (outline sha) Tracked Uncut where
  advance s i op r w ghosts g _ hanswer h hg hok := by
    obtain ⟨g',hnext,ht⟩ := tracked_advance hanswer h hg hok
    exact ⟨g',[],hnext,.nil,by rw [List.append_nil]; exact ht⟩
  abort s i ghosts hc _ := hc.elim
  env s k w ghosts _ henv h := by
    cases henv
    exact tracked_kill k h

def outside (artifacts : List (ManifestArtifact δ)) : List (Ghost δ) :=
  artifacts.mapIdx fun pid artifact => ⟨pid,artifact,.outside⟩

theorem begin_outlined (cache : Cache δ) (artifacts : List (ManifestArtifact δ)) :
    Outlined (outline sha) Tracked (begin sha cache artifacts) := by
  have hghost : ∀ (i : Nat) (g : Ghost δ), (outside artifacts)[i]? = some g →
      ∃ artifact, g = ⟨i,artifact,.outside⟩ := by
    intro i g hg
    rw [outside,List.getElem?_mapIdx,Option.map_eq_some_iff] at hg
    obtain ⟨artifact,-,rfl⟩ := hg
    exact ⟨artifact,rfl⟩
  refine ⟨outside artifacts,?_,⟨fun i g hg => ?_,fun i g hg _ => ?_⟩⟩
  · rw [begin,outside,List.forall₂_iff_get]
    refine ⟨by simp,fun i hi hi' => ?_⟩
    simp only [List.get_eq_getElem,List.getElem_mapIdx]
    exact acquisition_safe
  · obtain ⟨artifact,rfl⟩ := hghost i g hg
    rfl
  · obtain ⟨artifact,rfl⟩ := hghost i g hg
    exact ⟨rfl,rfl,fun d hd => (by cases hd)⟩

theorem acquisitions_tracked {cache : Cache δ} {artifacts : List (ManifestArtifact δ)} {s : State δ}
    (h : (acquisitions sha cache artifacts).Reachable s) :
    Outlined (outline sha) Tracked s :=
  outlined_reachable preserves
    (fun s hs => by
      rw [show s = begin sha cache artifacts from hs]
      exact begin_outlined cache artifacts) h

end PgEmbedSetup.Acquire
