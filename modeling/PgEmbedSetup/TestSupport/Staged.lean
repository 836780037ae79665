import PgEmbedSetup.TestSupport.StagingFiles

set_option autoImplicit false

/-!
What stands in the staging directory of `src/test_support/worker_env.rs`, however the tests that
stage the worker, the builds and other users come between each other.
-/

namespace PgEmbedSetup.TestSupport.Staging
open Library

/-! ### What ties the tests to the files -/

structure Tied (uid : Uid) (w : World) (ghosts : List Ghost) : Prop where
  fits : Fits uid w
  each : ∀ (i : Nat) g, ghosts[i]? = some g → g.phase.Fits uid w g.caller
  apart : ∀ (i j : Nat) g g' temp, ghosts[i]? = some g → ghosts[j]? = some g' →
    g.phase.temp = some temp → g'.phase.temp = some temp → i = j
  early : ∀ (i : Nat) g, ghosts[i]? = some g → g.phase.early = true →
    i = g.caller+1 ∧ ∀ ino build time, .opened g.caller ino build time ∉ w.events
  litter : ∀ temp ∈ w.temps, (∃ (i : Nat) (g : Ghost), ghosts[i]? = some g ∧
    g.phase.temp = some temp) ∨ .littered temp ∈ w.events ∨ .crashed ∈ w.events

section Steps
variable {uid : Uid} {created : Nat} {w w' : World} {ghosts : List Ghost} {i : Nat} {g : Ghost}
  {p : Phase}

theorem Phase.Fits.private {c : Caller} (hp : p.Fits uid w c) {temp : Ino}
    (htemp : p.temp = some temp) : Private w temp := by
  cases p with
  | holding temp => cases htemp; exact hp.2
  | opened temp source => cases htemp; exact hp.2.1
  | copying temp source offset => cases htemp; exact hp.2.1
  | copied temp source => cases htemp; exact hp.2.1
  | ready temp source => cases htemp; exact hp.2.1
  | outside => cases htemp
  | validated => cases htemp
  | entered => cases htemp
  | usable => cases htemp
  | published => cases htemp
  | ended => cases htemp

/-- A test goes on from one phase to the next, and what it does to the files concerns no other. -/
theorem Tied.move (h : Tied uid w ghosts) (hi : ghosts[i]? = some g) (hfits : Fits uid w')
    (hkeeps : Keeps uid g.phase.temp w w') (hown : p.Fits uid w' g.caller)
    (htemp : ∀ temp, p.temp = some temp → g.phase.temp = some temp ∨ w.files.length ≤ temp)
    (hearly : p.early = true → g.phase.early = true)
    (hopened : ∀ c ino build time, .opened c ino build time ∈ w'.events →
      .opened c ino build time ∈ w.events ∨
        c = g.caller ∧ g.phase.early = true ∧ p.early = false)
    (hlitter : ∀ temp ∈ w'.temps, p.temp = some temp ∨ .littered temp ∈ w'.events ∨
      temp ∈ w.temps ∧ g.phase.temp ≠ some temp) :
    Tied uid w' (ghosts.set i ⟨g.caller,p⟩) := by
  have hfresh {j : Nat} {g' : Ghost} {temp : Ino} (hj : ghosts[j]? = some g') (hji : j ≠ i)
      (htemp' : g'.phase.temp = some temp) : p.temp ≠ some temp := by
    intro hnew
    rcases htemp temp hnew with hold | hlen
    · exact hji (h.apart j i g' g temp hj hi htemp' hold)
    · exact Nat.not_le_of_lt ((h.each j g' hj).private htemp').known hlen
  refine ⟨hfits,fun j g' hj => ?_,fun j k g₁ g₂ temp hj hk h₁ h₂ => ?_,fun j g' hj hnow => ?_,
    fun temp hmem => ?_⟩
  · rcases getElem?_set_some hj with ⟨_,rfl⟩ | ⟨hji,hj⟩
    · exact hown
    · exact (h.each j g' hj).keep hkeeps fun temp htemp' hg =>
        hji (h.apart j i g' g temp hj hi htemp' hg)
  · rcases getElem?_set_some hj with ⟨hji,rfl⟩ | ⟨hji,hj'⟩ <;>
      rcases getElem?_set_some hk with ⟨hki,rfl⟩ | ⟨hki,hk'⟩
    · exact hji.trans hki.symm
    · exact absurd h₁ (hfresh hk' hki h₂)
    · exact absurd h₂ (hfresh hj' hji h₁)
    · exact h.apart j k g₁ g₂ temp hj' hk' h₁ h₂
  · rcases getElem?_set_some hj with ⟨rfl,rfl⟩ | ⟨hji,hj⟩
    · obtain ⟨hcaller,hnone⟩ := h.early j g hi (hearly hnow)
      refine ⟨hcaller,fun ino build time hmem => ?_⟩
      rcases hopened _ ino build time hmem with hmem | ⟨_,_,hlate⟩
      · exact hnone ino build time hmem
      · rw [hlate] at hnow
        cases hnow
    · obtain ⟨hcaller,hnone⟩ := h.early j g' hj hnow
      refine ⟨hcaller,fun ino build time hmem => ?_⟩
      rcases hopened _ ino build time hmem with hmem | ⟨hsame,hwas,_⟩
      · exact hnone ino build time hmem
      · have hi' := (h.early i g hi hwas).1
        exact hji (by rw [hcaller,hsame,← hi'])
  · rcases hlitter temp hmem with hnow | hlittered | ⟨hmem,hother⟩
    · obtain ⟨hlt,_⟩ := List.getElem?_eq_some_iff.mp hi
      exact .inl ⟨i,_,List.getElem?_set_self hlt,hnow⟩
    · exact .inr (.inl hlittered)
    · rcases h.litter temp hmem with ⟨j,g',hj,hheld⟩ | hlittered | hcrashed
      · have hne : i ≠ j := by
          rintro rfl
          rw [hi] at hj
          cases hj
          exact hother hheld
        exact .inl ⟨j,g',by rw [List.getElem?_set_ne hne]; exact hj,hheld⟩
      · exact .inr (.inl (hkeeps.events _ hlittered))
      · exact .inr (.inr (hkeeps.events _ hcrashed))

/-- A test learns something, and nothing changes. -/
theorem Tied.learn (h : Tied uid w ghosts) (hi : ghosts[i]? = some g)
    (hown : p.Fits uid w g.caller) (htemp : p.temp = g.phase.temp)
    (hearly : p.early = true → g.phase.early = true) :
    Tied uid w (ghosts.set i ⟨g.caller,p⟩) := by
  refine h.move hi h.fits keeps_refl hown (fun temp hp => .inl (htemp ▸ hp)) hearly
    (fun _ _ _ _ hmem => .inl hmem) fun temp hmem => ?_
  by_cases hheld : p.temp = some temp
  · exact .inl hheld
  · exact .inr (.inr ⟨hmem,htemp ▸ hheld⟩)

theorem Tied.stay (h : Tied uid w ghosts) (hi : ghosts[i]? = some g) :
    Tied uid w (ghosts.set i ⟨g.caller,g.phase⟩) :=
  h.learn hi (h.each i g hi) rfl id

/-- What builds and other users do concerns no test. -/
theorem Tied.world (h : Tied uid w ghosts) (hfits : Fits uid w') (hkeeps : Keeps uid none w w')
    (hevents : w'.events = w.events) (htemps : w'.temps = w.temps) : Tied uid w' ghosts := by
  refine ⟨hfits,fun i g hi => (h.each i g hi).keep hkeeps fun _ _ => (nomatch ·),h.apart,
    fun i g hi hearly => ?_,fun temp hmem => ?_⟩
  · rw [hevents]
    exact h.early i g hi hearly
  · rw [hevents]
    exact h.litter temp (htemps ▸ hmem)

/-! ### One lemma for each call -/

theorem Tied.mkdir (h : Tied uid w ghosts) (hi : ghosts[i]? = some g) (hmask : created &&& 0o022 = 0)
    (hok : g.phase = .outside) (hanswer : answer uid created w .mkdir true = some w') :
    Tied uid w' (ghosts.set i ⟨g.caller,g.phase⟩) := by
  obtain ⟨hplace,hw⟩ := Option.ite_none_right_eq_some.mp hanswer
  cases hw
  have hnot : w.inside uid = false := by simp [World.inside,hplace]
  refine h.move hi (h.fits.place (fun node hnode _ => ?_) (keeps_place hnot)) (keeps_place hnot)
    (by rw [hok]; trivial) (fun _ h => .inl h) id (fun _ _ _ _ hmem => .inl hmem)
    fun temp hmem => .inr (.inr ⟨hmem,by rw [hok]; simp [Phase.temp]⟩)
  cases hnode
  exact ⟨rfl,hmask⟩

theorem Tied.chmodDir (h : Tied uid w ghosts) (hi : ghosts[i]? = some g)
    (hok : g.phase = .validated) (hanswer : answer uid created w (.chmodDir 0o755) true = some w') :
    Tied uid w' (ghosts.set i ⟨g.caller,.entered⟩) := by
  have hinside : w.inside uid = true := by
    have hfits := h.each i g hi
    rwa [hok] at hfits
  have hw : w.within uid _ = some w' := hanswer
  rw [within_inside hinside] at hw
  cases hw
  obtain ⟨(hkeeps : Keeps uid none w _),hentered⟩ := keeps_chmod hinside
  refine h.move hi (h.fits.place (fun node hnode huid => ?_) hkeeps)
    (keeps_chmod hinside).1 hentered (fun _ h => nomatch h) (fun _ => by rw [hok]; rfl)
    (fun _ _ _ _ hmem => .inl hmem)
    fun temp hmem => .inr (.inr ⟨hmem,by rw [hok]; exact (nomatch ·)⟩)
  obtain ⟨old,hold,rfl⟩ := Option.map_eq_some_iff.mp hnode
  have hmode : 0o755 &&& 0o022 = 0 := by decide
  exact ⟨(h.fits.closed old hold huid).1,hmode⟩

theorem Tied.statStaged (h : Tied uid w ghosts) (hi : ghosts[i]? = some g) {looked : Looked}
    (hok : g.phase = .entered) (hanswer : answer uid created w .statStaged looked = some w') :
    Tied uid w' (ghosts.set i ⟨g.caller,g.phase.after uid .statStaged looked⟩) := by
  have hentered : w.Entered uid := by
    have hfits := h.each i g hi
    rwa [hok] at hfits
  have hw : w.within uid (w.looked looked) = some w' := hanswer
  rw [within_inside hentered.inside] at hw
  cases looked with
  | failed =>
    cases hw
    exact h.stay hi
  | notFound =>
    obtain ⟨_,hw⟩ := Option.ite_none_right_eq_some.mp hw
    cases hw
    exact h.stay hi
  | found metadata =>
    obtain ⟨hfound,hw⟩ := Option.ite_none_right_eq_some.mp hw
    cases hw
    obtain ⟨file,hfile,rfl⟩ := Option.map_eq_some_iff.mp hfound
    obtain ⟨ino,hino,hfile⟩ := Option.bind_eq_some_iff.mp hfile
    refine h.learn hi ?_ ?_ (fun _ => by rw [hok]; rfl) <;> simp only [Phase.after] <;> split
    · next husable => exact ⟨hentered,ino,file,hino,hfile,husable⟩
    · exact hentered
    · rw [hok]
      rfl
    · rw [hok]

theorem Tied.newTemp (h : Tied uid w ghosts) (hi : ghosts[i]? = some g) {temp : Ino}
    (hok : g.phase = .entered ∨ g.phase = .usable)
    (hanswer : answer uid created w .newTemp (some temp) = some w') :
    Tied uid w' (ghosts.set i ⟨g.caller,.holding temp⟩) := by
  have hentered : w.Entered uid := by
    have hfits := h.each i g hi
    rcases hok with hok | hok <;> rw [hok] at hfits
    · exact hfits
    · exact hfits.1
  have hnone : g.phase.temp = none := by rcases hok with hok | hok <;> rw [hok] <;> rfl
  have hw : w.within uid _ = some w' := hanswer
  rw [within_inside hentered.inside] at hw
  obtain ⟨rfl,hw⟩ := Option.ite_none_right_eq_some.mp hw
  cases hw
  have hfits : Fits uid { w with files := w.files ++ [⟨[],0o600,w.clock⟩] } :=
    h.fits.append (.inl rfl)
  have hprivate : Private { w with files := w.files ++ [⟨[],0o600,w.clock⟩] } w.files.length := by
    refine ⟨?_,(Nat.ne_of_lt h.fits.source).symm,fun e hmem ino file hp => ?_⟩
    · change w.files.length < (w.files ++ [_]).length
      rw [List.length_append]
      exact Nat.lt_succ_self _
    · obtain ⟨hlt,_⟩ := List.getElem?_eq_some_iff.mp (h.fits.kept e hmem ino file hp)
      exact Nat.ne_of_lt hlt
  have hkeeps : Keeps uid g.phase.temp w { w with files := w.files ++ [⟨[],0o600,w.clock⟩] } :=
    keeps_append (.inl rfl)
  refine h.move hi (hfits.temps _) ⟨hkeeps.inside,hkeeps.entered,hkeeps.usable,fun other hne hp =>
      ?_,hkeeps.files,hkeeps.events⟩ ⟨hentered,hprivate.known,hprivate.source,hprivate.hidden⟩
    (fun _ hp => .inr (by cases hp; exact Nat.le_refl _))
    (fun _ => by rcases hok with hok | hok <;> rw [hok] <;> rfl) (fun _ _ _ _ hmem => .inl hmem)
    fun other hmem => ?_
  · have hold := hkeeps.hidden other hne hp
    exact ⟨hold.known,hold.source,hold.hidden⟩
  · rcases List.mem_cons.mp hmem with rfl | hmem
    · exact .inl rfl
    · exact .inr (.inr ⟨hmem,by rw [hnone]; exact (nomatch ·)⟩)

theorem Tied.openSource (h : Tied uid w ghosts) (hi : ghosts[i]? = some g) {temp source mode : Nat}
    (hok : g.phase = .holding temp)
    (hanswer : answer uid created w (.openSource g.caller) (some (source,mode)) = some w') :
    Tied uid w' (ghosts.set i ⟨g.caller,.opened temp source⟩) := by
  have hphase := h.each i g hi
  rw [hok] at hphase
  obtain ⟨hentered,hprivate⟩ := hphase
  simp only [answer] at hanswer
  cases hbuild : w.files[w.source]? with
  | none =>
    rw [hbuild] at hanswer
    cases hanswer
  | some build =>
    rw [hbuild] at hanswer
    obtain ⟨⟨rfl,_⟩,hw⟩ := Option.ite_none_right_eq_some.mp hanswer
    cases hw
    have hfirst := (h.early i g hi (by rw [hok]; rfl)).2
    have hkeeps {own : Option Ino} :
        Keeps uid own w (w.log (.opened g.caller w.source build w.clock)) := by
      refine keeps_log fun ino file hp other _ hother => ?_
      cases hp
      exact hother.source.symm
    refine h.move hi (h.fits.logOpened hbuild hfirst) hkeeps
      ⟨hentered,(hkeeps : Keeps uid none w _).hidden temp (nomatch ·) hprivate,build,w.clock,_,
        List.mem_append_right _ (List.mem_singleton_self _),
        List.getElem?_eq_getElem hprivate.known,trivial⟩
      (fun _ hp => .inl (by rw [hok]; exact hp)) (fun hearly => nomatch hearly)
      (fun c ino build time hmem => ?_) fun other hmem => ?_
    · rcases List.mem_append.mp hmem with hmem | hmem
      · exact .inl hmem
      · cases List.mem_singleton.mp hmem
        exact .inr ⟨rfl,by rw [hok]; rfl,rfl⟩
    · by_cases hheld : temp = other
      · exact .inl (congrArg some hheld)
      · exact .inr (.inr ⟨hmem,by rw [hok]; exact fun heq => hheld (Option.some.inj heq)⟩)

/-- A step that writes the temporary file of the test and nothing else. -/
theorem Tied.put (h : Tied uid w ghosts) (hi : ghosts[i]? = some g) {temp : Ino} {file : File}
    (htemp : g.phase.temp = some temp) (hp : p.temp = some temp) (hlate : p.early = false)
    (hown : p.Fits uid (w.put temp file) g.caller) :
    Tied uid (w.put temp file) (ghosts.set i ⟨g.caller,p⟩) := by
  have hprivate := (h.each i g hi).private htemp
  refine h.move hi (h.fits.put hprivate) (htemp ▸ h.fits.keeps_put hprivate) hown
    (fun _ h => .inl (htemp.trans (hp.symm.trans h))) (fun hearly => by simp [hlate] at hearly)
    (fun _ _ _ _ hmem => .inl hmem) fun other hmem => ?_
  by_cases hheld : temp = other
  · exact .inl (hheld ▸ hp)
  · exact .inr (.inr ⟨hmem,by rw [htemp]; exact fun heq => hheld (Option.some.inj heq)⟩)

theorem Holds.put {c : Caller} {temp source : Ino} {file : File} {P Q : File → File → Prop}
    (hprivate : Private w temp) (h : Holds w c temp source P)
    (hQ : ∀ build, w.files[source]? = some build → (∀ old, w.files[temp]? = some old →
      P build old → Q build file)) (hfits : Fits uid w) :
    Holds (w.put temp file) c temp source Q := by
  obtain ⟨build,time,old,hopened,hold,hP⟩ := h
  exact ⟨build,time,file,hopened,hprivate.get_put,
    hQ build (hfits.kept _ hopened source build rfl) old hold hP⟩

theorem Tied.openTemp (h : Tied uid w ghosts) (hi : ghosts[i]? = some g) {temp source mode : Nat}
    (hok : g.phase = .opened temp source)
    (hanswer : answer uid created w (.openTemp temp mode) true = some w') :
    Tied uid w' (ghosts.set i ⟨g.caller,.copying temp source 0⟩) := by
  have hphase := h.each i g hi
  rw [hok] at hphase
  obtain ⟨hentered,hprivate,hheld⟩ := hphase
  have hw : w.within uid _ = some w' := hanswer
  rw [within_inside hentered.inside] at hw
  obtain ⟨old,_,rfl⟩ := Option.map_eq_some_iff.mp hw
  exact h.put hi (by rw [hok]; rfl) rfl rfl
    ⟨hentered,hprivate.put,hheld.put hprivate (fun _ _ _ _ _ => rfl) h.fits⟩

theorem Tied.copy (h : Tied uid w ghosts) (hi : ghosts[i]? = some g) {temp source offset : Nat}
    {size : Option Nat} (hok : g.phase = .copying temp source offset)
    (hanswer : answer uid created w (.copy temp source offset size) true = some w') :
    Tied uid w' (ghosts.set i ⟨g.caller,g.phase.after uid (.copy temp source offset size) true⟩) := by
  have hphase := h.each i g hi
  rw [hok] at hphase
  obtain ⟨hentered,hprivate,hheld⟩ := hphase
  simp only [answer] at hanswer
  split at hanswer
  · next file build hfile hbuild =>
    cases hanswer
    cases size with
    | none =>
      refine h.put hi (by rw [hok]; rfl) rfl rfl ⟨hentered,hprivate.put,hheld.put hprivate
        (fun build' hbuild' old hold hbytes => ?_) h.fits⟩
      cases hbuild.symm.trans hbuild'
      cases hfile.symm.trans hold
      change file.bytes ++ build.bytes.drop offset = build.bytes
      rw [hbytes,List.take_append_drop]
    | some size =>
      refine h.put hi (by rw [hok]; rfl) rfl rfl ⟨hentered,hprivate.put,hheld.put hprivate
        (fun build' hbuild' old hold hbytes => ?_) h.fits⟩
      cases hbuild.symm.trans hbuild'
      cases hfile.symm.trans hold
      change file.bytes ++ (build.bytes.drop offset).take size = build.bytes.take (offset+size)
      rw [hbytes,← List.take_add]
  · cases hanswer

theorem Tied.chmodTemp (h : Tied uid w ghosts) (hi : ghosts[i]? = some g) {temp source : Nat}
    (hok : g.phase = .copied temp source)
    (hanswer : answer uid created w (.chmodTemp temp 0o755) true = some w') :
    Tied uid w' (ghosts.set i ⟨g.caller,.ready temp source⟩) := by
  have hphase := h.each i g hi
  rw [hok] at hphase
  obtain ⟨hentered,hprivate,hheld⟩ := hphase
  have hw : w.within uid _ = some w' := hanswer
  rw [within_inside hentered.inside] at hw
  obtain ⟨file,hfile,rfl⟩ := Option.map_eq_some_iff.mp hw
  refine h.put hi (by rw [hok]; rfl) rfl rfl ⟨hentered,hprivate.put,hheld.put hprivate
    (fun build _ old hold hbytes => ?_) h.fits⟩
  cases hfile.symm.trans hold
  exact ⟨hbytes,rfl⟩

theorem mem_filter_temps {temps : List Ino} {temp other : Ino}
    (h : other ∈ temps.filter (· ≠ temp)) : other ∈ temps ∧ other ≠ temp := by
  simpa using h

theorem Tied.rename (h : Tied uid w ghosts) (hi : ghosts[i]? = some g) {temp source : Nat}
    (hok : g.phase = .ready temp source)
    (hanswer : answer uid created w (.rename g.caller temp) true = some w') :
    Tied uid w' (ghosts.set i ⟨g.caller,.published⟩) := by
  have hphase := h.each i g hi
  rw [hok] at hphase
  obtain ⟨hentered,hprivate,build,time,file,hopened,hfile,hbytes,hmode⟩ := hphase
  have htemp : g.phase.temp = some temp := by rw [hok]; rfl
  have hw : w.within uid _ = some w' := hanswer
  rw [within_inside hentered.inside,hfile] at hw
  cases hw
  refine h.move hi (h.fits.publish hentered hfile hmode hopened hbytes)
    (htemp ▸ keeps_publish hfile hmode) ⟨hentered,usable_publish hfile hmode⟩
    (fun _ hp => nomatch hp) (fun hearly => nomatch hearly) (fun c ino build time hmem => ?_)
    fun other hmem => ?_
  · rcases List.mem_append.mp hmem with hmem | hmem
    · exact .inl hmem
    · cases List.mem_singleton.mp hmem
  · obtain ⟨hmem,hne⟩ := mem_filter_temps hmem
    exact .inr (.inr ⟨hmem,by rw [htemp]; exact fun heq => hne (Option.some.inj heq).symm⟩)

theorem Tied.removeTemp (h : Tied uid w ghosts) (hi : ghosts[i]? = some g) {temp : Ino}
    {removed : Bool} (hok : g.phase.temp = some temp)
    (hanswer : answer uid created w (.removeTemp temp) removed = some w') :
    Tied uid w' (ghosts.set i ⟨g.caller,.ended⟩) := by
  have hother {other : Ino} (hne : other ≠ temp) : g.phase.temp ≠ some other := by
    rw [hok]
    exact fun heq => hne (Option.some.inj heq).symm
  cases removed with
  | true =>
    cases hanswer
    refine h.move hi (h.fits.temps _) (keeps_temps _) trivial (fun _ hp => nomatch hp)
      (fun hearly => nomatch hearly) (fun _ _ _ _ hmem => .inl hmem) fun other hmem => ?_
    obtain ⟨hmem,hne⟩ := mem_filter_temps hmem
    exact .inr (.inr ⟨hmem,hother hne⟩)
  | false =>
    cases hanswer
    refine h.move hi (h.fits.log rfl (nomatch ·) fun _ heq => nomatch heq) (keeps_log_none rfl)
      trivial (fun _ hp => nomatch hp) (fun hearly => nomatch hearly)
      (fun c ino build time hmem => ?_) fun other hmem => ?_
    · rcases List.mem_append.mp hmem with hmem | hmem
      · exact .inl hmem
      · cases List.mem_singleton.mp hmem
    · by_cases hne : other = temp
      · exact .inr (.inl (hne ▸ List.mem_append_right _ (List.mem_singleton_self _)))
      · exact .inr (.inr ⟨hmem,hother hne⟩)

theorem Tied.returned (h : Tied uid w ghosts) (hi : ghosts[i]? = some g) {r : Result}
    (htemp : g.phase.temp = none) (hok : r = .ok () → g.phase = .usable ∨ g.phase = .published) :
    Tied uid (w.log (.returned g.caller r)) (ghosts.set i ⟨g.caller,g.phase⟩) := by
  have hphase := h.each i g hi
  have hkeeps {own : Option Ino} : Keeps uid own w (w.log (.returned g.caller r)) :=
    keeps_log_none rfl
  refine h.move hi (h.fits.log rfl (nomatch ·) fun c heq => ?_) hkeeps
    (hphase.keep (hkeeps : Keeps uid none w _) fun _ _ => (nomatch ·)) (fun _ hp => .inl hp) id
    (fun c ino build time hmem => ?_)
    fun other hmem => .inr (.inr ⟨hmem,by rw [htemp]; exact (nomatch ·)⟩)
  · cases heq
    rcases hok rfl with hok | hok <;> rw [hok] at hphase <;> exact hphase
  · rcases List.mem_append.mp hmem with hmem | hmem
    · exact .inl hmem
    · cases List.mem_singleton.mp hmem

theorem Tied.lstatDir (h : Tied uid w ghosts) (hi : ghosts[i]? = some g) {node : Option Node}
    (hok : g.phase = .outside ∨ g.phase = .validated)
    (hanswer : answer uid created w .lstatDir node = some w') :
    Tied uid w' (ghosts.set i ⟨g.caller,g.phase.after uid .lstatDir node⟩) := by
  obtain ⟨hnode,hw⟩ := Option.ite_none_right_eq_some.mp hanswer
  cases hw
  have htemp : g.phase.temp = none := by rcases hok with hok | hok <;> rw [hok] <;> rfl
  have hearly : g.phase.early = true := by rcases hok with hok | hok <;> rw [hok] <;> rfl
  refine h.learn hi ?_ ?_ (fun _ => hearly) <;> simp only [Phase.after] <;> split
  · next hown =>
    rcases hnode with rfl | rfl
    · cases hown
    · exact hown
  · trivial
  · exact htemp.symm
  · exact htemp.symm

theorem Tied.advance (h : Tied uid w ghosts) (hmask : created &&& 0o022 = 0)
    (hi : ghosts[i]? = some g) {op : Op} {r : Reply op} (hok : g.allows op)
    (hanswer : answer uid created w op r = some w') :
    Tied uid w' (ghosts.set i ⟨g.caller,g.phase.after uid op r⟩) := by
  have hinside (hphase : g.phase ≠ .outside) (hended : g.phase ≠ .ended) : w.inside uid = true := by
    have hfits := h.each i g hi
    cases hp : g.phase with
    | outside => exact absurd hp hphase
    | ended => exact absurd hp hended
    | validated => rw [hp] at hfits; exact hfits
    | entered => rw [hp] at hfits; exact hfits.inside
    | usable => rw [hp] at hfits; exact hfits.1.inside
    | published => rw [hp] at hfits; exact hfits.1.inside
    | holding temp => rw [hp] at hfits; exact hfits.1.inside
    | opened temp source => rw [hp] at hfits; exact hfits.1.inside
    | copying temp source offset => rw [hp] at hfits; exact hfits.1.inside
    | copied temp source => rw [hp] at hfits; exact hfits.1.inside
    | ready temp source => rw [hp] at hfits; exact hfits.1.inside
  cases op with
  | lstatDir => exact h.lstatDir hi hok hanswer
  | mkdir =>
    cases r with
    | true => exact h.mkdir hi hmask hok hanswer
    | false => cases hanswer; exact h.stay hi
  | isDir =>
    cases r with
    | true =>
      obtain ⟨_,hw⟩ := Option.ite_none_right_eq_some.mp hanswer
      cases hw
      exact h.stay hi
    | false => cases hanswer; exact h.stay hi
  | chmodDir mode =>
    obtain ⟨rfl,hphase⟩ := hok
    cases r with
    | true => exact h.chmodDir hi hphase hanswer
    | false => cases hanswer; exact h.stay hi
  | statStaged => exact h.statStaged hi hok hanswer
  | statSource =>
    cases r with
    | none => cases hanswer; exact h.stay hi
    | some metadata =>
      obtain ⟨_,hw⟩ := Option.ite_none_right_eq_some.mp hanswer
      cases hw
      exact h.stay hi
  | newTemp =>
    cases r with
    | none => cases hanswer; exact h.stay hi
    | some temp => exact h.newTemp hi hok hanswer
  | openSource c =>
    obtain ⟨rfl,temp,hphase⟩ := hok
    cases r with
    | none => cases hanswer; exact h.stay hi
    | some opened =>
      have hafter : g.phase.after uid (.openSource g.caller) (some opened) =
          .opened temp opened.1 := by rw [hphase]; rfl
      rw [hafter]
      exact h.openSource hi hphase hanswer
  | openTemp temp mode =>
    obtain ⟨source,hphase⟩ := hok
    cases r with
    | true =>
      have hafter : g.phase.after uid (.openTemp temp mode) true = .copying temp source 0 := by
        rw [hphase]
        rfl
      rw [hafter]
      exact h.openTemp hi hphase hanswer
    | false => cases hanswer; exact h.stay hi
  | copy temp source offset size =>
    cases r with
    | true => exact h.copy hi hok hanswer
    | false =>
      cases hanswer
      cases size <;> exact h.stay hi
  | statTemp temp =>
    obtain ⟨source,hphase⟩ := hok
    cases r with
    | none => cases hanswer; exact h.stay hi
    | some mode =>
      have hw : w.within uid _ = some w' := hanswer
      rw [within_inside (hinside (by simp [hphase]) (by simp [hphase]))] at hw
      obtain ⟨_,hw⟩ := Option.ite_none_right_eq_some.mp hw
      cases hw
      exact h.stay hi
  | chmodTemp temp mode =>
    obtain ⟨rfl,source,hphase⟩ := hok
    cases r with
    | true =>
      have hafter : g.phase.after uid (.chmodTemp temp 0o755) true = .ready temp source := by
        rw [hphase]
        rfl
      rw [hafter]
      exact h.chmodTemp hi hphase hanswer
    | false => cases hanswer; exact h.stay hi
  | rename c temp =>
    obtain ⟨rfl,source,hphase⟩ := hok
    cases r with
    | true => exact h.rename hi hphase hanswer
    | false => cases hanswer; exact h.stay hi
  | removeTemp temp => exact h.removeTemp hi hok hanswer
  | returned c r =>
    obtain ⟨rfl,htemp,hok⟩ := hok
    cases hanswer
    exact h.returned hi htemp hok

/-- A test that is cut off leaves its temporary file to nobody. -/
theorem Tied.abort (h : Tied uid w ghosts) (i : Nat) :
    Tied uid (w.log .crashed) (ghosts.set i ⟨0,.ended⟩) := by
  have hkeeps : Keeps uid none w (w.log .crashed) := keeps_log_none rfl
  have hold {j : Nat} {g : Ghost} {temp : Ino} (hj : (ghosts.set i ⟨0,.ended⟩)[j]? = some g)
      (htemp : g.phase.temp = some temp) : ghosts[j]? = some g := by
    rcases getElem?_set_some hj with ⟨_,rfl⟩ | ⟨_,hj⟩
    · cases htemp
    · exact hj
  refine ⟨h.fits.log rfl (nomatch ·) fun _ heq => (nomatch heq),fun j g hj => ?_,
    fun j k g₁ g₂ temp hj hk h₁ h₂ => h.apart j k g₁ g₂ temp (hold hj h₁) (hold hk h₂) h₁ h₂,
    fun j g hj hearly => ?_,fun temp hmem => .inr (.inr ?_)⟩
  · rcases getElem?_set_some hj with ⟨_,rfl⟩ | ⟨_,hj⟩
    · trivial
    · exact (h.each j g hj).keep hkeeps fun _ _ => (nomatch ·)
  · rcases getElem?_set_some hj with ⟨_,rfl⟩ | ⟨_,hj⟩
    · cases hearly
    · obtain ⟨hcaller,hnone⟩ := h.early j g hj hearly
      refine ⟨hcaller,fun ino build time hmem => ?_⟩
      rcases List.mem_append.mp hmem with hmem | hmem
      · exact hnone ino build time hmem
      · cases List.mem_singleton.mp hmem
  · exact List.mem_append_right _ (List.mem_singleton_self _)

/-- What is not the user's own may come and go. -/
theorem inside_of_foreign (h : (w.place.all fun there => decide (there.uid ≠ uid)) = true) :
    w.inside uid = false := by
  cases hplace : w.place with
  | none => simp [World.inside,hplace]
  | some node =>
    have huid : node.uid ≠ uid := by simpa [hplace] using h
    simp [World.inside,hplace,Node.own,huid]

theorem Tied.meddle (h : Tied uid w ghosts) {e : Meddling} (hw : meddle uid w e = some w') :
    Tied uid w' ghosts := by
  cases e with
  | tick =>
    cases hw
    exact h.world h.fits.tick keeps_tick rfl rfl
  | rebuild bytes mode =>
    cases hw
    exact h.world (h.fits.append (.inr ⟨rfl,rfl⟩)) (keeps_append (.inr rfl)) rfl rfl
  | plant node =>
    obtain ⟨⟨hforeign,hother⟩,hw⟩ := Option.ite_none_right_eq_some.mp hw
    cases hw
    have hkeeps {own : Option Ino} : Keeps uid own w { w with place := some node } :=
      keeps_place (inside_of_foreign hforeign)
    refine h.world (h.fits.place (fun there hthere huid => ?_) hkeeps) hkeeps rfl rfl
    cases hthere
    exact absurd huid hother
  | unplant =>
    obtain ⟨hforeign,hw⟩ := Option.ite_none_right_eq_some.mp hw
    cases hw
    have hkeeps {own : Option Ino} : Keeps uid own w { w with place := none } :=
      keeps_place (inside_of_foreign hforeign)
    exact h.world (h.fits.place (fun _ hthere => nomatch hthere) hkeeps) hkeeps rfl rfl
  | plantStaged file =>
    obtain ⟨hopen,_⟩ := Option.ite_none_right_eq_some.mp hw
    obtain ⟨node,hplace,hnode⟩ := Option.any_eq_true _ _ |>.mp hopen
    simp only [Bool.and_eq_true,decide_eq_true_eq,Node.own] at hnode
    exact absurd (h.fits.closed node hplace hnode.1.2).2 hnode.2

/-! ### Runs -/

theorem stagers_preserve (hmask : created &&& 0o022 = 0) :
    Preserves (machine uid created) (outline uid) (Tied uid) (fun _ _ => True) where
  advance s i op r w ghosts g _ hw h hg hok :=
    ⟨_,[],rfl,.nil,by rw [List.append_nil]; exact h.advance hmask hg hok hw⟩
  abort s i ghosts _ h := ⟨⟨0,.ended⟩,rfl,h.abort i⟩
  env s e w ghosts _ hw h := h.meddle hw

theorem mem_found {e : Event} :
    e ∈ w.found ↔ ∃ ino file, e = .found ino file ∧ w.staged = some ino ∧
      w.files[ino]? = some file := by
  rw [World.found,Option.mem_toList,Option.bind_eq_some_iff]
  constructor
  · rintro ⟨ino,hino,hfile⟩
    obtain ⟨file,hget,rfl⟩ := Option.map_eq_some_iff.mp hfile
    exact ⟨ino,file,rfl,hino,hget⟩
  · rintro ⟨ino,file,rfl,hino,hfile⟩
    exact ⟨ino,hino,Option.map_eq_some_iff.mpr ⟨file,hfile,rfl⟩⟩

theorem Fits.initial (h : Before uid w) : Fits uid w := by
  have hfound {e : Event} (hmem : e ∈ w.events) :
      ∃ ino file, e = .found ino file ∧ w.staged = some ino ∧ w.files[ino]? = some file :=
    mem_found.mp (h.events ▸ hmem)
  have hnever {e : Event} (he : ∀ ino file, e ≠ .found ino file) : e ∉ w.events := by
    intro hmem
    obtain ⟨ino,file,heq,_⟩ := hfound hmem
    exact he ino file heq
  refine ⟨h.source,h.place,h.staged,fun e hmem ino file hp => ?_,fun ino hino => ?_,
    fun c ino file hmem => absurd hmem (hnever fun _ _ => (nomatch ·)),
    fun c ino build time hmem => absurd hmem (hnever fun _ _ => (nomatch ·)),
    fun c ino build time _ _ _ hmem _ => absurd hmem (hnever fun _ _ => (nomatch ·)),
    hnever fun _ _ => (nomatch ·),fun ino file => hnever fun _ _ => (nomatch ·),
    fun c hmem => absurd hmem (hnever fun _ _ => (nomatch ·))⟩
  · obtain ⟨_,_,rfl,_,hfile⟩ := hfound hmem
    cases hp
    exact hfile
  · have hfile := List.getElem?_eq_getElem (h.known ino hino)
    exact ⟨_,.inl (h.events ▸ mem_found.mpr ⟨ino,_,rfl,hino,hfile⟩)⟩

/-- The tests before their first call, behind the thread that is none of them. -/
theorem initial_ghost {tasks : List (List Nat)} {i : Nat} {g : Ghost}
    (h : ((⟨0,.ended⟩ :: tasks.mapIdx fun c _ => ⟨c,.outside⟩ : List Ghost))[i]? = some g) :
    g.phase = .ended ∨ g.phase = .outside ∧ i = g.caller+1 := by
  cases i with
  | zero =>
    cases h
    exact .inl rfl
  | succ i =>
    rw [List.getElem?_cons_succ,List.getElem?_mapIdx] at h
    obtain ⟨_,_,rfl⟩ := Option.map_eq_some_iff.mp h
    exact .inr ⟨rfl,rfl⟩

theorem begins_tied {tasks : List (List Nat)} {s : State} (h : begins uid tasks s) :
    Outlined (outline uid) (Tied uid) s := by
  obtain ⟨hthreads,hbefore⟩ := h
  refine ⟨⟨0,.ended⟩ :: tasks.mapIdx (fun c _ => ⟨c,.outside⟩),?_,.initial hbefore,fun i g hi => ?_,
    fun i j g g' temp hi _ htemp => ?_,fun i g hi hearly => ?_,fun temp hmem => ?_⟩
  · rw [hthreads]
    refine .cons rfl (List.forall₂_iff_get.mpr ⟨by simp,fun i hi hi' => ?_⟩)
    simp only [List.get_eq_getElem,List.getElem_mapIdx]
    exact stageWorkerBinary_outlined i _
  · rcases initial_ghost hi with hphase | ⟨hphase,_⟩ <;> rw [hphase] <;> trivial
  · rcases initial_ghost hi with hphase | ⟨hphase,_⟩ <;> rw [hphase] at htemp <;> cases htemp
  · rcases initial_ghost hi with hphase | ⟨_,hcaller⟩
    · rw [hphase] at hearly
      cases hearly
    · refine ⟨hcaller,fun ino build time hopened => ?_⟩
      obtain ⟨_,_,heq,_⟩ := mem_found.mp (hbefore.events ▸ hopened)
      cases heq
  · rw [hbefore.temps] at hmem
    cases hmem

theorem stagers_tied (hmask : created &&& 0o022 = 0) {tasks : List (List Nat)} {s : State}
    (h : (stagers uid created tasks).Reachable s) : Outlined (outline uid) (Tied uid) s :=
  outlined_reachable (stagers_preserve hmask) (fun _ => begins_tied)
    (System.reachable_restrict _ (fun _ _ => trivial) h)

end Steps

structure Sound (uid : Uid) (s : State) : Prop where
  unstrayed : .strayed ∉ s.world.events
  unplanted : ∀ ino file, .planted ino file ∉ s.world.events
  /-- What was staged or copied from once is never written again. -/
  kept : ∀ e ∈ s.world.events, ∀ ino file, e.shows = some (ino,file) →
    s.world.files[ino]? = some file
  stands : ∀ ino, s.world.staged = some ino → ∃ file, .found ino file ∈ s.world.events ∨
    ∃ c, .published c ino file ∈ s.world.events
  complete : ∀ c ino file, .published c ino file ∈ s.world.events → file.mode = 0o755 ∧
    ∃ source build time, .opened c source build time ∈ s.world.events ∧ file.bytes = build.bytes
  returned : ∀ c, .returned c (.ok ()) ∈ s.world.events → s.world.Entered uid ∧ s.world.Usable
  clean : s.settled = true → .crashed ∉ s.world.events →
    (∀ temp, .littered temp ∉ s.world.events) → s.world.temps = []

def firstBuild : File := ⟨[1,2,3],0o755,0⟩

def freshWorld : World := ⟨0,none,none,[],[firstBuild],0,[]⟩

def pieces : List (List Nat) := [[2],[1],[]]

def firstState : State := ⟨freshWorld,.pure () :: pieces.mapIdx (stageWorkerBinary 1000)⟩

theorem begins_first : begins 1000 pieces firstState :=
  ⟨rfl,Nat.zero_lt_one,fun _ h => (nomatch h),fun _ h => (nomatch h),rfl,rfl,fun _ h => (nomatch h)⟩

def foreignLink : Node := ⟨.symlink true,0,0o777⟩

def ownDir : Node := ⟨.dir,1000,0o755⟩

/-- The third test meets a link of somebody else's. The first one makes the directory and is cut off
in the middle of its copy. The second one stages what it has opened before the next build. -/
def raced : List Action :=
  [.env (.plant foreignLink),.advance 3 .lstatDir (some foreignLink),
    .advance 3 (.returned 2 (.error .notRealDirectory)) (),.env .unplant,
    .advance 1 .lstatDir none,.advance 1 .mkdir true,.advance 1 .lstatDir (some ownDir),
    .advance 1 (.chmodDir 0o755) true,.advance 1 .statStaged .notFound,
    .advance 1 .newTemp (some 1),.advance 1 (.openSource 0) (some (0,0o755)),
    .advance 1 (.openTemp 1 0o755) true,.advance 1 (.copy 1 0 0 (some 2)) true,.abort 1,
    .advance 2 .lstatDir (some ownDir),.advance 2 .lstatDir (some ownDir),
    .advance 2 (.chmodDir 0o755) true,.advance 2 .statStaged .notFound,
    .advance 2 .newTemp (some 2),.advance 2 (.openSource 1) (some (0,0o755)),
    .env .tick,.env (.rebuild [4,5,6] 0o755),.env .tick,
    .advance 2 (.openTemp 2 0o755) true,.advance 2 (.copy 2 0 0 (some 1)) true,
    .advance 2 (.copy 2 0 1 none) true,.advance 2 (.statTemp 2) (some 0o755),
    .advance 2 (.chmodTemp 2 0o755) true,.advance 2 (.rename 1 2) true,
    .advance 2 (.returned 1 (.ok ())) ()]

theorem raced_reaches (wanted : State → Bool)
    (h : ((machine 1000 0o755).run (fun _ _ => true) firstState raced).any wanted = true) :
    ∃ s, (stagers 1000 0o755 pieces).Reachable s ∧ wanted s = true := by
  obtain ⟨s,hreach,hwanted⟩ := (machine 1000 0o755).run_reaches (C := fun _ _ => True)
    (fun _ _ => true) (fun _ _ _ => trivial) begins_first raced wanted h
  exact ⟨s,System.reachable_of_restrict _ hreach,hwanted⟩

/-- A staged file that is older than the build passes for current only where the build was made
between the opening of the one before it and the last write of its copy. -/
theorem outdated_unless_rebuilt_meanwhile {uid : Uid} {created : Nat} {tasks : List (List Nat)}
    {s : State} (hmask : created &&& 0o022 = 0) (h : (stagers uid created tasks).Reachable s)
    {c : Caller} {ino : Ino} {file : File} (hpublished : .published c ino file ∈ s.world.events) :
    ∃ source build time, .opened c source build time ∈ s.world.events ∧
      (∀ source' build' time', .opened c source' build' time' ∈ s.world.events →
        source = source' ∧ build = build' ∧ time = time') ∧ file.bytes = build.bytes ∧
      ∀ current, s.world.files[s.world.source]? = some current →
        isOutdated current.metadata file.metadata = false →
          file.bytes = current.bytes ∨ time ≤ current.mtime ∧ current.mtime ≤ file.mtime := by
  obtain ⟨ghosts,_,htied⟩ := stagers_tied hmask h
  obtain ⟨_,source,build,time,hopened,hbytes⟩ := htied.fits.complete c ino file hpublished
  refine ⟨source,build,time,hopened,fun source' build' time' hopened' =>
    htied.fits.once c source build time source' build' time' hopened hopened',hbytes,
    fun current hcurrent hpasses => ?_⟩
  rcases (htied.fits.opened c source build time hopened).2 with rfl | ⟨src,hsrc,htime⟩
  · have hbuild := htied.fits.kept _ hopened _ _ rfl
    cases hbuild.symm.trans hcurrent
    exact .inl hbytes
  · cases hsrc.symm.trans hcurrent
    have hmtime : ¬ file.mtime < current.mtime := by
      intro hlt
      simp [isOutdated,File.metadata,hlt] at hpasses
    exact .inr ⟨htime,Nat.le_of_not_lt hmtime⟩

def nextBuild : File := ⟨[4,5,6],0o755,1⟩

def stagedCopy : File := ⟨[1,2,3],0o755,2⟩

theorem outdated_unless_rebuilt_meanwhile_raced :
    ∃ s, (stagers 1000 0o755 pieces).Reachable s ∧
      s.world.files[s.world.source]? = some nextBuild ∧
      isOutdated nextBuild.metadata stagedCopy.metadata = false ∧
      ∃ time, time ≤ nextBuild.mtime ∧ nextBuild.mtime ≤ stagedCopy.mtime := by
  have hpasses : isOutdated nextBuild.metadata stagedCopy.metadata = false := by decide
  obtain ⟨s,hreach,hwanted⟩ := raced_reaches
    (fun s => .published 1 2 stagedCopy ∈ s.world.events ∧
      s.world.files[s.world.source]? = some nextBuild) (by decide +kernel)
  simp only [decide_eq_true_eq] at hwanted
  obtain ⟨_,_,time,_,_,_,hcurrent⟩ := outdated_unless_rebuilt_meanwhile (by decide) hreach hwanted.1
  refine ⟨s,hreach,hwanted.2,hpasses,time,?_⟩
  rcases hcurrent nextBuild hwanted.2 hpasses with hbytes | hbetween
  · cases hbytes
  · exact hbetween

end PgEmbedSetup.TestSupport.Staging
