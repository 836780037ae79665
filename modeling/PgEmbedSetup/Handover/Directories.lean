import PgEmbedSetup.Handover.Steps

set_option autoImplicit false

/-!
What the bootstrap makes between the claim of a slot and the look at the password file: the
parents, the install and the data directory, and the two XDG directories.
-/

namespace PgEmbedSetup.Handover
open Library Privileges

variable {s s' s₁ : State} {p q dir d : Place Name} {n : Name} {paths : SettingsPaths}

/-- Where the directories are. -/
structure Dirs where
  installParent : Place Name
  dataParent : Place Name
  install : Place Name
  data : Place Name
  cache : Place Name
  run : Place Name

def cacheName : Name := ascii "cache"

def runName : Name := ascii "run"

/-- What is made if it is missing. -/
def Dirs.Wanted (d : Dirs) (paths : SettingsPaths) (q : Place Name) : Prop :=
  paths.installDefault = true ∧ q <:+ d.installParent ∨
  paths.dataDefault = true ∧ q <:+ d.dataParent ∨
  q <:+ d.install ∨
  q <:+ d.data ∧ (paths.dataDefault = true →
    ∀ n dir, paths.dataDir = n :: dir → q = n :: d.dataParent) ∨
  q <:+ d.cache ∧ q = cacheName :: d.install ∨
  q <:+ d.run ∧ q = runName :: d.install

def Dirs.Handed (d : Dirs) (paths : SettingsPaths) (q : Place Name) : Prop :=
  paths.installDefault = true ∧ q = d.installParent ∨
  paths.dataDefault = true ∧ q = d.dataParent ∨
  q = d.install ∨ q = d.data ∨ q = d.cache ∨ q = d.run

structure Prepared (paths : SettingsPaths) (s s' : State) (d : Dirs) : Prop where
  installParent : paths.installDefault = true →
    s'.fs.locate paths.installDir.tail = .ok d.installParent
  dataParent : paths.dataDefault = true → s'.fs.locate paths.dataDir.tail = .ok d.dataParent
  install : s'.fs.locate paths.installDir = .ok d.install
  data : s'.fs.locate paths.dataDir = .ok d.data
  cache : s'.fs.locate (cacheName :: paths.installDir) = .ok d.cache
  run : s'.fs.locate (runName :: paths.installDir) = .ok d.run
  dirs : ∀ q, d.Handed paths q → s'.fs.node q = some .dir
  does : Does s s' (d.Wanted paths) (d.Handed paths)

theorem ensureParent_ok {b : Bool} (hp : b = true → p ≠ [])
    (h : (if b = true then ensureParentForUser s p else .ok s) = .ok s') :
    ∃ q, (b = true → s'.fs.locate p.tail = .ok q ∧ s'.fs.node q = some .dir) ∧
      Does s s' (fun r => b = true ∧ r <:+ q) (fun r => b = true ∧ r = q) := by
  cases b with
  | false =>
    obtain rfl : s = s' := Except.ok.inj h
    refine ⟨[],fun hb => (nomatch hb),?_⟩
    have hnothing : Does s s Nothing Nothing := .of_exists fun _ hq => hq.elim
    exact hnothing.congr (fun _ _ => by simp [Nothing]) (fun _ => by simp [Nothing])
  | true =>
    cases p with
    | nil => exact absurd rfl (hp rfl)
    | cons n dir =>
      obtain ⟨q,hq⟩ := ensureDirForUser_ok h
      refine ⟨q,fun _ => ⟨hq.locate,hq.dir⟩,?_⟩
      exact hq.does.congr (fun _ _ => by simp) (fun _ => by simp)

theorem ensureDirForUser_child (hloc : s.fs.locate dir = .ok d) (hd : s.fs.node d = some .dir)
    (h : ensureDirForUser s (n :: dir) = .ok s') :
    ∃ q, Ensured s s' (n :: dir) q ∧ ∀ r, r <:+ q → s.fs.node r = none → r = n :: d := by
  rw [ensureDirForUser] at h
  obtain ⟨s₁,he,h⟩ := except_bind_ok.mp h
  obtain ⟨q,hl,hnew⟩ := ensureDirExists_child hloc hd he
  exact ⟨q,hl.chown h,hnew⟩

/-- What is made of a data directory whose parent is there. -/
theorem ensureData_ok {b : Bool} {P : Place Name} (hp : b = true → p ≠ [])
    (hP : b = true → s.fs.locate p.tail = .ok P ∧ s.fs.node P = some .dir)
    (h : ensureDirForUser s p = .ok s') :
    ∃ q, s'.fs.locate p = .ok q ∧ s'.fs.node q = some .dir ∧
      Does s s' (fun r => r <:+ q ∧ (b = true → ∀ n dir, p = n :: dir → r = n :: P)) (· = q) := by
  cases b with
  | false =>
    obtain ⟨q,hq⟩ := ensureDirForUser_ok h
    exact ⟨q,hq.locate,hq.dir,hq.does.congr (fun _ _ => by simp) (fun _ => Iff.rfl)⟩
  | true =>
    cases p with
    | nil => exact absurd rfl (hp rfl)
    | cons n dir =>
      obtain ⟨hloc,hdir⟩ := hP rfl
      obtain ⟨q,hq,hnew⟩ := ensureDirForUser_child hloc hdir h
      refine ⟨q,hq.locate,hq.dir,hq.does.congr (fun r hr => ⟨And.left,fun hs => ⟨hs,?_⟩⟩)
        (fun _ => Iff.rfl)⟩
      rintro - m dir' he
      obtain ⟨rfl,-⟩ := List.cons.inj he
      exact hnew r hs hr

/-- Making a directory in one that is there, and handing it over later. -/
theorem ensureDirExists_does (hloc : s.fs.locate dir = .ok d) (hd : s.fs.node d = some .dir)
    (h : ensureDirExists s (n :: dir) = .ok s') :
    ∃ q, s'.fs.locate (n :: dir) = .ok q ∧ s'.fs.node q = some .dir ∧
      Does s s' (fun r => r <:+ q ∧ r = n :: d) Nothing := by
  obtain ⟨q,hl,hnew⟩ := ensureDirExists_child hloc hd h
  exact ⟨q,hl.locate,hl.dir,
    hl.does.congr (fun r hr => ⟨And.left,fun hs => ⟨hs,hnew r hs hr⟩⟩) (fun _ => Iff.rfl)⟩

/-- Handing over what is there. -/
theorem ensureDirForUser_there (hloc : s.fs.locate p = .ok q) (hq : s.fs.node q = some .dir)
    (h : ensureDirForUser s p = .ok s') : Does s s' Nothing (· = q) := by
  obtain ⟨r,hr⟩ := ensureDirForUser_ok h
  obtain rfl : q = r := Except.ok.inj ((hr.does.locate hloc).symm.trans hr.locate)
  exact hr.does.congr (fun x hx => ⟨fun hn => hn.elim,fun hs => exists_of_suffix hq hs hx⟩)
    (fun _ => Iff.rfl)

theorem prepared_of {s₂ s₃ s₄ : State} {xdg : XdgDirs}
    (hI : paths.installDefault = true → paths.installDir ≠ [])
    (hD : paths.dataDefault = true → paths.dataDir ≠ [])
    (hparents : ensureParentsForPaths paths s = .ok s₁)
    (hinstall : ensureDirForUser s₁ paths.installDir = .ok s₂)
    (hdata : ensureDirForUser s₂ paths.dataDir = .ok s₃)
    (hxdg : prepareXdgDirs s₃ paths.installDir = .ok (xdg,s₄))
    (howned : ensureXdgDirsOwnedByUser s₄ xdg = .ok s') : ∃ d, Prepared paths s s' d := by
  obtain ⟨a,ha,hparents⟩ := ite_bind_ok hparents
  obtain ⟨R,hR,hdoesR⟩ := ensureParent_ok hI ha
  obtain ⟨P,hP,hdoesP⟩ := ensureParent_ok hD hparents
  obtain ⟨I,hensI⟩ := ensureDirForUser_ok hinstall
  obtain ⟨S,hS,hSdir,hdoesS⟩ := ensureData_ok hD
    (fun hb => ⟨hensI.does.locate (hP hb).1,hensI.does.old P _ (hP hb).2⟩) hdata
  rw [prepareXdgDirs] at hxdg
  obtain ⟨b,hb,hxdg⟩ := except_bind_ok.mp hxdg
  obtain ⟨c,hc,hxdg⟩ := except_bind_ok.mp hxdg
  obtain ⟨rfl,rfl⟩ := Prod.mk.inj (Except.ok.inj hxdg)
  have hI₃ := hdoesS.locate hensI.locate
  have hIdir₃ := hdoesS.old I _ hensI.dir
  obtain ⟨C,hC,hCdir,hdoesC⟩ := ensureDirExists_does hI₃ hIdir₃ hb
  obtain ⟨U,hU,hUdir,hdoesU⟩ :=
    ensureDirExists_does (hdoesC.locate hI₃) (hdoesC.old I _ hIdir₃) hc
  rw [ensureXdgDirsOwnedByUser] at howned
  obtain ⟨e,he,howned⟩ := except_bind_ok.mp howned
  have hgiveC := ensureDirForUser_there (hdoesU.locate hC) (hdoesU.old C _ hCdir) he
  have hgiveU := ensureDirForUser_there (hgiveC.locate hU) (hgiveC.old U _ hUdir) howned
  have hall := ((((((hdoesR.trans hdoesP).trans hensI.does).trans hdoesS).trans hdoesC).trans
    hdoesU).trans hgiveC).trans hgiveU
  have hlast := hgiveC.trans hgiveU
  have hxdgs := (hdoesC.trans hdoesU).trans hlast
  have hdirs := hdoesS.trans hxdgs
  refine ⟨⟨R,P,I,S,C,U⟩,?_,?_,hxdgs.locate hI₃,hxdgs.locate hS,
    (hdoesU.trans hlast).locate hC,hlast.locate hU,?_,?_⟩
  · exact fun hb => (hensI.does.trans hdirs).locate (hdoesP.locate (hR hb).1)
  · exact fun hb => (hensI.does.trans hdirs).locate (hP hb).1
  · rintro q (⟨hb,rfl⟩ | ⟨hb,rfl⟩ | rfl | rfl | rfl | rfl)
    · exact (hensI.does.trans hdirs).old _ _ (hdoesP.old _ _ (hR hb).2)
    · exact (hensI.does.trans hdirs).old _ _ (hP hb).2
    · exact hdirs.old _ _ hensI.dir
    · exact hxdgs.old _ _ hSdir
    · exact (hdoesU.trans hlast).old _ _ hCdir
    · exact hlast.old _ _ hUdir
  · refine hall.congr (fun q _ => ?_) (fun q => ?_)
    · simp [Dirs.Wanted,Nothing,or_assoc,cacheName,runName]
    · simp [Dirs.Handed,Nothing,or_assoc]

end PgEmbedSetup.Handover
