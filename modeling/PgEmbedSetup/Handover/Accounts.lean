import PgEmbedSetup.Handover.Calls
import PgEmbedSetup.Handover.Exact

set_option autoImplicit false

/-!
Which modes a whole bootstrap gives, and which of them are left in the end.
-/

namespace PgEmbedSetup.Handover.Modes
open Library Privileges
open Bootstrap (ExecutionPrivileges)

variable {initial : Place Name → Nat} {m m₁ m₂ m₄ m' : Permissions} {s s' : State}
  {dataDir top : Place Name} {privileges : ExecutionPrivileges} {c : Chmod}
  {cs as bs ps : List Chmod}
  {w : Surroundings} {layout : DataLayout} {cfg : PgEnvCfg} {paths : SettingsPaths}

/-! ### A whole bootstrap -/

def askedBefore (privileges : ExecutionPrivileges) (paths : SettingsPaths) :
    List (Place Name × Nat) :=
  let dirs := asked paths.installDir 0o755 ++ asked paths.dataDir 0o700
  match privileges with
  | .root => parentAsked paths.installDefault paths.installDir ++
      parentAsked paths.dataDefault paths.dataDir ++ dirs ++ (xdgAsked paths ++ xdgAsked paths)
  | .unprivileged => dirs

def askedAfter (privileges : ExecutionPrivileges) (paths : SettingsPaths) :
    List (Place Name × Nat) :=
  match privileges with
  | .root => []
  | .unprivileged => xdgAsked paths

/-- The modes that were given before the password file was looked at, to it, and afterwards. -/
structure Ran (initial : Place Name → Nat) (privileges : ExecutionPrivileges)
    (paths : SettingsPaths) (m m' : Permissions) (bs ps as : List Chmod) : Prop where
  gives : Gives initial m m' (bs ++ ps ++ as)
  before : bs.map Chmod.asked = askedBefore privileges paths
  password : ps.map Chmod.asked = [] ∨ ps.map Chmod.asked = [(paths.passwordFile,pgpassMode)]
  after : as.map Chmod.asked = askedAfter privileges paths
  confined : ∀ c ∈ bs ++ ps ++ as, c.dir <:+ c.place
  dirs : ∀ c ∈ bs ++ as, m'.state.fs.node c.place = some .dir
  file : privileges = .root → ∀ c ∈ ps, m'.state.fs.node c.place = some .file

theorem ran_of (hclaim : Gives initial m m₁ [])
    (hbefore : Asked initial m₁ m₂ (askedBefore privileges paths))
    (hdiscard : discardOrphanedPasswordFile m₂.state paths.dataDir paths.passwordFile = .ok s)
    (hpassword : Password initial (m₂.advance initial s) m₄ paths.passwordFile ps)
    (hfile : privileges = .root → ∀ c ∈ ps, s.fs.node c.place = some .file)
    (hafter : Asked initial m₄ m' (askedAfter privileges paths)) :
    ∃ bs ps as, Ran initial privileges paths m m' bs ps as := by
  obtain ⟨bs,hb,hbasked⟩ := hbefore
  obtain ⟨as,ha,haasked⟩ := hafter
  have hd := discardOrphanedPasswordFile_ok hdiscard
  have hfs : m₄.state.fs = s.fs := hpassword.files
  -- The password file goes only if it is no directory.
  have hdirs : ∀ c ∈ bs, s.fs.node c.place = some .dir := fun c hc =>
    (hd.same _ (.inr (hb.dirs c hc))).trans (hb.dirs c hc)
  have hkeeps : ∀ q, q ∈ s.made ↔ q ∈ m₂.state.made := fun q => by rw [hd.made]
  have h₂ : Gives initial m m₂ bs := hclaim.trans hb.toGives (by simp)
  have h₃ : Gives initial m (m₂.advance initial s) (bs ++ []) :=
    h₂.trans (.advance fun q hq => (hkeeps q).mpr hq) fun c _ hq => (hkeeps _).mp hq
  rw [List.append_nil] at h₃
  have h₄ : Gives initial m m₄ (bs ++ ps) :=
    h₃.trans hpassword.gives fun c _ hq => hpassword.made _ hq
  have hthere : ∀ c ∈ bs ++ ps, m₄.state.fs.node c.place ≠ none := by
    intro c hc
    rw [hfs]
    rcases List.mem_append.mp hc with hc | hc
    · simp [hdirs c hc]
    · exact hpassword.there c hc
  refine ⟨bs,ps,as,⟨?_,hbasked,hpassword.asked,haasked,?_,?_,?_⟩⟩
  · exact h₄.trans ha.toGives fun c hc hq => (ha.new _ hq).resolve_right (hthere c hc)
  · intro c hc
    rw [List.mem_append,List.mem_append] at hc
    rcases hc with (hc | hc) | hc
    · exact hb.confined c hc
    · exact hpassword.confined c hc
    · exact ha.confined c hc
  · intro c hc
    rcases List.mem_append.mp hc with hc | hc
    · exact ha.old _ _ (hfs ▸ hdirs c hc)
    · exact ha.dirs c hc
  · exact fun hroot c hc => ha.old _ _ (hfs ▸ hfile hroot c hc)

theorem ite_bind_of_ok {ε α β : Type} {b : Bool} {x y : Except ε α} {f : α → Except ε β} {a : α}
    {r : β} (hx : (if b = true then x else y) = .ok a) (h : f a = .ok r) :
    (if b = true then x >>= f else y >>= f) = .ok r := by
  cases b <;> exact except_bind_ok.mpr ⟨a,hx,h⟩

theorem ensureParentsForPaths_user
    (h : ensureParentsForPaths paths (ensureParentForUser initial) m = .ok m') :
    Handover.ensureParentsForPaths paths m.state = .ok m'.state ∧
      Asked initial m m' (parentAsked paths.installDefault paths.installDir ++
        parentAsked paths.dataDefault paths.dataDir) := by
  rw [ensureParentsForPaths] at h
  obtain ⟨m₁,hinstall,hdata⟩ := ite_bind_ok h
  obtain ⟨hinstall,hasked₁⟩ := ensureParentForUser_asked hinstall
  obtain ⟨hdata,hasked₂⟩ := ensureParentForUser_asked hdata
  exact ⟨ite_bind_of_ok hinstall hdata,hasked₁.trans hasked₂⟩

theorem ensureParentsForPaths_exist
    (h : ensureParentsForPaths paths (ensureParentExists initial) m = .ok m') :
    Asked initial m m' [] := by
  rw [ensureParentsForPaths] at h
  obtain ⟨m₁,hinstall,hdata⟩ := ite_bind_ok h
  exact (ensureParentExists_asked hinstall).trans (ensureParentExists_asked hdata)

theorem lift_asked {r : Except Failure State}
    (hr : ∀ s, r = .ok s → ∃ wanted handed, Does m.state s wanted handed)
    (h : m.lift initial r = .ok m') : r = .ok m'.state ∧ Asked initial m m' [] := by
  obtain ⟨s,rfl,rfl⟩ := lift_ok h
  obtain ⟨wanted,handed,hdoes⟩ := hr s rfl
  exact ⟨rfl,.of_does hdoes⟩

theorem lift_asked_if {b : Bool} {r : Except Failure State}
    (hr : ∀ s, r = .ok s → ∃ wanted handed, Does m.state s wanted handed)
    (h : (if b = true then m.lift initial r else .ok m) = .ok m') :
    (if b = true then r else .ok m.state) = .ok m'.state ∧ Asked initial m m' [] := by
  cases b with
  | false =>
    obtain rfl : m = m' := Except.ok.inj h
    exact ⟨rfl,.refl⟩
  | true => exact lift_asked hr h

theorem ensureSlotLock_does (h : ensureSlotLockOwnedByUser s dataDir = .ok s') :
    ∃ wanted handed, Does s s' wanted handed := by
  obtain ⟨q,-,hdoes⟩ := chown_ok (mapError_ok h)
  exact ⟨_,_,hdoes⟩

theorem ensureTree_does (h : ensureTreeOwnedByUser s top = .ok s') :
    ∃ wanted handed, Does s s' wanted handed := by
  obtain ⟨-,given,hdoes,-⟩ := ensureTreeOwnedByUser_ok h
  exact ⟨_,given,hdoes⟩

theorem bootstrapWithRoot_ran
    (h : bootstrapWithRoot initial w layout cfg m = .ok (paths,m')) :
    Handover.bootstrapWithRoot w layout cfg m.state = .ok m'.state ∧
      ∃ bs ps as, Ran initial .root paths m m' bs ps as := by
  rw [bootstrapWithRoot] at h
  obtain ⟨⟨hasSlot,paths,m₁⟩,hclaim,h⟩ := except_bind_ok.mp h
  obtain ⟨a,ha,h⟩ := except_bind_ok.mp h
  obtain ⟨b,hb,h⟩ := except_bind_ok.mp h
  obtain ⟨c,hc,h⟩ := except_bind_ok.mp h
  obtain ⟨⟨xdg,e⟩,he,h⟩ := except_bind_ok.mp h
  obtain ⟨f,hf,h⟩ := except_bind_ok.mp h
  obtain ⟨g,hg,h⟩ := except_bind_ok.mp h
  obtain ⟨i,hi,h⟩ := except_bind_ok.mp h
  obtain ⟨j,hj,h⟩ := ite_bind_ok h
  obtain ⟨k,hk,h⟩ := except_bind_ok.mp h
  obtain ⟨l,hl,h⟩ := ite_bind_ok h
  obtain ⟨rfl,rfl⟩ := Prod.mk.inj (Except.ok.inj h)
  obtain ⟨hclaim,hgives⟩ := claimDerivedSlot_gives hclaim
  obtain ⟨ha,ha'⟩ := ensureParentsForPaths_user ha
  obtain ⟨hb,hb'⟩ := ensureDirForUser_asked hb
  obtain ⟨hc,hc'⟩ := ensureDirForUser_asked hc
  obtain ⟨he,rfl,he'⟩ := prepareXdgDirs_asked he
  obtain ⟨hf,hf'⟩ := ensureXdgDirsOwnedByUser_asked hf
  obtain ⟨s,hs,rfl⟩ := lift_ok hg
  obtain ⟨hi,ps,hpassword,hfile⟩ := ensurePgpassForUser_password hi
  obtain ⟨hj,hj'⟩ := lift_asked_if (fun _ => ensureSlotLock_does) hj
  obtain ⟨hk,hk'⟩ := lift_asked (fun _ => ensureTree_does) hk
  obtain ⟨hl,hl'⟩ := lift_asked_if (fun _ => ensureTree_does) hl
  have hbefore := ((ha'.trans (hb'.trans hc')).trans (he'.trans hf'))
  refine ⟨?_,ran_of hgives hbefore hs hpassword (fun _ => hfile) ((hj'.trans hk').trans hl')⟩
  rw [Handover.bootstrapWithRoot]
  exact except_bind_ok.mpr ⟨_,hclaim,except_bind_ok.mpr ⟨_,ha,except_bind_ok.mpr ⟨_,hb,
    except_bind_ok.mpr ⟨_,hc,except_bind_ok.mpr ⟨_,he,except_bind_ok.mpr ⟨_,hf,
    except_bind_ok.mpr ⟨_,hs,except_bind_ok.mpr ⟨_,hi,ite_bind_of_ok hj
    (except_bind_ok.mpr ⟨_,hk,hl⟩)⟩⟩⟩⟩⟩⟩⟩⟩

theorem bootstrapUnprivileged_ran
    (h : bootstrapUnprivileged initial w layout cfg m = .ok (paths,m')) :
    ∃ bs ps as, Ran initial .unprivileged paths m m' bs ps as := by
  rw [bootstrapUnprivileged] at h
  obtain ⟨⟨hasSlot,paths,m₁⟩,hclaim,h⟩ := except_bind_ok.mp h
  obtain ⟨a,ha,h⟩ := except_bind_ok.mp h
  obtain ⟨b,hb,h⟩ := except_bind_ok.mp h
  obtain ⟨c,hc,h⟩ := except_bind_ok.mp h
  obtain ⟨d,hd,h⟩ := except_bind_ok.mp h
  obtain ⟨e,he,h⟩ := except_bind_ok.mp h
  obtain ⟨⟨xdg,f⟩,hf,h⟩ := except_bind_ok.mp h
  obtain ⟨rfl,rfl⟩ := Prod.mk.inj (Except.ok.inj h)
  obtain ⟨-,hgives⟩ := claimDerivedSlot_gives hclaim
  obtain ⟨-,hb'⟩ := ensureDirWithMode_asked hb
  obtain ⟨-,hc'⟩ := ensureDirWithMode_asked hc
  obtain ⟨s,hs,rfl⟩ := lift_ok hd
  obtain ⟨ps,hpassword⟩ := ensurePgpassPermissions_password he
  obtain ⟨-,-,hf'⟩ := prepareXdgDirs_asked hf
  have hbefore := (ensureParentsForPaths_exist ha).trans (hb'.trans hc')
  exact ran_of hgives hbefore hs hpassword nofun hf'

/-! ### What is left in the end -/

theorem Gives.mode_of_later (h : Gives initial m m' (as ++ c :: bs))
    (hlater : ∀ b ∈ bs, b.place = c.place → b.mode = c.mode) : m'.mode c.place = c.mode :=
  h.mode_of_last (lastMode_of_later hlater)

theorem map_asked_last {l : List (Place Name × Nat)} {a : Place Name × Nat}
    (h : cs.map Chmod.asked = l ++ [a]) : ∃ cs' c, cs = cs' ++ [c] ∧ c.asked = a := by
  obtain ⟨cs',last,rfl,-,hlast⟩ := List.map_eq_append_iff.mp h
  obtain ⟨c,rfl,hc⟩ := List.map_eq_singleton_iff.mp hlast
  exact ⟨cs',c,rfl,hc⟩

theorem Ran.run (h : Ran initial privileges paths m m' bs ps as) :
    ∃ c ∈ bs ++ ps ++ as, c.path = runName :: paths.installDir ∧ m'.mode c.place = 0o700 := by
  cases privileges with
  | root =>
    have hlast : askedBefore .root paths =
        parentAsked paths.installDefault paths.installDir ++
          parentAsked paths.dataDefault paths.dataDir ++
          (asked paths.installDir 0o755 ++ asked paths.dataDir 0o700) ++
          (xdgAsked paths ++ [(cacheName :: paths.installDir,0o755)]) ++
          [(runName :: paths.installDir,0o700)] := by
      simp [askedBefore,xdgAsked]
    obtain ⟨bs',c,rfl,hc⟩ := map_asked_last (h.before.trans hlast)
    obtain ⟨hpath,hmode⟩ := Prod.mk.inj hc
    obtain rfl : as = [] := List.map_eq_nil_iff.mp h.after
    have hgives : Gives initial m m' (bs' ++ c :: ps) := by simpa using h.gives
    refine ⟨c,by simp,hpath,(hgives.mode_of_later fun b hb hplace => ?_).trans hmode⟩
    -- The directory is not the password file.
    have hdir := h.dirs c (by simp)
    rw [← hplace,h.file rfl b hb] at hdir
    cases hdir
  | unprivileged =>
    have hlast : askedAfter .unprivileged paths =
        [(cacheName :: paths.installDir,0o755)] ++ [(runName :: paths.installDir,0o700)] := rfl
    obtain ⟨as',c,rfl,hc⟩ := map_asked_last (h.after.trans hlast)
    obtain ⟨hpath,hmode⟩ := Prod.mk.inj hc
    have hgives : Gives initial m m' ((bs ++ ps ++ as') ++ c :: []) := by simpa using h.gives
    exact ⟨c,by simp,hpath,(hgives.mode_of_later (by simp)).trans hmode⟩

theorem asked_xdg (hc : c.asked ∈ xdgAsked paths) :
    c.path = cacheName :: paths.installDir ∨ c.mode = 0o700 := by
  rw [xdgAsked,List.mem_pair] at hc
  exact hc.imp (fun hc => (Prod.mk.inj hc).1) fun hc => (Prod.mk.inj hc).2

theorem askedBefore_data (privileges : ExecutionPrivileges) (hdata : paths.dataDir ≠ []) :
    ∃ pre post, askedBefore privileges paths = pre ++ (paths.dataDir,0o700) :: post ∧
      ∀ x ∈ post, x ∈ xdgAsked paths := by
  obtain ⟨n,dir,hcons⟩ := List.exists_cons_of_ne_nil hdata
  have hasked : asked paths.dataDir 0o700 = [(paths.dataDir,0o700)] := by rw [hcons]; rfl
  cases privileges with
  | root =>
    refine ⟨parentAsked paths.installDefault paths.installDir ++
      parentAsked paths.dataDefault paths.dataDir ++ asked paths.installDir 0o755,
      xdgAsked paths ++ xdgAsked paths,?_,?_⟩
    · simp [askedBefore,hasked]
    · intro x hx
      exact (List.mem_append.mp hx).elim id id
  | unprivileged =>
    refine ⟨asked paths.installDir 0o755,[],?_,by simp⟩
    simp [askedBefore,hasked]

theorem askedAfter_xdg {x : Place Name × Nat} (hx : x ∈ askedAfter privileges paths) :
    x ∈ xdgAsked paths := by
  cases privileges with
  | root => simp [askedAfter] at hx
  | unprivileged => exact hx

theorem Ran.asked_password (h : Ran initial privileges paths m m' bs ps as) (hc : c ∈ ps) :
    ps = [c] ∧ c.asked = (paths.passwordFile,pgpassMode) := by
  rcases h.password with hnil | hone
  · simp [List.map_eq_nil_iff.mp hnil] at hc
  · obtain ⟨c',rfl,hc'⟩ := List.map_eq_singleton_iff.mp hone
    obtain rfl := List.mem_singleton.mp hc
    exact ⟨rfl,hc'⟩

theorem Ran.data (h : Ran initial privileges paths m m' bs ps as) (hdata : paths.dataDir ≠ []) :
    ∃ c ∈ bs ++ ps ++ as, c.path = paths.dataDir ∧ (m'.mode c.place = 0o700 ∨
      ∃ c' ∈ bs ++ ps ++ as, c'.place = c.place ∧
        (c'.path = cacheName :: paths.installDir ∨ c'.path = paths.passwordFile)) := by
  obtain ⟨pre,post,hbefore,hpost⟩ := askedBefore_data privileges hdata
  obtain ⟨bs₁,later,rfl,-,hlater⟩ := List.map_eq_append_iff.mp (h.before.trans hbefore)
  obtain ⟨c,bs₂,rfl,hc,hbs₂⟩ := List.map_eq_cons_iff.mp hlater
  obtain ⟨hpath,hmode⟩ := Prod.mk.inj hc
  refine ⟨c,by simp,hpath,or_iff_not_imp_right.mpr fun hnone => ?_⟩
  have hgives : Gives initial m m' (bs₁ ++ c :: (bs₂ ++ ps ++ as)) := by simpa using h.gives
  rw [← hmode]
  refine hgives.mode_of_later fun b hb hplace => ?_
  have hmem : b ∈ bs₁ ++ c :: bs₂ ++ ps ++ as := by
    simp only [List.mem_append,List.mem_cons] at hb ⊢
    tauto
  have hnot : ¬ (b.path = cacheName :: paths.installDir ∨ b.path = paths.passwordFile) :=
    fun hb => hnone ⟨b,hmem,hplace,hb⟩
  rw [not_or] at hnot
  rw [hmode]
  rcases List.mem_append.mp hb with hb | hb
  · rcases List.mem_append.mp hb with hb | hb
    · have hxdg := hpost b.asked (hbs₂ ▸ List.mem_map_of_mem hb)
      exact (asked_xdg hxdg).resolve_left hnot.1
    · exact absurd (Prod.mk.inj (h.asked_password hb).2).1 hnot.2
  · have hxdg := askedAfter_xdg (h.after ▸ List.mem_map_of_mem hb : b.asked ∈ _)
    exact (asked_xdg hxdg).resolve_left hnot.1

theorem Ran.no_directory (h : Ran initial privileges paths m m' bs ps as)
    (hc : c ∈ bs ++ ps ++ as) (hno : m'.state.fs.node c.place ≠ some .dir) :
    c.asked = (paths.passwordFile,pgpassMode) ∧ m'.mode c.place = pgpassMode := by
  have hps : c ∈ ps := by
    rw [List.mem_append,List.mem_append] at hc
    rcases hc with (hc | hc) | hc
    · exact absurd (h.dirs c (List.mem_append_left _ hc)) hno
    · exact hc
    · exact absurd (h.dirs c (List.mem_append_right _ hc)) hno
  obtain ⟨rfl,hasked⟩ := h.asked_password hps
  have hgives : Gives initial m m' (bs ++ c :: as) := by simpa using h.gives
  refine ⟨hasked,(hgives.mode_of_later fun b hb hplace => ?_).trans (Prod.mk.inj hasked).2⟩
  have hdir := h.dirs b (List.mem_append_right _ hb)
  exact absurd (hplace ▸ hdir) hno

/-- The modes a bootstrap gives, in their order, and what they come to. -/
structure Accounted (initial : Place Name → Nat) (privileges : ExecutionPrivileges)
    (paths : SettingsPaths) (m m' : Permissions) (cs : List Chmod) : Prop where
  gives : Gives initial m m' cs
  asked : ∃ password, (password = [] ∨ password = [(paths.passwordFile,pgpassMode)]) ∧
    cs.map Chmod.asked = askedBefore privileges paths ++ password ++ askedAfter privileges paths
  confined : ∀ c ∈ cs, c.dir <:+ c.place
  run : ∃ c ∈ cs, c.path = runName :: paths.installDir ∧ m'.mode c.place = 0o700
  /-- The cache or the password file may be in the data directory's place. -/
  data : paths.dataDir ≠ [] → ∃ c ∈ cs, c.path = paths.dataDir ∧ (m'.mode c.place = 0o700 ∨
    ∃ c' ∈ cs, c'.place = c.place ∧
      (c'.path = cacheName :: paths.installDir ∨ c'.path = paths.passwordFile))
  password : ∀ c ∈ cs, m'.state.fs.node c.place ≠ some .dir →
    c.asked = (paths.passwordFile,pgpassMode) ∧ m'.mode c.place = pgpassMode

theorem Ran.accounted (h : Ran initial privileges paths m m' bs ps as) :
    Accounted initial privileges paths m m' (bs ++ ps ++ as) where
  gives := h.gives
  asked := ⟨ps.map Chmod.asked,h.password,by
    rw [List.map_append,List.map_append,h.before,h.after]⟩
  confined := h.confined
  run := h.run
  data := h.data
  password c hc := h.no_directory hc

/-- An installation whose password file belongs to the cluster beside it. -/
def installedFiles : FileSystem where
  entries := [(srv,.dir),(ascii "install" :: srv,.dir),
    (ascii ".pgpass" :: ascii "install" :: srv,.file),(ascii "data" :: srv,.dir),
    (ascii "PG_VERSION" :: ascii "data" :: srv,.file)]
  nodup := by decide
  closed := by decide

def installed : Permissions := ⟨start installedFiles fun _ => .root,fun _ => 0o644,[]⟩

end PgEmbedSetup.Handover.Modes
