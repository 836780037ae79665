import PgEmbedSetup.Handover.Claim
import PgEmbedSetup.Handover.Directories
import PgEmbedSetup.Handover.Finish
import PgEmbedSetup.Handover.Modes

set_option autoImplicit false

/-!
What each step of a bootstrap does to the modes: which it gives, to what, and what becomes of the
ones that were there.
-/

namespace PgEmbedSetup.Handover.Modes
open Library Privileges

variable {initial : Place Name → Nat} {m m₁ m₂ m' : Permissions} {s s' : State}
  {p q d dir password : Place Name} {n : Name} {mode k : Nat} {c : Chmod}
  {cs cs₁ cs₂ as bs : List Chmod} {asked₁ asked₂ : List (Place Name × Nat)}
  {w : Surroundings} {layout : DataLayout} {paths paths' : SettingsPaths}

/-! ### The last mode that was given -/

def lastMode (cs : List Chmod) (q : Place Name) : Option Nat :=
  (cs.reverse.find? (·.place = q)).map Chmod.mode

theorem lastMode_append : lastMode (cs₁ ++ cs₂) q = (lastMode cs₂ q).or (lastMode cs₁ q) := by
  simp only [lastMode,List.reverse_append,List.find?_append]
  cases cs₂.reverse.find? (·.place = q) <;> rfl

theorem lastMode_eq_none : lastMode cs q = none ↔ ∀ c ∈ cs, c.place ≠ q := by
  simp [lastMode]

theorem lastMode_mem (h : lastMode cs q = some k) : ∃ c ∈ cs, c.place = q ∧ c.mode = k := by
  obtain ⟨c,hc,hk⟩ := Option.map_eq_some_iff.mp h
  exact ⟨c,List.mem_reverse.mp (List.mem_of_find?_eq_some hc),
    by simpa using List.find?_some hc,hk⟩

theorem lastMode_singleton : lastMode [c] c.place = some c.mode := by
  simp [lastMode]

/-- A mode stays as long as nothing else is given to the same place. -/
theorem lastMode_of_later (h : ∀ b ∈ bs, b.place = c.place → b.mode = c.mode) :
    lastMode (as ++ c :: bs) c.place = some c.mode := by
  rw [List.append_cons,lastMode_append]
  cases hb : lastMode bs c.place with
  | some k =>
    obtain ⟨b,hmem,hplace,rfl⟩ := lastMode_mem hb
    rw [h b hmem hplace]
    rfl
  | none => rw [lastMode_append,lastMode_singleton]; rfl

/-! ### What a part of the bootstrap does to the modes -/

/-- What has been made has the mode it was made with, and each place the last one it was given. -/
structure Gives (initial : Place Name → Nat) (m m' : Permissions) (cs : List Chmod) : Prop where
  calls : m'.calls = m.calls ++ cs
  made : ∀ q ∈ m.state.made, q ∈ m'.state.made
  mode : ∀ q, m'.mode q = (lastMode cs q).getD ((m.advance initial m'.state).mode q)

theorem advance_mode_of_old (h : q ∈ s.made → q ∈ m.state.made) :
    (m.advance initial s).mode q = m.mode q := by
  simp only [Permissions.advance,List.contains_iff_mem]
  split
  · rfl
  · next hold => rw [if_neg fun hnew => hold (h hnew)]

theorem Gives.advance (h : ∀ q ∈ m.state.made, q ∈ s.made) :
    Gives initial m (m.advance initial s) [] :=
  ⟨(List.append_nil _).symm,h,fun _ => rfl⟩

theorem Gives.chmod : Gives initial m (m.chmod c) [c] := by
  refine ⟨rfl,fun _ hq => hq,fun q => ?_⟩
  by_cases hq : q = c.place
  · subst hq
    rw [lastMode_singleton]
    exact Function.update_self ..
  · have hnone : lastMode [c] q = none := by
      rw [lastMode_eq_none]
      intro b hb
      rw [List.mem_singleton.mp hb]
      exact Ne.symm hq
    have hold : (m.advance initial m.state).mode q = m.mode q := advance_mode_of_old id
    rw [hnone]
    exact (Function.update_of_ne hq ..).trans hold.symm

theorem Gives.trans (h₁ : Gives initial m m₁ cs₁) (h₂ : Gives initial m₁ m₂ cs₂)
    (hold : ∀ c ∈ cs₁, c.place ∈ m₂.state.made → c.place ∈ m₁.state.made) :
    Gives initial m m₂ (cs₁ ++ cs₂) := by
  refine ⟨by rw [h₂.calls,h₁.calls,List.append_assoc],fun q hq => h₂.made q (h₁.made q hq),
    fun q => ?_⟩
  rw [h₂.mode,lastMode_append]
  cases lastMode cs₂ q with
  | some k => rfl
  | none =>
    have hq := h₁.mode q
    cases hlast : lastMode cs₁ q with
    | some k =>
      -- What was given a mode is not made any more.
      obtain ⟨c,hc,rfl,-⟩ := lastMode_mem hlast
      rw [hlast] at hq
      rw [Option.getD_none,advance_mode_of_old (hold c hc),hq]
      rfl
    | none =>
      rw [hlast] at hq
      simp only [Permissions.advance,List.contains_iff_mem,Option.getD_none,Option.or_none] at hq ⊢
      by_cases hnew : q ∈ m₁.state.made
      · rw [if_pos hnew,hq,if_pos hnew,if_pos (h₂.made q hnew)]
      · have hfresh : q ∉ m.state.made := fun hmem => hnew (h₁.made q hmem)
        rw [if_neg hnew,hq,if_neg hfresh,if_neg hfresh,if_neg hnew]

theorem Gives.mode_of_last (h : Gives initial m m' cs) (hk : lastMode cs q = some k) :
    m'.mode q = k := by
  rw [h.mode,hk]
  rfl

/-- Nothing goes, only what was missing is made, and only directories are given a mode. -/
structure Step (initial : Place Name → Nat) (m m' : Permissions) (cs : List Chmod) : Prop
    extends Gives initial m m' cs where
  old : ∀ q node, m.state.fs.node q = some node → m'.state.fs.node q = some node
  new : ∀ q ∈ m'.state.made, q ∈ m.state.made ∨ m.state.fs.node q = none
  confined : ∀ c ∈ cs, c.dir <:+ c.place
  dirs : ∀ c ∈ cs, m'.state.fs.node c.place = some .dir

theorem Step.trans (h₁ : Step initial m m₁ cs₁) (h₂ : Step initial m₁ m₂ cs₂) :
    Step initial m m₂ (cs₁ ++ cs₂) where
  toGives := by
    refine h₁.toGives.trans h₂.toGives fun c hc hmade => (h₂.new _ hmade).resolve_right ?_
    rw [h₁.dirs c hc]
    simp
  old q node hq := h₂.old q node (h₁.old q node hq)
  new q hq := by
    rcases h₂.new q hq with hq | hq
    · exact h₁.new q hq
    · cases hnode : m.state.fs.node q with
      | none => exact .inr rfl
      | some node => rw [h₁.old q node hnode] at hq; cases hq
  confined c hc := (List.mem_append.mp hc).elim (h₁.confined c) (h₂.confined c)
  dirs c hc := (List.mem_append.mp hc).elim (fun hc => h₂.old _ _ (h₁.dirs c hc)) (h₂.dirs c)

theorem Step.of_does {wanted handed : Place Name → Prop} (h : Does m.state s wanted handed) :
    Step initial m (m.advance initial s) [] where
  toGives := .advance fun q hq => (h.made q).mpr (.inl hq)
  old := h.old
  new q hq := ((h.made q).mp hq).imp_right And.right
  confined c hc := by simp at hc
  dirs c hc := by simp at hc

theorem Step.refl (initial : Place Name → Nat) (m : Permissions) : Step initial m m [] where
  toGives := ⟨(List.append_nil _).symm,fun _ hq => hq,
    fun _ => (advance_mode_of_old fun hq => hq).symm⟩
  old _ _ hq := hq
  new _ hq := .inl hq
  confined c hc := by simp at hc
  dirs c hc := by simp at hc

/-! ### The calls -/

def Chmod.asked (c : Chmod) : Place Name × Nat := (c.path,c.mode)

/-- The root has no name by which it could be given a mode. -/
def asked : Place Name → Nat → List (Place Name × Nat)
  | [],_ => []
  | n :: dir,mode => [(n :: dir,mode)]

def Asked (initial : Place Name → Nat) (m m' : Permissions) (asked : List (Place Name × Nat)) :
    Prop :=
  ∃ cs, Step initial m m' cs ∧ cs.map Chmod.asked = asked

theorem Asked.trans (h₁ : Asked initial m m₁ asked₁) (h₂ : Asked initial m₁ m₂ asked₂) :
    Asked initial m m₂ (asked₁ ++ asked₂) := by
  obtain ⟨cs₁,hs₁,rfl⟩ := h₁
  obtain ⟨cs₂,hs₂,rfl⟩ := h₂
  exact ⟨cs₁ ++ cs₂,hs₁.trans hs₂,List.map_append⟩

theorem Asked.refl : Asked initial m m [] := ⟨[],.refl initial m,rfl⟩

theorem Asked.of_does {wanted handed : Place Name → Prop} (h : Does m.state s wanted handed) :
    Asked initial m (m.advance initial s) [] := ⟨[],.of_does h,rfl⟩

/-- A name that is found from a handle is where the whole path leads, below the handle. -/
theorem beneath_ok (h : State.beneath s d n = .ok q) (hd : s.fs.locate dir = .ok d) :
    d <:+ q ∧ Settled s.fs q ∧ ∀ q', s.fs.locate (n :: dir) = .ok q' → q' = q := by
  rw [State.beneath] at h
  split at h
  · next hdir =>
    rw [Layout.resolve,if_neg Bool.false_ne_true] at h
    split at h
    · next x hx =>
      obtain rfl := Except.ok.inj h
      have hroot : (s.fs.layout.under d hdir).kind [] = some .dir := hdir
      have hstop := walk_stop rfl hroot hx
      refine ⟨List.suffix_append x d,settled_of_kind hstop,fun q' hq' => ?_⟩
      rw [locate_eq_ok] at hd hq'
      rw [namesTo_cons] at hq'
      exact walk_under_agrees hq' hd hx
    · cases h
  · cases h

theorem setPermissions_ok (h : setPermissions m mode (n :: dir) = .ok m') :
    ∃ d q, m.state.openDir dir = .ok d ∧ State.beneath m.state d n = .ok q ∧
      m' = m.chmod ⟨n :: dir,d,q,mode⟩ := by
  rw [setPermissions] at h
  split at h
  · cases h
  · next d hd =>
    split at h
    · cases h
    · next q hq => exact ⟨d,q,hd,hq,(Except.ok.inj h).symm⟩

theorem setPermissions_asked (hloc : m.state.fs.locate p = .ok q)
    (hq : m.state.fs.node q = some .dir) (h : setPermissions m mode p = .ok m') :
    m'.state = m.state ∧ Asked initial m m' (asked p mode) := by
  cases p with
  | nil =>
    obtain rfl : m = m' := Except.ok.inj h
    exact ⟨rfl,.refl⟩
  | cons n dir =>
    obtain ⟨d,q',hd,hbeneath,rfl⟩ := setPermissions_ok h
    obtain ⟨hconfined,-,hagrees⟩ := beneath_ok hbeneath (openDir_ok.mp hd).1
    obtain rfl := hagrees q hloc
    refine ⟨rfl,_,⟨.chmod,fun _ _ hr => hr,fun _ hr => .inl hr,?_,?_⟩,rfl⟩
    · intro c hc
      rw [List.mem_singleton.mp hc]
      exact hconfined
    · intro c hc
      rw [List.mem_singleton.mp hc]
      exact hq

theorem lift_ok {r : Except Failure State} (h : m.lift initial r = .ok m') :
    ∃ s, r = .ok s ∧ m' = m.advance initial s := by
  cases r with
  | error e => cases h
  | ok s => exact ⟨s,rfl,(Except.ok.inj h).symm⟩

/-- A directory is made sure of, and then given its mode. -/
theorem made_asked {r : Except Failure State}
    (hr : ∀ s, r = .ok s → ∃ q wanted handed, s.fs.locate p = .ok q ∧
      s.fs.node q = some .dir ∧ Does m.state s wanted handed)
    (hlift : m.lift initial r = .ok m₁) (hset : setPermissions m₁ mode p = .ok m') :
    r = .ok m'.state ∧ Asked initial m m' (asked p mode) := by
  obtain ⟨s,rfl,rfl⟩ := lift_ok hlift
  obtain ⟨q,wanted,handed,hloc,hdir,hdoes⟩ := hr s rfl
  have hset' : m'.state = s ∧ Asked initial (m.advance initial s) m' (asked p mode) :=
    setPermissions_asked hloc hdir hset
  exact ⟨by rw [hset'.1],(Asked.of_does hdoes).trans hset'.2⟩

theorem ensureDirWithMode_asked (h : ensureDirWithMode initial m p mode = .ok m') :
    Handover.ensureDirExists m.state p = .ok m'.state ∧
      Asked initial m m' (asked p mode) := by
  rw [ensureDirWithMode] at h
  obtain ⟨m₁,hmake,hset⟩ := except_bind_ok.mp h
  refine made_asked (fun s hs => ?_) hmake hset
  obtain ⟨q,hl⟩ := ensureDirExists_leads hs
  exact ⟨q,_,_,hl.locate,hl.dir,hl.does⟩

theorem ensureDirForUser_asked (h : ensureDirForUser initial m p mode = .ok m') :
    Handover.ensureDirForUser m.state p = .ok m'.state ∧
      Asked initial m m' (asked p mode) := by
  rw [ensureDirForUser] at h
  obtain ⟨m₁,hmake,hset⟩ := except_bind_ok.mp h
  refine made_asked (fun s hs => ?_) hmake hset
  obtain ⟨q,hq⟩ := ensureDirForUser_ok hs
  exact ⟨q,_,_,hq.locate,hq.dir,hq.does⟩

theorem ensureDirExists_asked (h : ensureDirExists initial m p = .ok m') :
    Asked initial m m' [] := by
  obtain ⟨s,hs,rfl⟩ := lift_ok h
  obtain ⟨q,hl⟩ := ensureDirExists_leads hs
  exact .of_does hl.does

/-! ### The parents and the XDG directories -/

def parentAsked (derived : Bool) (p : Place Name) : List (Place Name × Nat) :=
  if derived then asked p.tail 0o755 else []

def xdgAsked (paths : SettingsPaths) : List (Place Name × Nat) :=
  [(cacheName :: paths.installDir,0o755),(runName :: paths.installDir,0o700)]

theorem ensureParentForUser_asked {b : Bool}
    (h : (if b = true then ensureParentForUser initial m p else .ok m) = .ok m') :
    (if b = true then Handover.ensureParentForUser m.state p else .ok m.state) = .ok m'.state ∧
      Asked initial m m' (parentAsked b p) := by
  cases b with
  | false =>
    obtain rfl : m = m' := Except.ok.inj h
    exact ⟨rfl,.refl⟩
  | true =>
    cases p with
    | nil =>
      obtain rfl : m = m' := Except.ok.inj h
      exact ⟨rfl,.refl⟩
    | cons n parent => exact ensureDirForUser_asked h

theorem ensureParentExists_asked {b : Bool}
    (h : (if b = true then ensureParentExists initial m p else .ok m) = .ok m') :
    Asked initial m m' [] := by
  cases b with
  | false =>
    obtain rfl : m = m' := Except.ok.inj h
    exact .refl
  | true =>
    cases p with
    | nil =>
      obtain rfl : m = m' := Except.ok.inj h
      exact .refl
    | cons n parent => exact ensureDirExists_asked h

theorem prepareXdgDirs_asked {xdg : XdgDirs}
    (h : prepareXdgDirs initial m paths.installDir = .ok (xdg,m')) :
    Handover.prepareXdgDirs m.state paths.installDir = .ok (xdg,m'.state) ∧
      xdg = ⟨cacheName :: paths.installDir,runName :: paths.installDir⟩ ∧
      Asked initial m m' (xdgAsked paths) := by
  rw [prepareXdgDirs] at h
  obtain ⟨m₁,hcache,h⟩ := except_bind_ok.mp h
  obtain ⟨m₂,hrun,h⟩ := except_bind_ok.mp h
  obtain ⟨rfl,rfl⟩ := Prod.mk.inj (Except.ok.inj h)
  obtain ⟨hcache,hasked₁⟩ := ensureDirWithMode_asked hcache
  obtain ⟨hrun,hasked₂⟩ := ensureDirWithMode_asked hrun
  refine ⟨?_,rfl,hasked₁.trans hasked₂⟩
  exact except_bind_ok.mpr ⟨_,hcache,except_bind_ok.mpr ⟨_,hrun,rfl⟩⟩

theorem ensureXdgDirsOwnedByUser_asked
    (h : ensureXdgDirsOwnedByUser initial m
      ⟨cacheName :: paths.installDir,runName :: paths.installDir⟩ = .ok m') :
    Handover.ensureXdgDirsOwnedByUser m.state
        ⟨cacheName :: paths.installDir,runName :: paths.installDir⟩ = .ok m'.state ∧
      Asked initial m m' (xdgAsked paths) := by
  rw [ensureXdgDirsOwnedByUser] at h
  obtain ⟨m₁,hcache,hrun⟩ := except_bind_ok.mp h
  obtain ⟨hcache,hasked₁⟩ := ensureDirForUser_asked hcache
  obtain ⟨hrun,hasked₂⟩ := ensureDirForUser_asked hrun
  exact ⟨except_bind_ok.mpr ⟨_,hcache,hrun⟩,hasked₁.trans hasked₂⟩

/-! ### The claim of a slot -/

theorem openCreate_made (h : s.openCreate p = .ok s') (hq : q ∈ s.made) :
    q ∈ s'.made := by
  rw [State.openCreate] at h
  split at h
  · cases h
  · cases h
  · split at h
    · exact Except.ok.inj h ▸ hq
    · cases h
    · cases h
    · rw [(createAt_ok h).2.2.2.2]
      exact List.mem_cons_of_mem _ hq

theorem claimSlot_made (h : claimSlot w p s = .ok s') (hq : q ∈ s.made) :
    q ∈ s'.made := by
  rw [claimSlot] at h
  obtain ⟨s₁,hmake,h⟩ := except_bind_ok.mp h
  obtain ⟨s₂,hopen,h⟩ := except_bind_ok.mp h
  obtain ⟨listed,-,h⟩ := except_bind_ok.mp h
  obtain ⟨d,-,hat⟩ := createNew_ok (mapError_ok h)
  obtain ⟨D,hleads,-⟩ := createDirAll_leads (mapError_ok hmake)
  have hmade := openCreate_made (mapError_ok hopen) ((hleads.does.made q).mpr (.inl hq))
  rw [(createAt_ok hat).2.2.2.2]
  exact List.mem_cons_of_mem _ hmade

theorem claimDerivedSlot_gives {hasSlot : Bool}
    (h : claimDerivedSlot initial w layout paths m = .ok (hasSlot,paths',m')) :
    Handover.claimDerivedSlot w layout paths m.state = .ok (hasSlot,paths',m'.state) ∧
      Gives initial m m' [] := by
  rw [claimDerivedSlot] at h
  split at h
  · next hasSlot paths₁ s hs =>
    obtain ⟨rfl,hpair⟩ := Prod.mk.inj (Except.ok.inj h)
    obtain ⟨rfl,rfl⟩ := Prod.mk.inj hpair
    refine ⟨hs,.advance fun q hq => ?_⟩
    rw [Handover.claimDerivedSlot] at hs
    split at hs
    · obtain ⟨-,hs⟩ := Prod.mk.inj (Except.ok.inj hs)
      obtain ⟨-,rfl⟩ := Prod.mk.inj hs
      exact hq
    · obtain ⟨s₁,hclaim,hs⟩ := except_bind_ok.mp hs
      obtain ⟨-,hs⟩ := Prod.mk.inj (Except.ok.inj hs)
      obtain ⟨-,rfl⟩ := Prod.mk.inj hs
      exact claimSlot_made hclaim hq
  · cases h

/-! ### The password file -/

/-- At most the password file is given a mode, and the files stay as they are. -/
structure Password (initial : Place Name → Nat) (m m' : Permissions) (password : Place Name)
    (ps : List Chmod) : Prop where
  gives : Gives initial m m' ps
  files : m'.state.fs = m.state.fs
  made : ∀ q ∈ m'.state.made, q ∈ m.state.made
  asked : ps.map Chmod.asked = [] ∨ ps.map Chmod.asked = [(password,pgpassMode)]
  confined : ∀ c ∈ ps, c.dir <:+ c.place
  there : ∀ c ∈ ps, m.state.fs.node c.place ≠ none

theorem Password.refl (initial : Place Name → Nat) (m : Permissions) :
    Password initial m m password [] where
  gives := (Step.refl initial m).toGives
  files := rfl
  made _ hq := hq
  asked := .inl rfl
  confined c hc := by simp at hc
  there c hc := by simp at hc

theorem openedPgpass_ok (h : openedPgpass s password = some (d,q)) :
    d <:+ q ∧ s.fs.node q = some .file := by
  cases password with
  | nil => cases h
  | cons n dir =>
    rw [openedPgpass] at h
    split at h
    · cases h
    · split at h
      · next hfile =>
        obtain ⟨rfl,rfl⟩ := Prod.mk.inj (Option.some.inj h)
        exact ⟨List.suffix_cons n _,hfile⟩
      · cases h

theorem ensurePgpassForUser_password (h : ensurePgpassForUser initial m password = .ok m') :
    Handover.ensurePgpassForUser m.state password = .ok m'.state ∧
      ∃ ps, Password initial m m' password ps ∧
        ∀ c ∈ ps, m.state.fs.node c.place = some .file := by
  rw [ensurePgpassForUser] at h
  obtain ⟨m₁,hlift,h⟩ := except_bind_ok.mp h
  obtain ⟨s,hs,rfl⟩ := lift_ok hlift
  obtain ⟨hfs,given,hdoes,-⟩ := ensurePgpassForUser_ok hs
  have hmade : ∀ q ∈ s.made, q ∈ m.state.made := by
    intro q hq
    exact ((hdoes.made q).mp hq).resolve_right fun hn => hn.1
  have hstep : Gives initial m (m.advance initial s) [] :=
    .advance fun q hq => (hdoes.made q).mpr (.inl hq)
  split at h
  · obtain rfl := Except.ok.inj h
    refine ⟨hs,[],⟨hstep,hfs,hmade,.inl rfl,?_,?_⟩,?_⟩ <;> simp
  · next d q hopened =>
    obtain ⟨hconfined,hfile⟩ := openedPgpass_ok hopened
    obtain rfl := Except.ok.inj h
    have hchmod : Gives initial (m.advance initial s) _ [⟨password,d,q,pgpassMode⟩] := .chmod
    have hgives := hstep.trans hchmod (by simp)
    refine ⟨hs,_,⟨hgives,hfs,hmade,.inr rfl,?_,?_⟩,?_⟩
    all_goals
      intro c hc
      rw [List.mem_singleton.mp hc]
    · exact hconfined
    · rw [hfile]
      simp
    · exact hfile

theorem ensurePgpassPermissions_password
    (h : ensurePgpassPermissions m password = .ok m') :
    ∃ ps, Password initial m m' password ps := by
  rw [ensurePgpassPermissions] at h
  split at h
  · next m₁ hset =>
    obtain rfl := Except.ok.inj h
    cases password with
    | nil =>
      obtain rfl : m = m₁ := Except.ok.inj hset
      exact ⟨[],.refl initial m⟩
    | cons n dir =>
      obtain ⟨d,q,hd,hbeneath,rfl⟩ := setPermissions_ok hset
      obtain ⟨hconfined,hsettled,-⟩ := beneath_ok hbeneath (openDir_ok.mp hd).1
      refine ⟨_,⟨.chmod,rfl,fun _ hq => hq,.inr rfl,?_,?_⟩⟩
      all_goals
        intro c hc
        rw [List.mem_singleton.mp hc]
      · exact hconfined
      · exact settled_exists hsettled
  · split at h
    · obtain rfl : m = m' := Except.ok.inj h
      exact ⟨[],.refl initial m⟩
    · cases h

end PgEmbedSetup.Handover.Modes
