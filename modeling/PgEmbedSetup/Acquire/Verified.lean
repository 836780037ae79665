import PgEmbedSetup.Acquire.Exclusion

set_option autoImplicit false

/-! What processes that acquire archives at once make of the cache, and what each is told. -/

namespace PgEmbedSetup.Acquire
open Library
open Extensions (ManifestArtifact CacheEntry Cache setEntry_self setEntry_of_ne)

variable {δ : Type} {sha : Bytes → δ} {w w' : World δ} {pid : Nat} {artifact : ManifestArtifact δ}

/-- A process that lives stands before this call. -/
def Waits (s : State δ) (op : Op δ) : Prop :=
  (∃ i : Nat, (s.threads[i]?).bind Process.nextCall = some op) ∧ s.world.dead op.pid = false

variable (sha) in
/-- A process moves a verified download over the file. If the file's own bytes are good, the
process could not look at them. -/
def Replaces (w w' : World δ) (digest : δ) (file : Text) (bytes : Bytes) (pid : Nat)
    (artifact : ManifestArtifact δ) : Prop :=
  artifact.sha256 = digest ∧ artifact.file = file ∧ (w'.seen pid).placed = true ∧
    (∃ new, w'.cache.entry digest file = some (.file new) ∧ sha new = digest) ∧
    (sha bytes = digest → (w.seen pid).lookFailed = true)

theorem looked_cache {entry : Option CacheEntry} {r : Metadata}
    (h : looked w pid entry r = some w') : w'.cache = w.cache := by
  cases r with
  | failed =>
    cases h
    rfl
  | notFound =>
    simp only [looked] at h
    split at h
    · cases h
      rfl
    · cases h
  | found kind =>
    simp only [looked] at h
    split at h
    · cases h
      rfl
    · cases h

section Step
variable [DecidableEq δ]

theorem ofFile_cache {r : Option δ} (h : act sha w pid artifact .ofFile r = some w') :
    w'.cache = w.cache := by
  cases r with
  | none =>
    cases h
    rfl
  | some actual =>
    simp only [act] at h
    split at h
    · split at h
      · cases h
        rfl
      · cases h
    · cases h

theorem lock_entry {ok : Bool} (h : act sha w pid artifact .lock ok = some w') :
    w'.cache.entry = w.cache.entry := by
  cases ok with
  | false =>
    cases h
    rfl
  | true =>
    simp only [act] at h
    split at h
    · cases h
      rfl
    · cases h

section Kept
variable {digest : δ} {file : Text} {bytes : Bytes}
  (hentry : w.cache.entry digest file = some (.file bytes))
include hentry

theorem kept_elsewhere {d : δ} {name : Text} (found : Option CacheEntry)
    (hne : (d,name) ≠ (digest,file)) :
    (w.setEntry d name found).cache.entry digest file = some (.file bytes) := by
  refine (setEntry_of_ne _ _ ?_).trans hentry
  rintro ⟨rfl,rfl⟩
  exact hne rfl

/-- What is removed is no regular file. -/
theorem kept_removed {h : Hold} (hw : h.Shown w pid artifact) (htemp : h.temp = none)
    (hfile : ∀ bytes, h.entry ≠ some (.file bytes)) :
    (w.setEntry artifact.sha256 artifact.file none).cache.entry digest file =
      some (.file bytes) := by
  refine kept_elsewhere hentry none ?_
  rintro ⟨⟩
  exact hfile bytes ((hw.entry_of_no_temp htemp).symm.trans hentry)

theorem kept_newTemp {r : Option Text} (h : act sha w pid artifact .newTemp r = some w') :
    w'.cache.entry digest file = some (.file bytes) := by
  cases r with
  | none =>
    cases h
    exact hentry
  | some name =>
    simp only [act] at h
    split at h
    · rename_i hfree
      cases h
      refine kept_elsewhere hentry _ ?_
      rintro ⟨⟩
      rw [hfree] at hentry
      cases hentry
    · cases h

variable (htemp : w.temps pid ≠ some (digest,file))
include htemp

theorem kept_receive {r : Received} (h : act sha w pid artifact .receive r = some w') :
    w'.cache.entry digest file = some (.file bytes) := by
  cases r with
  | byte b =>
    simp only [act] at h
    split at h
    · cases h
    · rename_i d name hname
      rw [hname] at htemp
      split at h
      · cases h
        exact kept_elsewhere hentry _ (fun hsame => htemp (congrArg some hsame))
      · cases h
        exact hentry
  | eof =>
    cases h
    exact hentry
  | failed =>
    cases h
    exact hentry

theorem kept_dropTemp {removed : Bool} (h : act sha w pid artifact .dropTemp removed = some w') :
    w'.cache.entry digest file = some (.file bytes) := by
  simp only [act] at h
  split at h
  · cases h
  · rename_i d name hname
    rw [hname] at htemp
    cases removed with
    | false =>
      cases h
      exact hentry
    | true =>
      cases h
      exact kept_elsewhere hentry _ (fun hsame => htemp (congrArg some hsame))

theorem persist_replaces {h : Hold} (hw : h.Shown w pid artifact)
    (hunusable : h.Unusable sha artifact.sha256) {name : Text} {written : Bytes}
    (hwritten : h.temp = some (name,written)) (hsha : sha written = artifact.sha256) {ok : Bool}
    (hact : act sha w pid artifact .persist ok = some w') :
    w'.cache.entry digest file = some (.file bytes) ∨
      ok = true ∧ Replaces sha w w' digest file bytes pid artifact := by
  cases ok with
  | false =>
    cases hact
    exact .inl hentry
  | true =>
    have htemps := hw.temps_some hwritten
    rw [htemps] at htemp
    simp only [act,htemps,hw.written name written hwritten] at hact
    split at hact
    · cases hact
    · rename_i written' heq _
      cases heq
      cases hact
      have hrest := kept_elsewhere hentry none (fun hsame => htemp (congrArg some hsame))
      by_cases hsame : (artifact.sha256,artifact.file) = (digest,file)
      · obtain ⟨rfl,rfl⟩ := Prod.mk.inj hsame
        refine .inr ⟨rfl,rfl,rfl,?_,⟨written,setEntry_self _ _ _ _,hsha⟩,fun hgood => ?_⟩
        · simp [World.note]
        · rw [hw.seen]
          exact hunusable bytes ((hw.entry (by rw [htemps]; exact htemp)).symm.trans hentry) hgood
      · exact .inl (kept_elsewhere (w := w.setEntry artifact.sha256 name none) hrest _ hsame)
    · cases hact

/-- A regular file stays as it is until a verified download is moved over it. -/
theorem entry_kept {stage : Stage} {c : Call δ} {r : c.Reply}
    (hfits : Ghost.Fits w ⟨pid,artifact,stage⟩) (hallows : stage.Allows sha artifact.sha256 c)
    (hact : act sha w pid artifact c r = some w') :
    w'.cache.entry digest file = some (.file bytes) ∨
      (⟨c,r⟩ : Sigma Call.Reply) = ⟨.persist,true⟩ ∧
        Replaces sha w w' digest file bytes pid artifact := by
  cases c with
  | createDirAll =>
    cases r with
    | false =>
      cases hact
      exact .inl hentry
    | true =>
      cases hact
      exact .inl hentry
  | lock =>
    rw [lock_entry hact]
    exact .inl hentry
  | symlinkMetadata =>
    rw [looked_cache hact]
    exact .inl hentry
  | ofFile =>
    rw [ofFile_cache hact]
    exact .inl hentry
  | newTemp => exact .inl (kept_newTemp hentry hact)
  | receive => exact .inl (kept_receive hentry htemp hact)
  | dropTemp => exact .inl (kept_dropTemp hentry htemp hact)
  | request | returnOk origin | returnErr e =>
    cases hact
    exact .inl hentry
  | persist =>
    cases stage with
    | inside h =>
      obtain ⟨hunusable,name,written,hwritten,hsha⟩ := hallows
      refine (persist_replaces hentry htemp hfits hunusable hwritten hsha hact).imp_right ?_
      rintro ⟨rfl,hreplaces⟩
      exact ⟨rfl,hreplaces⟩
    | _ => exact hallows.elim
  | removeDirAll =>
    cases stage with
    | inside h =>
      left
      rcases removeDirAll_cases hact with ⟨rfl,rfl⟩ | ⟨rfl,rfl⟩
      · exact hentry
      · exact kept_removed hentry hfits hallows.1 hallows.2
    | _ => exact hallows.elim
  | removeFile =>
    cases stage with
    | inside h =>
      left
      rcases removeFile_cases hact with ⟨rfl,rfl⟩ | ⟨rfl,rfl⟩
      · exact hentry
      · exact kept_removed hentry hfits hallows.1 hallows.2
    | _ => exact hallows.elim

end Kept

/-! ### Who has moved a download into place -/

omit [DecidableEq δ] in
theorem placed_note {q : Nat} {f : Seen → Seen}
    (hf : ∀ seen, seen.placed = true → (f seen).placed = true) (h : (w.seen q).placed = true) :
    ((w.note pid f).seen q).placed = true := by
  by_cases hq : q = pid
  · subst hq
    simpa [World.note] using hf _ h
  · simpa [World.note,hq] using h

omit [DecidableEq δ] in
theorem placed_looked {q : Nat} {entry : Option CacheEntry} {r : Metadata}
    (hact : looked w pid entry r = some w') (h : (w.seen q).placed = true) :
    (w'.seen q).placed = true := by
  revert hact
  fun_cases looked w pid entry r <;> intro hact
  case case1 =>
    cases hact
    exact placed_note (fun _ hs => hs) h
  all_goals
    cases hact
    try exact h

/-- Nothing takes back that a process has moved its download into place. -/
theorem placed_act {q : Nat} {c : Call δ} {r : c.Reply}
    (hact : act sha w pid artifact c r = some w') (h : (w.seen q).placed = true) :
    (w'.seen q).placed = true := by
  revert hact
  fun_cases act sha w pid artifact c r <;> intro hact
  case case6 => exact placed_looked hact h
  case case3 =>
    cases hact
    exact placed_note (fun _ hs => hs) h
  case case7 =>
    cases hact
    exact placed_note (fun _ hs => hs) h
  case case29 =>
    cases hact
    exact placed_note (fun _ _ => rfl) h
  case case33 removed _ _ _ =>
    cases hact
    cases removed <;> exact h
  all_goals
    cases hact
    try exact h

/-- A rename that succeeds is noted. -/
theorem placed_persist (hact : act sha w pid artifact .persist true = some w') :
    (w'.seen pid).placed = true := by
  simp only [act] at hact
  split at hact
  · cases hact
  · split at hact
    · cases hact
    · cases hact
      simp [World.note]
    · cases hact

/-! ### Runs -/

section Runs
variable {cache : Cache δ} {artifacts : List (ManifestArtifact δ)} {s t : State δ}

theorem step_advance_act {i : Nat} {op : Op δ} {r : Reply op}
    (h : (acquisitions sha cache artifacts).step s (.advance i op r) t) :
    s.world.dead op.pid = false ∧ act sha s.world op.pid op.artifact op.call r = some t.world ∧
      (s.threads[i]?).bind Process.nextCall = some op := by
  have hstep := h.2
  change (machine sha).step s (.advance i op r) = some t at hstep
  simp only [Machine.step] at hstep
  split at hstep
  · rename_i p w hp hw
    cases hstep
    obtain ⟨q,hq,hanswered⟩ := Option.bind_eq_some_iff.mp hp
    obtain ⟨next,rfl,rfl⟩ := Process.answered_some hanswered
    change answer sha s.world op r = some w at hw
    simp only [answer] at hw
    split at hw
    · cases hw
    · rename_i hdead
      exact ⟨by simpa using hdead,hw,by rw [hq]; rfl⟩
  · cases hstep

theorem step_env_world {k : Killed}
    (h : (acquisitions sha cache artifacts).step s (.env k) t) : t.world = s.world.kill k := by
  have hstep := h.2
  change (machine sha).step s (.env k) = some t at hstep
  simp only [Machine.step,machine,Option.map_some,Option.some.injEq] at hstep
  rw [← hstep]

/-- The processes that have moved a download into place are known as such. -/
theorem placed_of_persisted {start : State δ} {as : List (Action δ)}
    (hrun : (acquisitions sha cache artifacts).Run start as s) {i p : Nat}
    {a : ManifestArtifact δ} (hmem : .advance i ⟨p,a,.persist⟩ true ∈ as) :
    (s.world.seen p).placed = true := by
  induction hrun with
  | nil => cases hmem
  | @snoc _ _ _ b _ hstep ih =>
    rcases List.mem_append.mp hmem with hbefore | hlast
    · have hplaced := ih hbefore
      cases b with
      | advance j op r => exact placed_act (step_advance_act hstep).2.1 hplaced
      | abort j => exact hstep.1.elim
      | env k =>
        rw [step_env_world hstep]
        exact hplaced
    · obtain rfl := List.mem_singleton.mp hlast
      exact placed_persist (step_advance_act hstep).2.1

/-- The knowledge of the process that stands before a call. -/
theorem waits_fits (h : (acquisitions sha cache artifacts).Reachable s) {op : Op δ}
    (hop : Waits s op) : ∃ stage, Ghost.Fits s.world ⟨op.pid,op.artifact,stage⟩ ∧
      stage.Allows sha op.artifact.sha256 op.call := by
  obtain ⟨ghosts,hsafe,ht⟩ := acquisitions_tracked h
  obtain ⟨⟨i,hcall⟩,hdead⟩ := hop
  obtain ⟨⟨p,a,stage⟩,hg,hpid,hartifact,hallows⟩ := nextCall_ok hsafe hcall
  have hown : p = i := ht.own i _ hg
  refine ⟨stage,?_,?_⟩
  · rw [hpid,hartifact]
    exact ht.fits i _ hg (by rw [← hown,← hdead,hpid])
  · rw [hartifact]
    exact hallows

theorem step_entry_kept (h : (acquisitions sha cache artifacts).Reachable s) {action : Action δ}
    (hstep : (acquisitions sha cache artifacts).step s action t) {digest : δ} {file : Text}
    {bytes : Bytes} (hentry : s.world.cache.entry digest file = some (.file bytes))
    (htemp : ∀ q, s.world.temps q ≠ some (digest,file)) :
    t.world.cache.entry digest file = some (.file bytes) ∨
      ∃ i p a, action = .advance i ⟨p,a,.persist⟩ true ∧
        Replaces sha s.world t.world digest file bytes p a := by
  cases action with
  | advance i op r =>
    obtain ⟨p,a,c⟩ := op
    obtain ⟨hdead,hact,hcall⟩ := step_advance_act hstep
    obtain ⟨stage,hfits,hallows⟩ := waits_fits h ⟨⟨i,hcall⟩,hdead⟩
    refine (entry_kept hentry (htemp p) hfits hallows hact).imp_right ?_
    rintro ⟨hpersist,hreplaces⟩
    cases hpersist
    exact ⟨i,p,a,rfl,hreplaces⟩
  | abort i => exact hstep.1.elim
  | env k =>
    rw [step_env_world hstep]
    exact .inl hentry

/-- A process that reports an error has moved nothing into place, and what was a regular file
when it got the lock still is that file. -/
theorem error_unchanged (h : (acquisitions sha cache artifacts).Reachable s) {p : Nat}
    {a : ManifestArtifact δ} {e : Extensions.ExtensionError δ} (hop : Waits s ⟨p,a,.returnErr e⟩) :
    (s.world.seen p).placed = false ∧ ∀ bytes, (s.world.seen p).before = some (.file bytes) →
      s.world.cache.entry a.sha256 a.file = some (.file bytes) := by
  obtain ⟨stage,hfits,hallows⟩ := waits_fits h hop
  cases stage with
  | outside =>
    have hseen : s.world.seen p = ⟨none,false,false⟩ := hfits.1
    rw [hseen]
    exact ⟨rfl,fun bytes hbefore => by cases hbefore⟩
  | inside k =>
    have hw : k.Shown s.world p a := hfits
    rw [hw.seen,hw.entry_of_no_temp hallows]
    exact ⟨rfl,k.kept⟩
  | failing before =>
    obtain ⟨-,hbefore,hplaced,hkept⟩ := hfits
    exact ⟨hplaced,fun bytes hfile => hkept bytes (hbefore.symm.trans hfile)⟩
  | placed bytes => exact hallows.elim
  | left => exact hallows.elim

end Runs

/-- Whatever the cache held and whatever fails or is killed: a success hands out a verified
file; an error has changed no regular file; and only what cannot be looked at or is not good
is downloaded again or replaced. -/
theorem acquisitions_verified (sha : Bytes → δ) (cache : Cache δ)
    (artifacts : List (ManifestArtifact δ)) {as : List (Action δ)} {s : State δ}
    (hrun : (acquisitions sha cache artifacts).Run (begin sha cache artifacts) as s) :
    (∀ p a origin, Waits s ⟨p,a,.returnOk origin⟩ →
      ∃ bytes, s.world.cache.entry a.sha256 a.file = some (.file bytes) ∧
        sha bytes = a.sha256) ∧
    (∀ p a e, Waits s ⟨p,a,.returnErr e⟩ →
      (∀ i artifact, .advance i ⟨p,artifact,.persist⟩ true ∉ as) ∧
      ∀ bytes, (s.world.seen p).before = some (.file bytes) →
        s.world.cache.entry a.sha256 a.file = some (.file bytes)) ∧
    (∀ p a, Waits s ⟨p,a,.request⟩ → s.world.temps p ≠ some (a.sha256,a.file) →
      ∀ bytes, s.world.cache.entry a.sha256 a.file = some (.file bytes) →
        sha bytes = a.sha256 → (s.world.seen p).lookFailed = true) ∧
    ∀ action t, (acquisitions sha cache artifacts).step s action t → ∀ digest file bytes,
      s.world.cache.entry digest file = some (.file bytes) →
      (∀ q, s.world.temps q ≠ some (digest,file)) →
        t.world.cache.entry digest file = some (.file bytes) ∨
        ∃ i p a, action = .advance i ⟨p,a,.persist⟩ true ∧
          Replaces sha s.world t.world digest file bytes p a := by
  have hreach : (acquisitions sha cache artifacts).Reachable s := ⟨_,as,rfl,hrun⟩
  refine ⟨fun p a origin hop => ?_,fun p a e hop => ?_,fun p a hop htemp bytes hentry hgood => ?_,
    fun action t hstep digest file bytes => step_entry_kept hreach hstep⟩
  · obtain ⟨stage,hfits,hallows⟩ := waits_fits hreach hop
    cases stage with
    | inside h =>
      have hw : h.Shown s.world p a := hfits
      obtain ⟨htemp,bytes,hentry,hgood⟩ := hallows
      exact ⟨bytes,(hw.entry_of_no_temp htemp).trans hentry,hgood⟩
    | placed bytes => exact ⟨bytes,hfits.2,hallows⟩
    | _ => exact hallows.elim
  · obtain ⟨hplaced,hkept⟩ := error_unchanged hreach hop
    refine ⟨fun i artifact hmem => ?_,hkept⟩
    rw [placed_of_persisted hrun hmem] at hplaced
    cases hplaced
  · obtain ⟨stage,hfits,hallows⟩ := waits_fits hreach hop
    cases stage with
    | inside h =>
      have hw : h.Shown s.world p a := hfits
      rw [hw.seen]
      exact hallows.2 bytes ((hw.entry htemp).symm.trans hentry) hgood
    | _ => exact hallows.elim

/-! ### A run -/

def uncut : Action δ → Bool
  | .abort _ => false
  | _ => true

theorem acquisitions_run {cache : Cache δ} {artifacts : List (ManifestArtifact δ)}
    (as : List (Action δ)) (wanted : State δ → Bool)
    (h : ((machine sha).run (fun _ a => uncut a) (begin sha cache artifacts) as).any wanted =
      true) :
    ∃ as s, (acquisitions sha cache artifacts).Run (begin sha cache artifacts) as s ∧
      wanted s = true := by
  have hreach : ∃ s, (acquisitions sha cache artifacts).Reachable s ∧ wanted s = true := by
    refine (machine sha).run_reaches (fun _ a => uncut a) (fun s a hmeets => ?_) ?_ as wanted h
    · cases a with
      | abort i => cases hmeets
      | _ => trivial
    · rfl
  obtain ⟨s,⟨_,bs,rfl,hrun⟩,hwanted⟩ := hreach
  exact ⟨bs,s,hrun,hwanted⟩

end Step

def archive : ManifestArtifact Nat where
  postgresql := "17.4.0".toList
  target := "x86_64-unknown-linux-gnu".toList
  file := "pgvector.tar.gz".toList
  url := "https://host/pgvector.tar.gz".toList
  sha256 := 1
  size := 1
  files := []

/-- A directory stands where the archive belongs. -/
def occupied : Cache Nat where
  entryDir _ := true
  lockFile _ := false
  entry digest file := if digest = 1 ∧ file = archive.file then some .dir else none

/-- The first process is killed in its download, the second puts its own in place and the third
finds it there. -/
def threeProcesses : List (Action Nat) :=
  [.advance 0 ⟨0,archive,.createDirAll⟩ true,.advance 1 ⟨1,archive,.createDirAll⟩ true,
    .advance 0 ⟨0,archive,.lock⟩ true,.advance 0 ⟨0,archive,.symlinkMetadata⟩ (.found .dir),
    .advance 0 ⟨0,archive,.symlinkMetadata⟩ (.found .dir),
    .advance 0 ⟨0,archive,.removeDirAll⟩ true,
    .advance 0 ⟨0,archive,.newTemp⟩ (some ".tmp0".toList),.advance 0 ⟨0,archive,.request⟩ true,
    .advance 0 ⟨0,archive,.receive⟩ (.byte 7),.env ⟨0⟩,
    .advance 1 ⟨1,archive,.lock⟩ true,.advance 1 ⟨1,archive,.symlinkMetadata⟩ .notFound,
    .advance 1 ⟨1,archive,.symlinkMetadata⟩ .notFound,
    .advance 1 ⟨1,archive,.newTemp⟩ (some ".tmp1".toList),.advance 1 ⟨1,archive,.request⟩ true,
    .advance 2 ⟨2,archive,.createDirAll⟩ true,.advance 1 ⟨1,archive,.receive⟩ (.byte 7),
    .advance 1 ⟨1,archive,.receive⟩ .eof,.advance 1 ⟨1,archive,.persist⟩ true,
    .advance 1 ⟨1,archive,.returnOk .downloaded⟩ (),.advance 2 ⟨2,archive,.lock⟩ true,
    .advance 2 ⟨2,archive,.symlinkMetadata⟩ (.found .file),
    .advance 2 ⟨2,archive,.ofFile⟩ (some 1)]

/-- The third process is about to report the cached archive. -/
def thirdReuses (s : State Nat) : Bool :=
  decide ((s.threads[2]?).bind Process.nextCall = some ⟨2,archive,.returnOk .cached⟩ ∧
    s.world.dead 2 = false)

theorem acquisitions_verified_cached : ∃ as s,
    (acquisitions List.length occupied [archive,archive,archive]).Run
      (begin List.length occupied [archive,archive,archive]) as s ∧
    Waits s ⟨2,archive,.returnOk .cached⟩ ∧
    ∃ bytes, s.world.cache.entry 1 archive.file = some (.file bytes) ∧ bytes.length = 1 := by
  have hreuses : ∃ as s, (acquisitions List.length occupied [archive,archive,archive]).Run
      (begin List.length occupied [archive,archive,archive]) as s ∧ thirdReuses s = true :=
    acquisitions_run threeProcesses thirdReuses (by decide +kernel)
  obtain ⟨as,s,hrun,hwanted⟩ := hreuses
  have hwaits : Waits s ⟨2,archive,.returnOk .cached⟩ :=
    ⟨⟨2,(of_decide_eq_true hwanted).1⟩,(of_decide_eq_true hwanted).2⟩
  exact ⟨as,s,hrun,hwaits,
    (acquisitions_verified List.length occupied [archive,archive,archive] hrun).1 2 archive .cached
      hwaits⟩

end PgEmbedSetup.Acquire
