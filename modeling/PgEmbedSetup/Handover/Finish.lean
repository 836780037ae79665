import PgEmbedSetup.Handover.Steps

set_option autoImplicit false

/-!
The end of the bootstrap: an orphaned password file goes, the password file and the slot's
lock are handed over, and the trees are walked.
-/

namespace PgEmbedSetup.Handover
open Library Privileges

variable {s s' s₁ s₂ s₃ s₄ : State} {p q dataDir password : Place Name} {paths : SettingsPaths}
  {hasSlot : Bool}

/-- At most what has the password file's name is gone, and that is no directory. -/
structure Discarded (s s' : State) (password : Place Name) : Prop where
  owner : s'.owner = s.owner
  made : s'.made = s.made
  less : Shrinks s.fs s'.fs
  same : ∀ q, q.head? ≠ password.head? ∨ s.fs.node q = some .dir → s'.fs.node q = s.fs.node q

theorem Discarded.refl (s : State) : Discarded s s password :=
  ⟨rfl,rfl,fun _ _ hq => hq,fun _ _ => rfl⟩

theorem discardOrphanedPasswordFile_ok
    (h : discardOrphanedPasswordFile s dataDir password = .ok s') : Discarded s s' password := by
  cases password with
  | nil => cases h
  | cons n dir =>
    rw [discardOrphanedPasswordFile] at h
    obtain ⟨marked,-,h⟩ := except_bind_ok.mp h
    cases marked with
    | true =>
      obtain rfl : s = s' := Except.ok.inj h
      exact .refl s
    | false =>
      simp only [Bool.false_eq_true,if_false] at h
      split at h
      · split at h
        · obtain rfl := Except.ok.inj h
          exact .refl s
        · cases h
      · next d hd =>
        split at h
        · cases h
        · split at h
          · cases h
          · obtain rfl := Except.ok.inj h
            refine ⟨rfl,rfl,removeFile_shrinks,fun q hq => node_removeFile (hq.imp_left ?_)⟩
            rintro hne rfl
            exact hne rfl

theorem ensurePgpassForUser_ok (h : ensurePgpassForUser s password = .ok s') :
    s'.fs = s.fs ∧ ∃ given, Does s s' Nothing given ∧
      ∀ q, given q → q.head? = password.head? ∧ s.fs.node q = some .file := by
  cases password with
  | nil => cases h
  | cons n dir =>
    rw [ensurePgpassForUser] at h
    split at h
    · cases h
    · next d hd =>
      split at h
      · obtain rfl := Except.ok.inj h
        exact ⟨rfl,Nothing,.of_exists fun _ hq => hq.elim,fun _ hq => hq.elim⟩
      · next hfile =>
        obtain rfl := Except.ok.inj h
        refine ⟨rfl,(· = n :: d),.of_owner rfl rfl ?_ fun q hq => Function.update_of_ne hq ..,?_⟩
        · rintro q rfl
          exact ⟨Function.update_self ..,by simp [hfile]⟩
        · rintro q rfl
          exact ⟨rfl,hfile⟩
      · cases h
      · cases h

theorem ensureSlotLock_ok
    (h : (if hasSlot = true then ensureSlotLockOwnedByUser s dataDir else .ok s) = .ok s') :
    s'.fs = s.fs ∧ ∃ given, Does s s' Nothing given ∧
      ∀ q, given q ↔ hasSlot = true ∧ s.fs.locate (lockPath dataDir) = .ok q := by
  cases hasSlot with
  | false =>
    obtain rfl : s = s' := Except.ok.inj h
    exact ⟨rfl,Nothing,.of_exists fun _ hq => hq.elim,by simp [Nothing]⟩
  | true =>
    have hchown := mapError_ok (show (s.chown (lockPath dataDir)).mapError _ = .ok s' from h)
    obtain ⟨q,hq,hdoes⟩ := chown_ok hchown
    refine ⟨?_,(· = q),hdoes,fun r => ⟨?_,?_⟩⟩
    · rw [State.chown,hq] at hchown
      rw [← Except.ok.inj hchown]
    · rintro rfl
      exact ⟨rfl,hq⟩
    · rintro ⟨-,hr⟩
      exact Except.ok.inj (hr.symm.trans hq)

/-- A walk that is made on a condition. -/
theorem ensureTree_ok {b : Bool}
    (h : (if b = true then ensureTreeOwnedByUser s p else .ok s) = .ok s') :
    s'.fs = s.fs ∧ ∃ given, Does s s' Nothing given ∧
      ∀ t, s.fs.locate p = .ok t → s.fs.node t = some .dir →
        (b = true → ∀ q, Below t q → Settled s.fs q → given q) ∧
        ((∀ q node, Below t q → s.fs.node q = some node → Settled s.fs q) →
          ∀ q, given q → b = true ∧ Below t q) := by
  cases b with
  | false =>
    obtain rfl : s = s' := Except.ok.inj h
    exact ⟨rfl,Nothing,.of_exists fun _ hq => hq.elim,
      fun _ _ _ => ⟨fun hb => (nomatch hb),fun _ _ hq => hq.elim⟩⟩
  | true =>
    obtain ⟨hfs,given,hdoes,hwalk⟩ := ensureTreeOwnedByUser_ok h
    refine ⟨hfs,given,hdoes,fun t hloc ht => ⟨fun _ => (hwalk t hloc ht).1,fun hset q hq => ?_⟩⟩
    exact ⟨rfl,(hwalk t hloc ht).2 hset q hq⟩

/-- What the end of the bootstrap does to the files it finds. -/
structure Finished (paths : SettingsPaths) (hasSlot : Bool) (s s' : State) : Prop where
  made : ∀ q, q ∈ s'.made ↔ q ∈ s.made
  less : Shrinks s.fs s'.fs
  same : ∀ q, q.head? ≠ paths.passwordFile.head? ∨ s.fs.node q = some .dir →
    s'.fs.node q = s.fs.node q
  stays : ∀ q, s.owner q = .nobody → s'.owner q = .nobody
  lock : hasSlot = true → ∀ q, s'.fs.locate (lockPath paths.dataDir) = .ok q →
    s'.owner q = .nobody
  install : ∀ t, s'.fs.locate paths.installDir = .ok t → s'.fs.node t = some .dir →
    ∀ q, Below t q → Settled s'.fs q → s'.owner q = .nobody
  data : paths.dataDefault = true → ∀ t, s'.fs.locate paths.dataDir = .ok t →
    s'.fs.node t = some .dir → ∀ q, Below t q → Settled s'.fs q → s'.owner q = .nobody
  /-- Where there are no links, nothing else is handed over. -/
  only : ∀ I S, s'.fs.locate paths.installDir = .ok I → s'.fs.node I = some .dir →
    s'.fs.locate paths.dataDir = .ok S → s'.fs.node S = some .dir →
    (∀ q node, Below I q ∨ Below S q → s'.fs.node q = some node → Settled s'.fs q) →
    ∀ q, s'.owner q = .nobody → s.owner q = .nobody ∨
      q.head? = paths.passwordFile.head? ∧ s'.fs.node q = some .file ∨
      hasSlot = true ∧ s'.fs.locate (lockPath paths.dataDir) = .ok q ∨
      Below I q ∨ paths.dataDefault = true ∧ Below S q

theorem Does.stays {given : Place Name → Prop} (h : Does s s' Nothing given)
    (hq : s.owner q = .nobody) : s'.owner q = .nobody := by
  by_cases hg : given q
  · exact (h.given q hg).1
  · exact (h.kept q hg fun hn => hn.elim).trans hq

theorem Does.given_of {given : Place Name → Prop} (h : Does s s' Nothing given)
    (hq : s'.owner q = .nobody) : s.owner q = .nobody ∨ given q := by
  by_cases hg : given q
  · exact .inr hg
  · exact .inl ((h.kept q hg fun hn => hn.elim).symm.trans hq)

theorem finished_of
    (hdiscard : discardOrphanedPasswordFile s paths.dataDir paths.passwordFile = .ok s₁)
    (hpgpass : ensurePgpassForUser s₁ paths.passwordFile = .ok s₂)
    (hlock : (if hasSlot = true then ensureSlotLockOwnedByUser s₂ paths.dataDir
      else .ok s₂) = .ok s₃)
    (hinstall : ensureTreeOwnedByUser s₃ paths.installDir = .ok s₄)
    (hdata : (if paths.dataDefault = true then ensureTreeOwnedByUser s₄ paths.dataDir
      else .ok s₄) = .ok s') : Finished paths hasSlot s s' := by
  have hd := discardOrphanedPasswordFile_ok hdiscard
  obtain ⟨hfs₂,given₂,hdoes₂,hgiven₂⟩ := ensurePgpassForUser_ok hpgpass
  obtain ⟨hfs₃,given₃,hdoes₃,hgiven₃⟩ := ensureSlotLock_ok hlock
  obtain ⟨hfs₄,given₄,hdoes₄,hwalk₄⟩ := ensureTreeOwnedByUser_ok hinstall
  obtain ⟨hfs₅,given₅,hdoes₅,hwalk₅⟩ := ensureTree_ok hdata
  have hfs₁ : s'.fs = s₁.fs := by rw [hfs₅,hfs₄,hfs₃,hfs₂]
  rw [← hfs₁] at hgiven₂
  rw [hfs₂,← hfs₁] at hgiven₃
  rw [hfs₃,hfs₂,← hfs₁] at hwalk₄
  rw [hfs₄,hfs₃,hfs₂,← hfs₁] at hwalk₅
  constructor
  · intro q
    rw [hdoes₅.made q,hdoes₄.made q,hdoes₃.made q,hdoes₂.made q,hd.made]
    simp [Nothing]
  · rw [hfs₁]
    exact hd.less
  · rw [hfs₁]
    exact hd.same
  · intro q hq
    exact hdoes₅.stays (hdoes₄.stays (hdoes₃.stays (hdoes₂.stays (hd.owner ▸ hq))))
  · intro hb q hq
    exact hdoes₅.stays (hdoes₄.stays (hdoes₃.given q ((hgiven₃ q).mpr ⟨hb,hq⟩)).1)
  · intro t hloc ht q hq hset
    exact hdoes₅.stays (hdoes₄.given q ((hwalk₄ t hloc ht).1 q hq hset)).1
  · intro hb t hloc ht q hq hset
    exact (hdoes₅.given q ((hwalk₅ t hloc ht).1 hb q hq hset)).1
  · intro I S hI hIdir hS hSdir hset q hq
    rcases hdoes₅.given_of hq with hq | hq
    · rcases hdoes₄.given_of hq with hq | hq
      · rcases hdoes₃.given_of hq with hq | hq
        · rcases hdoes₂.given_of hq with hq | hq
          · exact .inl (hd.owner ▸ hq)
          · exact .inr (.inl (hgiven₂ q hq))
        · exact .inr (.inr (.inl ((hgiven₃ q).mp hq)))
      · have hbelow := (hwalk₄ I hI hIdir).2 (fun r node hb => hset r node (.inl hb)) q hq
        exact .inr (.inr (.inr (.inl hbelow)))
    · have hbelow := (hwalk₅ S hS hSdir).2 (fun r node hb => hset r node (.inr hb)) q hq
      exact .inr (.inr (.inr (.inr hbelow)))

end PgEmbedSetup.Handover
