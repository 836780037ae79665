import PgEmbedSetup.Handover.Model

set_option autoImplicit false

/-!
What each step of the bootstrap makes and hands over. Until the password file is looked at,
everything is a matter of which directories are wanted and which places are handed over.
-/

namespace PgEmbedSetup.Handover
open Library Privileges

/-- Nothing is removed, the wanted places that are missing become directories of root's, and
`nobody` gets the handed ones. -/
structure Does (s s' : State) (wanted handed : Place Name → Prop) : Prop where
  old : ∀ q node, s.fs.node q = some node → s'.fs.node q = some node
  new : ∀ q, s.fs.node q = none → wanted q → s'.fs.node q = some .dir
  absent : ∀ q, s.fs.node q = none → ¬ wanted q → s'.fs.node q = none
  made : ∀ q, q ∈ s'.made ↔ q ∈ s.made ∨ wanted q ∧ s.fs.node q = none
  given : ∀ q, handed q → s'.owner q = .nobody ∧ s'.fs.node q ≠ none
  root : ∀ q, ¬ handed q → wanted q → s.fs.node q = none → s'.owner q = .root
  kept : ∀ q, ¬ handed q → (wanted q → s.fs.node q ≠ none) → s'.owner q = s.owner q

def Nothing (_ : Place Name) : Prop := False

variable {s s' s₁ s₂ : State} {wanted wanted' handed handed' : Place Name → Prop}
  {p q dir : Place Name} {n : Name}

theorem Does.of_exists (h : ∀ q, wanted q → s.fs.node q ≠ none) : Does s s wanted Nothing where
  old _ _ hq := hq
  new q hq hw := absurd hq (h q hw)
  absent _ hq _ := hq
  made q := ⟨.inl,fun hq => hq.elim id fun hq => absurd hq.2 (h q hq.1)⟩
  given _ hq := hq.elim
  root q _ hw hq := absurd hq (h q hw)
  kept _ _ _ := rfl

/-- A step that changes owners only. -/
theorem Does.of_owner (hfs : s'.fs = s.fs) (hmade : s'.made = s.made)
    (hgiven : ∀ q, handed q → s'.owner q = .nobody ∧ s.fs.node q ≠ none)
    (hkept : ∀ q, ¬ handed q → s'.owner q = s.owner q) : Does s s' Nothing handed where
  old _ _ hq := by rwa [hfs]
  new _ _ hq := hq.elim
  absent _ hq _ := by rwa [hfs]
  made q := by rw [hmade]; exact ⟨.inl,fun hq => hq.elim id fun hq => hq.1.elim⟩
  given q hq := by rw [hfs]; exact hgiven q hq
  root _ _ hq := hq.elim
  kept q hq _ := hkept q hq

theorem Does.congr (h : Does s s' wanted handed)
    (hw : ∀ q, s.fs.node q = none → (wanted' q ↔ wanted q)) (hh : ∀ q, handed' q ↔ handed q) :
    Does s s' wanted' handed' where
  old := h.old
  new q hq hw' := h.new q hq ((hw q hq).mp hw')
  absent q hq hw' := h.absent q hq fun hq' => hw' ((hw q hq).mpr hq')
  made q := by
    rw [h.made q]
    exact or_congr_right ⟨fun hq => ⟨(hw q hq.2).mpr hq.1,hq.2⟩,fun hq => ⟨(hw q hq.2).mp hq.1,hq.2⟩⟩
  given q hq := h.given q ((hh q).mp hq)
  root q hq hw' hn := h.root q (fun hq' => hq ((hh q).mpr hq')) ((hw q hn).mp hw') hn
  kept q hq hw' := h.kept q (fun hq' => hq ((hh q).mpr hq')) fun hq' hn => hw' ((hw q hn).mpr hq') hn

theorem Does.trans (h₁ : Does s s₁ wanted handed) (h₂ : Does s₁ s₂ wanted' handed') :
    Does s s₂ (fun q => wanted q ∨ wanted' q) (fun q => handed q ∨ handed' q) where
  old q node hq := h₂.old q node (h₁.old q node hq)
  new q hq hw := by
    by_cases hw₁ : wanted q
    · exact h₂.old q _ (h₁.new q hq hw₁)
    · exact h₂.new q (h₁.absent q hq hw₁) (hw.resolve_left hw₁)
  absent q hq hw := by
    rw [not_or] at hw
    exact h₂.absent q (h₁.absent q hq hw.1) hw.2
  made q := by
    rw [h₂.made q,h₁.made q]
    constructor
    · rintro ((hq | ⟨hw,hq⟩) | ⟨hw,hq⟩)
      · exact .inl hq
      · exact .inr ⟨.inl hw,hq⟩
      · cases hn : s.fs.node q with
        | none => exact .inr ⟨.inr hw,rfl⟩
        | some node => rw [h₁.old q node hn] at hq; cases hq
    · rintro (hq | ⟨hw,hq⟩)
      · exact .inl (.inl hq)
      · by_cases hw₁ : wanted q
        · exact .inl (.inr ⟨hw₁,hq⟩)
        · exact .inr ⟨hw.resolve_left hw₁,h₁.absent q hq hw₁⟩
  given q hq := by
    by_cases hq₂ : handed' q
    · exact h₂.given q hq₂
    · obtain ⟨howner,hsome⟩ := h₁.given q (hq.resolve_right hq₂)
      obtain ⟨node,hnode⟩ := Option.ne_none_iff_exists'.mp hsome
      refine ⟨(h₂.kept q hq₂ fun _ => hsome).trans howner,?_⟩
      rw [h₂.old q node hnode]
      simp
  root q hq hw hn := by
    rw [not_or] at hq
    by_cases hw₁ : wanted q
    · rw [h₂.kept q hq.2 fun _ => by rw [h₁.new q hn hw₁]; simp]
      exact h₁.root q hq.1 hw₁ hn
    · exact h₂.root q hq.2 (hw.resolve_left hw₁) (h₁.absent q hn hw₁)
  kept q hq hw := by
    rw [not_or] at hq
    have hw₂ : wanted' q → s₁.fs.node q ≠ none := by
      intro hw₂
      obtain ⟨node,hnode⟩ := Option.ne_none_iff_exists'.mp (hw (.inr hw₂))
      rw [h₁.old q node hnode]
      simp
    exact (h₂.kept q hq.2 hw₂).trans (h₁.kept q hq.1 fun hw₁ => hw (.inl hw₁))

/-- What is there afterwards was there, or is a directory that was wanted. -/
theorem Does.came (h : Does s s' wanted handed) {node : Node} (hq : s'.fs.node q = some node) :
    s.fs.node q = some node ∨ s.fs.node q = none ∧ wanted q ∧ node = .dir := by
  cases hn : s.fs.node q with
  | some old => exact .inl ((h.old q old hn).symm.trans hq)
  | none =>
    by_cases hw : wanted q
    · exact .inr ⟨rfl,hw,Option.some.inj (hq.symm.trans (h.new q hn hw))⟩
    · rw [h.absent q hn hw] at hq
      cases hq

theorem Does.locate (h : Does s s' wanted handed) (hp : s.fs.locate p = .ok q) :
    s'.fs.locate p = .ok q := locate_mono h.old hp

/-! ### Making directories -/

theorem createAt_ok {node : Node} (h : s.createAt n dir node = .ok s') :
    s.fs.node dir = some .dir ∧ s.fs.node (n :: dir) = none ∧
      (∀ q, s'.fs.node q = if q = n :: dir then some node else s.fs.node q) ∧
      s'.owner = Function.update s.owner (n :: dir) .root ∧ s'.made = (n :: dir) :: s.made := by
  rw [State.createAt] at h
  split at h
  · next hdir =>
    split at h
    · next hfree =>
      obtain rfl := Except.ok.inj h
      exact ⟨hdir,hfree,s.fs.node_add hdir hfree,rfl,rfl⟩
    · cases h
  · cases h

theorem createAt_does (h : s.createAt n dir .dir = .ok s') :
    Does s s' (· = n :: dir) Nothing := by
  obtain ⟨hdir,hfree,hnode,howner,hmade⟩ := createAt_ok h
  constructor
  · intro q node hq
    rw [hnode,if_neg]
    · exact hq
    · rintro rfl
      rw [hfree] at hq
      cases hq
  · rintro q - rfl
    rw [hnode,if_pos rfl]
  · intro q hq hne
    rw [hnode,if_neg hne]
    exact hq
  · intro q
    rw [hmade,List.mem_cons]
    constructor
    · rintro (rfl | hq)
      · exact .inr ⟨rfl,hfree⟩
      · exact .inl hq
    · rintro (hq | ⟨rfl,-⟩)
      · exact .inr hq
      · exact .inl rfl
  · exact fun _ hq => hq.elim
  · rintro q - rfl -
    rw [howner,Function.update_self]
  · rintro q - hq
    rw [howner,Function.update_of_ne]
    rintro rfl
    exact hq rfl hfree

theorem dir_of_suffix {fs : FileSystem} (hp : fs.node p = some .dir) (hq : q <:+ p) :
    fs.node q = some .dir := by
  induction p with
  | nil => rwa [List.suffix_nil.mp hq]
  | cons n p ih =>
    rcases List.suffix_cons_iff.mp hq with rfl | hq
    · exact hp
    · exact ih (fs.node_parent hp) hq

theorem exists_of_suffix {fs : FileSystem} (hp : fs.node p = some .dir) (hq : q <:+ p) :
    fs.node q ≠ none := by simp [dir_of_suffix hp hq]

/-- Only the last name of a new directory below an old one is missing. -/
theorem suffix_missing {fs : FileSystem} (hdir : fs.node dir = some .dir)
    (hq : fs.node q = none) : q <:+ n :: dir ↔ q = n :: dir := by
  constructor
  · intro hs
    rcases List.suffix_cons_iff.mp hs with rfl | hs
    · rfl
    · exact absurd hq (exists_of_suffix hdir hs)
  · rintro rfl
    exact List.suffix_refl _

/-- A path that leads to a directory, which was there or has been made. -/
structure Leads (s s' : State) (p q : Place Name) : Prop where
  locate : s'.fs.locate p = .ok q
  dir : s'.fs.node q = some .dir
  does : Does s s' (· <:+ q) Nothing

theorem isDir_iff : s.isDir p = true ↔ ∃ q, s.fs.locate p = .ok q ∧ s.fs.node q = some .dir := by
  rw [State.isDir]
  cases s.fs.locate p with
  | error e => simp
  | ok q => simp

theorem Leads.of_isDir (h : s.isDir p = true) : ∃ q, Leads s s p q := by
  obtain ⟨q,hloc,hdir⟩ := isDir_iff.mp h
  exact ⟨q,hloc,hdir,.of_exists fun _ hq => exists_of_suffix hdir hq⟩

theorem createNew_ok {node : Node} (h : s.createNew node (n :: dir) = .ok s') :
    ∃ d, s.fs.locate dir = .ok d ∧ s.createAt n d node = .ok s' := by
  rw [State.createNew] at h
  split at h
  · cases h
  · next d hd => exact ⟨d,hd,h⟩

theorem createAt_leads {d : Place Name} (hloc : s.fs.locate dir = .ok d)
    (h : s.createAt n d .dir = .ok s') : Leads s s' (n :: dir) (n :: d) := by
  have hdoes := createAt_does h
  obtain ⟨hdir,hfree,hnode,-,-⟩ := createAt_ok h
  have hnew : s'.fs.node (n :: d) = some .dir := by rw [hnode,if_pos rfl]
  refine ⟨locate_child (hdoes.locate hloc) (hdoes.old d _ hdir) (.inl hnew),hnew,?_⟩
  exact hdoes.congr (fun q hq => suffix_missing hdir hq) (fun _ => Iff.rfl)

/-- The second part: when something has been made, the directory itself has. -/
theorem createDirAll_leads (h : createDirAll s p = .ok s') :
    ∃ q, Leads s s' p q ∧ (s' = s ∨ s.fs.node q = none) := by
  induction p generalizing s' with
  | nil =>
    obtain rfl : s = s' := Except.ok.inj h
    have hroot : s.fs.node [] = some .dir := by simp [FileSystem.node]
    exact ⟨[],⟨locate_dir hroot,hroot,.of_exists fun _ hq => exists_of_suffix hroot hq⟩,.inl rfl⟩
  | cons n dir ih =>
    rw [createDirAll] at h
    split at h
    · next s₁ hnew =>
      obtain rfl := Except.ok.inj h
      obtain ⟨d,hd,hat⟩ := createNew_ok hnew
      exact ⟨n :: d,createAt_leads hd hat,.inr (createAt_ok hat).2.1⟩
    · next e hfail =>
      split at h
      · split at h
        · cases h
        · next s₁ hparent =>
          obtain ⟨d,hleads,hsame⟩ := ih hparent
          split at h
          · next s₂ hnew =>
            obtain rfl := Except.ok.inj h
            obtain ⟨d',hd',hat⟩ := createNew_ok hnew
            obtain rfl : d = d' := Except.ok.inj (hleads.locate.symm.trans hd')
            have hleads' := createAt_leads hd' hat
            have hnone : s.fs.node (n :: d) = none := by
              cases hn : s.fs.node (n :: d) with
              | none => rfl
              | some node =>
                have hold := hleads.does.old _ node hn
                rw [(createAt_ok hat).2.1] at hold
                cases hold
            refine ⟨n :: d,⟨hleads'.locate,hleads'.dir,?_⟩,.inr hnone⟩
            refine (hleads.does.trans hleads'.does).congr (fun q _ => ?_) (fun _ => by simp [Nothing])
            exact ⟨.inr,fun hq => hq.elim (·.trans (List.suffix_cons n d)) id⟩
          · next e' hagain =>
            split at h
            · next hisDir =>
              obtain rfl := Except.ok.inj h
              rcases hsame with rfl | hnone
              · obtain ⟨q,hq⟩ := Leads.of_isDir hisDir
                exact ⟨q,hq,.inl rfl⟩
              · -- The parent is new, so nothing is in it and the second attempt goes through.
                exfalso
                have hfree : s₁.fs.node (n :: d) = none := by
                  refine hleads.does.absent _ ?_ fun hs => ?_
                  · cases hn : s.fs.node (n :: d) with
                    | none => rfl
                    | some node => rw [s.fs.node_parent hn] at hnone; cases hnone
                  · have hlen := hs.length_le
                    simp at hlen
                simp [State.createNew,hleads.locate,State.createAt,hleads.dir,hfree] at hagain
            · cases h
      · split at h
        · next hisDir =>
          obtain rfl := Except.ok.inj h
          obtain ⟨q,hq⟩ := Leads.of_isDir hisDir
          exact ⟨q,hq,.inl rfl⟩
        · cases h

theorem openDir_ok : s.openDir p = .ok q ↔ s.fs.locate p = .ok q ∧ s.fs.node q = some .dir := by
  have hloc : s.fs.locate p = (machineWith s.fs).locate (spelled p) := rfl
  have hfault : (machineWith s.fs).fault (.openDir (spelled p)) = none := rfl
  rw [State.openDir,Machine.openAmbientDir,hloc,hfault]
  cases (machineWith s.fs).locate (spelled p) with
  | error e => simp
  | ok d =>
    have hfs : (machineWith s.fs).fs = s.fs := rfl
    simp only [hfs,Except.ok.injEq]
    split
    · next hd =>
      rw [Except.ok.injEq]
      exact ⟨fun he => ⟨he,he ▸ hd⟩,And.left⟩
    · next hd =>
      constructor
      · intro he
        cases he
      · rintro ⟨rfl,hq⟩
        exact absurd hq hd

theorem findExistingAncestor_ok {d : Place Name} {relative : List Name}
    (h : findExistingAncestor s p = .ok (d,relative)) :
    ∃ anc, p = relative.reverse ++ anc ∧ s.fs.locate anc = .ok d ∧ s.fs.node d = some .dir := by
  induction p generalizing relative with
  | nil =>
    rw [findExistingAncestor] at h
    cases ho : s.openDir [] with
    | error e => rw [ho] at h; cases h
    | ok d' =>
      rw [ho] at h
      obtain ⟨rfl,rfl⟩ := Prod.mk.inj (Except.ok.inj h)
      exact ⟨[],rfl,openDir_ok.mp ho⟩
  | cons n parent ih =>
    rw [findExistingAncestor] at h
    split at h
    · next d' ho =>
      obtain ⟨rfl,rfl⟩ := Prod.mk.inj (Except.ok.inj h)
      exact ⟨n :: parent,rfl,openDir_ok.mp ho⟩
    · split at h
      · cases hf : findExistingAncestor s parent with
        | error e => rw [hf] at h; cases h
        | ok found =>
          rw [hf] at h
          obtain ⟨rfl,rfl⟩ := Prod.mk.inj (Except.ok.inj h)
          obtain ⟨anc,hanc,hopen⟩ := ih hf
          exact ⟨anc,by simp [hanc],hopen⟩
      · cases h

theorem createDirAllIn_ok {d : Place Name} {relative : List Name} (hd : s.fs.node d = some .dir)
    (h : createDirAllIn s d relative = .ok s') :
    s'.fs.node (relative.reverse ++ d) = some .dir ∧
      Does s s' (· <:+ relative.reverse ++ d) Nothing := by
  induction relative generalizing s d with
  | nil =>
    obtain rfl : s = s' := Except.ok.inj h
    exact ⟨hd,.of_exists fun _ hq => exists_of_suffix hd hq⟩
  | cons n relative ih =>
    have happ : (n :: relative).reverse ++ d = relative.reverse ++ n :: d := by simp
    rw [happ]
    rw [createDirAllIn] at h
    split at h
    · next hdir => exact ih hdir h
    · split at h
      · next s₁ hat =>
        have hmake := createAt_does hat
        have hdir : s₁.fs.node (n :: d) = some .dir := by rw [(createAt_ok hat).2.2.1,if_pos rfl]
        obtain ⟨hlast,hrest⟩ := ih hdir h
        refine ⟨hlast,(hmake.trans hrest).congr (fun q hq => ?_) (fun _ => by simp [Nothing])⟩
        constructor
        · exact .inr
        · rintro (rfl | hs)
          · exact List.suffix_append _ _
          · exact hs
      · cases h

theorem locate_down {fs : FileSystem} {anc d : Place Name} (names : List Name)
    (hanc : fs.locate anc = .ok d) (hdir : fs.node (names ++ d) = some .dir) :
    fs.locate (names ++ anc) = .ok (names ++ d) := by
  induction names with
  | nil => exact hanc
  | cons n names ih =>
    have hparent := fs.node_parent hdir
    exact locate_child (ih hparent) hparent (.inl hdir)

theorem ensureDirExists_leads (h : ensureDirExists s p = .ok s') : ∃ q, Leads s s' p q := by
  rw [ensureDirExists] at h
  split at h
  · cases h
  · next d relative hfind =>
    obtain ⟨anc,rfl,hloc,hd⟩ := findExistingAncestor_ok hfind
    split at h
    · next s₁ hmake =>
      obtain rfl := Except.ok.inj h
      obtain ⟨hdir,hdoes⟩ := createDirAllIn_ok hd hmake
      exact ⟨relative.reverse ++ d,locate_down _ (hdoes.locate hloc) hdir,hdir,hdoes⟩
    · split at h
      · next hthere =>
        obtain rfl := Except.ok.inj h
        exact Leads.of_isDir hthere.2
      · cases h

/-- In a directory that is there, at most the last name is made. -/
theorem ensureDirExists_child {d : Place Name} (hloc : s.fs.locate dir = .ok d)
    (hd : s.fs.node d = some .dir) (h : ensureDirExists s (n :: dir) = .ok s') :
    ∃ q, Leads s s' (n :: dir) q ∧ ∀ r, r <:+ q → s.fs.node r = none → r = n :: d := by
  rw [ensureDirExists] at h
  have hopen : findExistingAncestor s dir = .ok (d,[]) := by
    cases dir with
    | nil => rw [findExistingAncestor,openDir_ok.mpr ⟨hloc,hd⟩]; rfl
    | cons m dir => rw [findExistingAncestor,openDir_ok.mpr ⟨hloc,hd⟩]
  split at h
  · cases h
  · next d' relative hfind =>
    rw [findExistingAncestor] at hfind
    split at hfind
    · next x hx =>
      obtain ⟨rfl,rfl⟩ := Prod.mk.inj (Except.ok.inj hfind)
      obtain rfl : s = s' := Except.ok.inj h
      obtain ⟨hx,hxd⟩ := openDir_ok.mp hx
      exact ⟨x,⟨hx,hxd,.of_exists fun _ hq => exists_of_suffix hxd hq⟩,
        fun r hr hn => absurd hn (exists_of_suffix hxd hr)⟩
    · split at hfind
      · rw [hopen] at hfind
        obtain ⟨rfl,rfl⟩ := Prod.mk.inj (Except.ok.inj hfind)
        split at h
        · next s₁ hmake =>
          obtain rfl := Except.ok.inj h
          obtain ⟨hdir,hdoes⟩ := createDirAllIn_ok hd hmake
          refine ⟨n :: d,⟨locate_child (hdoes.locate hloc) (hdoes.old d _ hd) (.inl hdir),hdir,
            hdoes⟩,fun r hr hn => (suffix_missing hd hn).mp hr⟩
        · split at h
          · next hthere =>
            obtain rfl := Except.ok.inj h
            obtain ⟨x,hx,hxd⟩ := isDir_iff.mp hthere.2
            exact ⟨x,⟨hx,hxd,.of_exists fun _ hq => exists_of_suffix hxd hq⟩,
              fun r hr hn => absurd hn (exists_of_suffix hxd hr)⟩
          · cases h
      · cases hfind

/-! ### Handing over -/

theorem settled_exists {fs : FileSystem} (h : Settled fs q) : fs.node q ≠ none := by
  rcases h with h | h <;> simp [h]

theorem chown_ok (h : s.chown p = .ok s') :
    ∃ q, s.fs.locate p = .ok q ∧ Does s s' Nothing (· = q) := by
  rw [State.chown] at h
  split at h
  · next q hq =>
    obtain rfl := Except.ok.inj h
    refine ⟨q,hq,.of_owner rfl rfl ?_ fun r hr => Function.update_of_ne hr ..⟩
    rintro r rfl
    exact ⟨Function.update_self ..,settled_exists (locate_settled hq)⟩
  · cases h

/-- A path made and handed over. -/
structure Ensured (s s' : State) (p q : Place Name) : Prop where
  locate : s'.fs.locate p = .ok q
  dir : s'.fs.node q = some .dir
  does : Does s s' (· <:+ q) (· = q)

theorem except_bind_ok {ε α β : Type} {x : Except ε α} {f : α → Except ε β} {b : β} :
    x >>= f = .ok b ↔ ∃ a, x = .ok a ∧ f a = .ok b := by
  cases x <;> simp [bind,Except.bind]

theorem ite_bind_ok {ε α β : Type} {b : Bool} {x y : Except ε α} {f : α → Except ε β} {r : β}
    (h : (if b = true then x >>= f else y >>= f) = .ok r) :
    ∃ a, (if b = true then x else y) = .ok a ∧ f a = .ok r := by
  cases b <;> exact except_bind_ok.mp h

theorem mapError_ok {ε ε' α : Type} {f : ε → ε'} {x : Except ε α} {a : α}
    (h : x.mapError f = .ok a) : x = .ok a := by
  cases x with
  | error e => cases h
  | ok b => exact congrArg Except.ok (Except.ok.inj h)

theorem Leads.chown (hl : Leads s s₁ p q) (h : chownEntry s₁ p = .ok s') : Ensured s s' p q := by
  obtain ⟨r,hr,hdoes⟩ := chown_ok (mapError_ok h)
  obtain rfl : q = r := Except.ok.inj (hl.locate.symm.trans hr)
  refine ⟨hdoes.locate hl.locate,hdoes.old q _ hl.dir,?_⟩
  exact (hl.does.trans hdoes).congr (fun _ _ => by simp [Nothing]) (fun _ => by simp [Nothing])

theorem ensureDirForUser_ok (h : ensureDirForUser s p = .ok s') : ∃ q, Ensured s s' p q := by
  rw [ensureDirForUser] at h
  obtain ⟨s₁,he,h⟩ := except_bind_ok.mp h
  obtain ⟨q,hl⟩ := ensureDirExists_leads he
  exact ⟨q,hl.chown h⟩

/-! ### Walking a tree -/

theorem fuel_enough (fs : FileSystem) (top : Place Name) :
    [top].length+(pending (machineWith fs) [top]).length ≤ fs.entries.length+1 := by
  have hbelow : (fs.below top).length ≤ fs.entries.length :=
    (List.length_filter_le _ _).trans (by simp)
  have hfs : (machineWith fs).fs = fs := rfl
  simp only [pending,hfs,List.flatMap_cons,List.flatMap_nil,List.append_nil,List.length_cons,
    List.length_nil]
  omega

/-- What a walk hands over: all there is below its top, and without links nothing else. -/
theorem ensureTreeOwnedByUser_ok (h : ensureTreeOwnedByUser s p = .ok s') :
    s'.fs = s.fs ∧ ∃ given, Does s s' Nothing given ∧
      ∀ t, s.fs.locate p = .ok t → s.fs.node t = some .dir →
        (∀ q, Below t q → Settled s.fs q → given q) ∧
        ((∀ q node, Below t q → s.fs.node q = some node → Settled s.fs q) →
          ∀ q, given q → Below t q) := by
  rw [ensureTreeOwnedByUser] at h
  split at h
  · cases h
  · cases h
  · next final hrun =>
    obtain rfl := Except.ok.inj h
    have hsettled : ChangedSettled (machineWith s.fs) final :=
      walkStack_settled (fun q hq => absurd hq (by simp)) hrun
    refine ⟨rfl,(· ∈ final.changed),.of_owner rfl rfl
      (fun q hq => ⟨if_pos hq,settled_exists (hsettled q hq)⟩) (fun q hq => if_neg hq),
      fun t hloc ht => ?_⟩
    have hstack : StackOpens (machineWith s.fs) (Progress.stack ⟨[spelled p],0,[]⟩) [t] :=
      .cons ⟨hloc,ht⟩ .nil
    have hw := walkStack_ok (reliable_machineWith s.fs) hstack hrun
    refine ⟨hw.settled t (List.mem_singleton_self t),fun hset q hq => ?_⟩
    have hset' : ∀ d ∈ [t], ∀ r node, Below d r → (machineWith s.fs).fs.node r = some node →
        Settled (machineWith s.fs).fs r := by
      intro d hd r node hb hr
      rw [List.mem_singleton.mp hd] at hb
      exact hset r node hb hr
    rcases hw.only hset' q hq with hq | ⟨d,hd,hb⟩
    · simp at hq
    · rwa [List.mem_singleton.mp hd] at hb

/-- The turns the walk is given suffice. -/
theorem ensureTreeOwnedByUser_ends (s : State) (p : Place Name) :
    ensureTreeOwnedByUser s p ≠ .error .turns := by
  have hends : ∃ r, Privileges.ensureTreeOwnedByUser (machineWith s.fs) (s.fs.entries.length+1)
      (spelled p) = some r := by
    by_cases hopen : ∃ t, Opens (machineWith s.fs) (spelled p) t
    · obtain ⟨t,hopen⟩ := hopen
      have hstack : StackOpens (machineWith s.fs) (Progress.stack ⟨[spelled p],0,[]⟩) [t] :=
        .cons hopen .nil
      exact walkStack_ends (reliable_machineWith s.fs) hstack (fuel_enough s.fs t)
    · rw [Privileges.ensureTreeOwnedByUser,walkStack.eq_3 _ _ (spelled p) [] _ rfl]
      have hnot : ∀ t, s.openDir p ≠ .ok t := fun t ht => hopen ⟨t,openDir_ok.mp ht⟩
      rw [visitPath,openDirectoryIfExists]
      cases ho : (machineWith s.fs).openAmbientDir (spelled p) with
      | ok t => exact absurd ho (hnot t)
      | error e =>
        by_cases he : e = .walk .notFound
        · subst he
          exact ⟨_,walkStack_empty rfl⟩
        · simp
  obtain ⟨⟨final,result⟩,hr⟩ := hends
  rw [ensureTreeOwnedByUser,hr]
  cases result <;> simp

/-! ### Removing -/

/-- Nothing is there that was not. -/
def Shrinks (fs fs' : FileSystem) : Prop := ∀ q node, fs'.node q = some node → fs.node q = some node

section Removing
variable {fs : FileSystem} {stuck : Place Name → Bool}

theorem removeFile_shrinks : Shrinks fs (removeFile fs stuck p) := by
  intro q node hq
  rw [removeFile] at hq
  split at hq
  · exact fs.node_of_without hq
  · exact fs.node_of_without hq
  · exact hq
  · exact hq

theorem node_removeFile (hq : q ≠ p ∨ fs.node q = some .dir) :
    (removeFile fs stuck p).node q = fs.node q := by
  have hne : ∀ node, fs.node p = some node → node ≠ .dir → q ≠ p := by
    rintro node hp hnode rfl
    rcases hq with hq | hq
    · exact hq rfl
    · exact hnode (Option.some.inj (hp.symm.trans hq))
  rw [removeFile]
  split
  · next hp => exact fs.node_without (by simp [hne _ hp (by simp)])
  · next hp => exact fs.node_without (by simp [hne _ hp (by simp)])
  · rfl
  · rfl

theorem removeDirAll_shrinks : Shrinks fs (removeDirAll fs stuck p) := by
  intro q node hq
  rw [removeDirAll] at hq
  split at hq
  · exact fs.node_of_without hq
  · exact removeFile_shrinks q node hq
  · exact hq
  · exact hq

theorem node_removeDirAll (hq : ¬ p <:+ q ∨ fs.node p = some .file) :
    (removeDirAll fs stuck p).node q = fs.node q := by
  rw [removeDirAll]
  split
  · next hp =>
    refine fs.node_without ?_
    rcases hq with hq | hq
    · simp [hq]
    · rw [hp] at hq
      cases hq
  · next target hp =>
    refine node_removeFile (.inl ?_)
    rcases hq with hq | hq
    · rintro rfl
      exact hq (List.suffix_refl _)
    · rw [hp] at hq
      cases hq
  · rfl
  · rfl

end Removing

end PgEmbedSetup.Handover
