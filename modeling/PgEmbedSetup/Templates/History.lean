import PgEmbedSetup.Templates.Exclusion

set_option autoImplicit false

/-! What the record of all calls' operations says of each call and of each database. -/

namespace PgEmbedSetup.Templates
open Library

variable {calls : List Template} {w w' : World} {ghosts : List Ghost} {i : Nat} {g k : Ghost}
  {events : List Event} {c : Caller} {t : Template}

def Event.caller : Event → Caller
  | .checked c _ _ | .created c _ _ | .ranSetup c _ _ | .dropped c _ _ | .ended c _ _ _ => c

/-- A setup of this template that has completed successfully. -/
def Event.isSetup (t : Template) : Event → Bool
  | .ranSetup _ t' o => t' = t && o = .returned (.ok ())
  | _ => false

/-- A drop of this template that has succeeded. -/
def Event.isDrop (t : Template) : Event → Bool
  | .dropped _ t' r => t' = t && r = .ok ()
  | _ => false

/-- An operation of the call has failed. -/
def OwnFailure (events : List Event) (c : Caller) (t : Template) : Prop :=
  (∃ e, .checked c t (.error e) ∈ events) ∨ (∃ e, .created c t (.error e) ∈ events) ∨
    ∃ o, o ≠ .returned (.ok ()) ∧ .ranSetup c t o ∈ events

/-- A call's own operations account for its end. -/
def Accounted (events : List Event) (c : Caller) (t : Template) : Ended → Prop
  | .returned (.ok ()) => True
  | .returned (.error _) => OwnFailure events c t
  | .panicked p => .ranSetup c t (.panicked p) ∈ events

theorem OwnFailure.mono {new : List Event} (h : OwnFailure events c t) :
    OwnFailure (events ++ new) c t := by
  rcases h with ⟨e,he⟩ | ⟨e,he⟩ | ⟨o,ho,he⟩
  · exact .inl ⟨e,List.mem_append_left _ he⟩
  · exact .inr (.inl ⟨e,List.mem_append_left _ he⟩)
  · exact .inr (.inr ⟨o,ho,List.mem_append_left _ he⟩)

theorem Accounted.mono {new : List Event} {r : Ended} (h : Accounted events c t r) :
    Accounted (events ++ new) c t r := by
  rcases r with (e | u) | p
  · exact OwnFailure.mono h
  · trivial
  · exact List.mem_append_left _ h

/-! ### Stages -/

def NoSetup (events : List Event) (c : Caller) : Prop := ∀ t o, .ranSetup c t o ∉ events

/-- A call that rolls back has made the database itself, and its setup has failed. -/
structure RollsBack (events : List Event) (c : Caller) (t : Template) : Prop where
  created : .created c t (.ok ()) ∈ events
  ranSetup : ∃ o, .ranSetup c t o ∈ events
  failed : ∀ o, .ranSetup c t o ∈ events → o ≠ .returned (.ok ())

def StageFits (w : World) (g : Ghost) : Prop :=
  match g.stage with
  | .outside | .waiting | .checking => NoSetup w.events g.caller
  | .creating => NoSetup w.events g.caller ∧ w.databases g.template = none
  | .settingUp => NoSetup w.events g.caller ∧ w.databases g.template = some false ∧
      .created g.caller g.template (.ok ()) ∈ w.events
  | .rollingBack o => w.databases g.template = some false ∧
      RollsBack w.events g.caller g.template ∧ .ranSetup g.caller g.template o ∈ w.events
  | .leaving r | .left r => Accounted w.events g.caller g.template r
  | .over => True

theorem NoSetup.append {new : List Event} (h : NoSetup events c) (hnew : ∀ e ∈ new, e.caller ≠ c) :
    NoSetup (events ++ new) c := by
  intro t o hmem
  rcases List.mem_append.mp hmem with hold | hnew'
  · exact h t o hold
  · exact hnew _ hnew' rfl

theorem NoSetup.snoc {e : Event} (h : NoSetup events c) (he : ∀ t o, e ≠ .ranSetup c t o) :
    NoSetup (events ++ [e]) c := by
  intro t o hmem
  rcases List.mem_append.mp hmem with hold | hnew
  · exact h t o hold
  · exact he t o (List.mem_singleton.mp hnew).symm

theorem RollsBack.append {new : List Event} (h : RollsBack events c t)
    (hnew : ∀ e ∈ new, e.caller ≠ c) : RollsBack (events ++ new) c t := by
  obtain ⟨o,ho⟩ := h.ranSetup
  refine ⟨List.mem_append_left _ h.created,⟨o,List.mem_append_left _ ho⟩,?_⟩
  intro o' hmem
  rcases List.mem_append.mp hmem with hold | hnew'
  · exact h.failed o' hold
  · exact absurd rfl (hnew _ hnew')

/-- Another call's step leaves a call where it is. -/
theorem StageFits.other (h : StageFits w k) {new : List Event}
    (hevents : w'.events = w.events ++ new) (hnew : ∀ e ∈ new, e.caller ≠ k.caller)
    (hdatabase : k.stage.inside = true → w'.databases k.template = w.databases k.template) :
    StageFits w' k := by
  unfold StageFits at h ⊢
  rw [hevents]
  split at h
  · exact h.append hnew
  · exact h.append hnew
  · exact h.append hnew
  · next hstage =>
    rw [hdatabase (by rw [hstage]; rfl)]
    exact ⟨h.1.append hnew,h.2⟩
  · next hstage =>
    rw [hdatabase (by rw [hstage]; rfl)]
    exact ⟨h.1.append hnew,h.2.1,List.mem_append_left _ h.2.2⟩
  · next hstage =>
    rw [hdatabase (by rw [hstage]; rfl)]
    exact ⟨h.1,h.2.1.append hnew,List.mem_append_left _ h.2.2⟩
  · exact h.mono
  · exact h.mono
  · trivial

/-- What a step adds to the record, and which database it may touch. -/
theorem step_effect (h : LocksFit calls w ghosts) {op : Op} {r : Reply op} (hok : g.allows op)
    (ha : answer w op r = some w') :
    ∃ new, w'.events = w.events ++ new ∧ (∀ e ∈ new, e.caller = g.caller) ∧
      ∀ t, t ≠ g.template ∨ g.stage.inside = false → w'.databases t = w.databases t := by
  have hput : ∀ (e : Event) (success : Bool) (database : Option Bool), e.caller = g.caller →
      g.stage.inside = true → w' = w.put e success g.template database →
      ∃ new, w'.events = w.events ++ new ∧ (∀ e ∈ new, e.caller = g.caller) ∧
        ∀ t, t ≠ g.template ∨ g.stage.inside = false → w'.databases t = w.databases t := by
    rintro e success database he hin rfl
    refine ⟨[e],put_events,by simpa using he,?_⟩
    intro t ht
    rw [put_databases]
    split
    · refine Function.update_of_ne (ht.resolve_right ?_) _ _
      simp [hin]
    · rfl
  cases op with
  | entry name =>
    obtain ⟨_,_,_,_,_,hdatabases,hevents⟩ := answer_entry ha h
    exact ⟨[],by rw [hevents,List.append_nil],by simp,fun t _ => by rw [hdatabases]⟩
  | lock m =>
    obtain ⟨_,rfl⟩ := answer_lock ha
    exact ⟨[],(List.append_nil _).symm,by simp,fun _ _ => rfl⟩
  | unlock m p =>
    cases ha
    exact ⟨[],(List.append_nil _).symm,by simp,fun _ _ => rfl⟩
  | databaseExists c t =>
    obtain ⟨_,rfl,rfl⟩ := hok
    obtain ⟨_,rfl⟩ := answer_check ha
    exact ⟨[_],rfl,by simp [Event.caller],fun _ _ => rfl⟩
  | createDatabase c t =>
    obtain ⟨hstage,rfl,rfl⟩ := hok
    exact hput _ _ _ rfl (by rw [hstage]; rfl) (answer_create ha).2
  | setupFn c t =>
    obtain ⟨hstage,rfl,rfl⟩ := hok
    exact hput _ _ _ rfl (by rw [hstage]; rfl) (answer_setup ha)
  | dropDatabase c t =>
    obtain ⟨⟨o,hstage,_⟩,rfl,rfl⟩ := hok
    exact hput _ _ _ rfl (by rw [hstage]; rfl) (answer_drop ha)
  | ended c t o =>
    obtain ⟨_,rfl,rfl⟩ := hok
    cases ha
    exact ⟨[_],rfl,by simp [Event.caller],fun _ _ => rfl⟩

theorem accounted_rollback {o : SetupOutcome} {r : BootstrapResult Unit}
    (hfailed : o ≠ .returned (.ok ())) (hran : .ranSetup c t o ∈ events) :
    Accounted events c t (rollbackResult o r) := by
  have hown : OwnFailure events c t := .inr (.inr ⟨o,hfailed,hran⟩)
  rcases o with (e | u) | p
  · cases r <;> exact hown
  · exact absurd rfl hfailed
  · rcases r with e | u
    · exact hown
    · exact hran

/-- The call that takes the step goes on to its next stage. -/
theorem StageFits.step (h : StageFits w g) (hlocks : LocksFit calls w ghosts) {op : Op}
    {r : Reply op} (hok : g.allows op) (ha : answer w op r = some w') :
    StageFits w' (g.after op r) := by
  cases op with
  | entry name =>
    obtain ⟨_,_,_,_,_,hdatabases,hevents⟩ := answer_entry ha hlocks
    have hfits : NoSetup w.events g.caller := by simpa [StageFits,hok.1] using h
    change NoSetup w'.events g.caller
    rwa [hevents]
  | lock m =>
    obtain ⟨_,rfl⟩ := answer_lock ha
    have hfits : NoSetup w.events g.caller := by simpa [StageFits,hok.1] using h
    exact hfits
  | unlock m p =>
    obtain ⟨⟨o,hstage,rfl⟩,_⟩ := hok
    cases ha
    have hfits : Accounted w.events g.caller g.template o := by simpa [StageFits,hstage] using h
    simpa [StageFits,Ghost.after,Stage.after,hstage] using hfits
  | databaseExists c t =>
    obtain ⟨hstage,rfl,rfl⟩ := hok
    obtain ⟨hfound,rfl⟩ := answer_check ha
    have hfits : NoSetup w.events g.caller := by simpa [StageFits,hstage] using h
    rcases r with e | _ | _
    · exact .inl ⟨e,by simp⟩
    · refine ⟨hfits.snoc (fun _ _ => by simp),?_⟩
      have hnone := hfound false rfl
      simpa using hnone.symm
    · trivial
  | createDatabase c t =>
    obtain ⟨hstage,rfl,rfl⟩ := hok
    obtain ⟨_,rfl⟩ := answer_create ha
    have hfits : NoSetup w.events g.caller ∧ w.databases g.template = none := by
      simpa [StageFits,hstage] using h
    rcases r with e | _
    · exact .inr (.inl ⟨e,by simp⟩)
    · refine ⟨?_,by simp [put_databases],by simp⟩
      rw [put_events]
      exact hfits.1.snoc (fun _ _ => by simp)
  | setupFn c t =>
    obtain ⟨hstage,rfl,rfl⟩ := hok
    obtain rfl := answer_setup ha
    have hfits : NoSetup w.events g.caller ∧ w.databases g.template = some false ∧
        .created g.caller g.template (.ok ()) ∈ w.events := by simpa [StageFits,hstage] using h
    have hrolls : ∀ o, o ≠ .returned (.ok ()) → StageFits
        (w.put (.ranSetup g.caller g.template o) (o = .returned (.ok ())) g.template
          ((w.databases g.template).map fun _ => true)) { g with stage := .rollingBack o } := by
      intro o ho
      have hran : Event.ranSetup g.caller g.template o ∈
          w.events ++ [.ranSetup g.caller g.template o] := by simp
      refine ⟨by simp [put_databases,ho,hfits.2.1],?_,by simp⟩
      rw [put_events]
      refine ⟨List.mem_append_left _ hfits.2.2,⟨o,hran⟩,?_⟩
      intro o' hmem
      rcases List.mem_append.mp hmem with hold | hnew
      · exact absurd hold (hfits.1 _ _)
      · simp only [List.mem_singleton,Event.ranSetup.injEq] at hnew
        rw [hnew.2.2]
        exact ho
    rcases r with (e | u) | p
    · exact hrolls _ (by simp)
    · trivial
    · exact hrolls _ (by simp)
  | dropDatabase c t =>
    obtain ⟨⟨o,hstage,hfailed⟩,rfl,rfl⟩ := hok
    obtain rfl := answer_drop ha
    have hfits : w.databases g.template = some false ∧
        RollsBack w.events g.caller g.template ∧
          .ranSetup g.caller g.template o ∈ w.events := by simpa [StageFits,hstage] using h
    have haccounted : Accounted (w.events ++ [.dropped g.caller g.template r]) g.caller g.template
        (rollbackResult o r) := (accounted_rollback hfailed hfits.2.2).mono
    simpa [StageFits,Ghost.after,Stage.after,hstage] using haccounted
  | ended c t o =>
    trivial

theorem StageFits.rollsBack (h : StageFits w g) {o : SetupOutcome}
    (hstage : g.stage = .rollingBack o) : w.databases g.template = some false := by
  simp only [StageFits,hstage] at h
  exact h.1

theorem StageFits.setsUp (h : StageFits w g) (hstage : g.stage = .settingUp) :
    w.databases g.template = some false := by
  simp only [StageFits,hstage] at h
  exact h.2.1

/-- What a setup has completed on stays set up. -/
theorem StageFits.keeps_ready (h : StageFits w g) (hlocks : LocksFit calls w ghosts) {op : Op}
    {r : Reply op} (hok : g.allows op) (ha : answer w op r = some w') {t : Template}
    (hready : w.databases t = some true) : w'.databases t = some true := by
  have hput : ∀ (e : Event) (success : Bool) (database : Option Bool),
      w.databases g.template ≠ some true → w' = w.put e success g.template database →
      w'.databases t = some true := by
    rintro e success database hnot rfl
    have htt : t ≠ g.template := by
      rintro rfl
      exact hnot hready
    rw [put_databases]
    split
    · rwa [Function.update_of_ne htt]
    · exact hready
  cases op with
  | entry name =>
    obtain ⟨_,_,_,_,_,hdatabases,_⟩ := answer_entry ha hlocks
    rwa [hdatabases]
  | lock m =>
    obtain ⟨_,rfl⟩ := answer_lock ha
    exact hready
  | unlock m p =>
    cases ha
    exact hready
  | databaseExists c t' =>
    obtain ⟨_,rfl⟩ := answer_check ha
    exact hready
  | createDatabase c t' =>
    obtain ⟨hstage,rfl,rfl⟩ := hok
    have hnone : w.databases g.template = none := by
      simp only [StageFits,hstage] at h
      exact h.2
    exact hput _ _ _ (by simp [hnone]) (answer_create ha).2
  | setupFn c t' =>
    obtain ⟨hstage,rfl,rfl⟩ := hok
    exact hput _ _ _ (by simp [h.setsUp hstage]) (answer_setup ha)
  | dropDatabase c t' =>
    obtain ⟨⟨o,hstage,_⟩,rfl,rfl⟩ := hok
    exact hput _ _ _ (by simp [h.rollsBack hstage]) (answer_drop ha)
  | ended c t' o =>
    cases ha
    exact hready

/-! ### The record -/

theorem snoc_split {α : Type} {xs before after : List α} {x : α}
    (h : xs ++ [x] = before ++ after) :
    after = [] ∧ before = xs ++ [x] ∨ ∃ after', after = after' ++ [x] ∧ xs = before ++ after' := by
  rcases List.eq_nil_or_concat after with rfl | ⟨after',y,rfl⟩
  · exact .inl ⟨rfl,by simpa using h.symm⟩
  · rw [List.concat_eq_append,← List.append_assoc] at h
    obtain ⟨hxs,hx⟩ := List.append_inj' h rfl
    cases hx
    exact .inr ⟨after',List.concat_eq_append,hxs⟩

/-- Since the last drop at most one setup has succeeded, and only on a database that is there. -/
def Recent (w : World) (t : Template) : Prop :=
  ∀ before middle, w.events = before ++ middle → (∀ e ∈ middle, e.isDrop t = false) →
    middle.countP (Event.isSetup t) ≤ if w.databases t = some true then 1 else 0

/-- Between two drops at most one setup succeeds. -/
def Once (events : List Event) (t : Template) : Prop :=
  ∀ before middle after, events = before ++ middle ++ after →
    (∀ e ∈ middle, e.isDrop t = false) → middle.countP (Event.isSetup t) ≤ 1

/-- A drop is only asked for by a call that has made the database and failed to set it up. -/
def DropsOwn (events : List Event) : Prop :=
  ∀ before after c t r, events = before ++ .dropped c t r :: after → RollsBack before c t

def EndsAccounted (events : List Event) : Prop :=
  ∀ c t r d, .ended c t r d ∈ events → Accounted events c t r

theorem Recent.snoc {e : Event} (h : Recent w t) (hevents : w'.events = w.events ++ [e])
    (he : e.isDrop t = true ∨
      e.isSetup t = true ∧ w.databases t ≠ some true ∧ w'.databases t = some true ∨
      e.isSetup t = false ∧ (w.databases t = some true → w'.databases t = some true)) :
    Recent w' t := by
  intro before middle hsplit hnodrop
  rw [hevents] at hsplit
  rcases snoc_split hsplit with ⟨rfl,_⟩ | ⟨middle',rfl,hold⟩
  · simp
  · have hcount := h before middle' hold (fun e' he' => hnodrop e' (List.mem_append_left _ he'))
    rw [List.countP_append,List.countP_singleton]
    rcases he with hdrop | ⟨hsetup,hnot,hdone⟩ | ⟨hsetup,hkeep⟩
    · rw [hnodrop e (by simp)] at hdrop
      cases hdrop
    · rw [if_neg hnot] at hcount
      rw [if_pos hsetup,if_pos hdone]
      omega
    · rw [hsetup]
      by_cases hdone : w.databases t = some true
      · rw [if_pos hdone] at hcount
        simpa [hkeep hdone] using hcount
      · rw [if_neg hdone] at hcount
        simp only [Bool.false_eq_true,if_false]
        omega

theorem Once.snoc {e : Event} (h : Once w.events t) (hevents : w'.events = w.events ++ [e])
    (hrecent : Recent w' t) : Once w'.events t := by
  intro before middle after hsplit hnodrop
  by_cases hafter : after = []
  · subst hafter
    rw [List.append_nil] at hsplit
    have hcount := hrecent before middle hsplit hnodrop
    split at hcount <;> omega
  · rw [hevents] at hsplit
    rcases snoc_split hsplit with ⟨hnil,_⟩ | ⟨after',rfl,hold⟩
    · exact absurd hnil hafter
    · exact h before middle after' hold hnodrop

theorem DropsOwn.snoc {e : Event} (h : DropsOwn events)
    (he : ∀ c t r, e = .dropped c t r → RollsBack events c t) : DropsOwn (events ++ [e]) := by
  intro before after c t r hsplit
  rcases snoc_split hsplit with ⟨hnil,_⟩ | ⟨after',hafter,hold⟩
  · cases hnil
  · cases after' with
    | nil =>
      simp only [List.nil_append,List.cons.injEq] at hafter
      rw [List.append_nil] at hold
      rw [← hold]
      exact he c t r hafter.1.symm
    | cons e' rest =>
      simp only [List.cons_append,List.cons.injEq] at hafter
      rw [← hafter.1] at hold
      exact h before rest c t r hold

theorem EndsAccounted.snoc {e : Event} (h : EndsAccounted events)
    (he : ∀ c t r d, e = .ended c t r d → Accounted events c t r) :
    EndsAccounted (events ++ [e]) := by
  intro c t r d hmem
  rcases List.mem_append.mp hmem with hold | hnew
  · exact (h c t r d hold).mono
  · exact (he c t r d (List.mem_singleton.mp hnew).symm).mono

structure EventsFit (w : World) : Prop where
  recent : ∀ t, Recent w t
  once : ∀ t, Once w.events t
  drops : DropsOwn w.events
  ends : EndsAccounted w.events

theorem EventsFit.snoc {e : Event} (h : EventsFit w) (hevents : w'.events = w.events ++ [e])
    (hrecent : ∀ t, e.isDrop t = true ∨
      e.isSetup t = true ∧ w.databases t ≠ some true ∧ w'.databases t = some true ∨
      e.isSetup t = false ∧ (w.databases t = some true → w'.databases t = some true))
    (hdrop : ∀ c t r, e = .dropped c t r → RollsBack w.events c t)
    (hended : ∀ c t r d, e = .ended c t r d → Accounted w.events c t r) : EventsFit w' := by
  have hnew : ∀ t, Recent w' t := fun t => (h.recent t).snoc hevents (hrecent t)
  refine ⟨hnew,fun t => (h.once t).snoc hevents (hnew t),?_,?_⟩
  · rw [hevents]
    exact h.drops.snoc hdrop
  · rw [hevents]
    exact h.ends.snoc hended

theorem EventsFit.keep (h : EventsFit w) (hevents : w'.events = w.events)
    (hdatabases : w'.databases = w.databases) : EventsFit w' := by
  refine ⟨?_,?_,?_,?_⟩
  · intro t
    unfold Recent
    rw [hevents,hdatabases]
    exact h.recent t
  · rw [hevents]
    exact h.once
  · rw [hevents]
    exact h.drops
  · rw [hevents]
    exact h.ends

theorem EventsFit.step (h : EventsFit w) (hlocks : LocksFit calls w ghosts) (hfits : StageFits w g)
    {op : Op} {r : Reply op} (hok : g.allows op) (ha : answer w op r = some w') : EventsFit w' := by
  have hkeep : ∀ t, w.databases t = some true → w'.databases t = some true :=
    fun t => hfits.keeps_ready hlocks hok ha
  cases op with
  | entry name =>
    obtain ⟨_,_,_,_,_,hdatabases,hevents⟩ := answer_entry ha hlocks
    exact h.keep hevents hdatabases
  | lock m =>
    obtain ⟨_,rfl⟩ := answer_lock ha
    exact h.keep rfl rfl
  | unlock m p =>
    cases ha
    exact h.keep rfl rfl
  | databaseExists c t =>
    obtain ⟨_,rfl⟩ := answer_check ha
    exact h.snoc rfl (fun _ => .inr (.inr ⟨rfl,id⟩)) (by simp) (by simp)
  | createDatabase c t =>
    obtain ⟨_,rfl⟩ := answer_create ha
    exact h.snoc put_events (fun t' => .inr (.inr ⟨rfl,hkeep t'⟩)) (by simp) (by simp)
  | setupFn c t =>
    obtain ⟨hstage,rfl,rfl⟩ := hok
    have hdatabase := hfits.setsUp hstage
    obtain rfl := answer_setup ha
    refine h.snoc put_events (fun t' => .inr ?_) (by simp) (by simp)
    by_cases hdone : t' = g.template ∧ r = .returned (.ok ())
    · obtain ⟨rfl,rfl⟩ := hdone
      exact .inl ⟨by simp [Event.isSetup],by simp [hdatabase],by simp [put_databases,hdatabase]⟩
    · refine .inr ⟨?_,hkeep t'⟩
      by_cases htt : g.template = t'
      · simpa [Event.isSetup,htt] using hdone ∘ And.intro htt.symm
      · simp [Event.isSetup,htt]
  | dropDatabase c t =>
    obtain ⟨⟨o,hstage,_⟩,rfl,rfl⟩ := hok
    obtain rfl := answer_drop ha
    have hrolls : RollsBack w.events g.caller g.template := by
      simp only [StageFits,hstage] at hfits
      exact hfits.2.1
    refine h.snoc put_events (fun t' => .inr (.inr ⟨rfl,hkeep t'⟩)) ?_ (by simp)
    intro c' t' r' he
    cases he
    exact hrolls
  | ended c t o =>
    obtain ⟨hstage,rfl,rfl⟩ := hok
    cases ha
    refine h.snoc rfl (fun _ => .inr (.inr ⟨rfl,id⟩)) (by simp) ?_
    intro c' t' r' d he
    cases he
    simpa [StageFits,hstage] using hfits

/-! ### Every run -/

structure Tracked (calls : List Template) (w : World) (ghosts : List Ghost) : Prop where
  locks : LocksFit calls w ghosts
  stages : ∀ (i : Nat) (g : Ghost), ghosts[i]? = some g → StageFits w g
  events : EventsFit w

theorem Tracked.step (h : Tracked calls w ghosts) (hg : ghosts[i]? = some g) {op : Op}
    {r : Reply op} (hok : g.allows op) (ha : answer w op r = some w') :
    Tracked calls w' (ghosts.set i (g.after op r)) := by
  have hfits := h.stages i g hg
  obtain ⟨new,hevents,hnew,hdatabases⟩ := step_effect h.locks hok ha
  refine ⟨h.locks.step hg hok ha,?_,h.events.step h.locks hfits hok ha⟩
  intro j k hk
  rcases getElem?_set_some hk with ⟨_,rfl⟩ | ⟨hji,hold⟩
  · exact hfits.step h.locks hok ha
  · refine (h.stages j k hold).other hevents ?_ ?_
    · intro e he
      rw [hnew e he,(h.locks.own i g hg).1,(h.locks.own j k hold).1]
      exact Ne.symm hji
    · intro hin
      refine hdatabases k.template ?_
      by_cases hgin : g.stage.inside = true
      · refine .inl fun htt => hji ?_
        exact h.locks.same hold hg hin hgin (by rw [htt])
      · exact .inr (by simpa using hgin)

theorem stages_preserves (calls : List Template) :
    Preserves machine stages (Tracked calls) Uncut := by
  refine ⟨?_,?_,?_⟩
  · intro s i op r w ghosts g _ ha hj hg hok
    exact ⟨_,[],rfl,.nil,by rw [List.append_nil]; exact hj.step hg hok ha⟩
  · intro s i ghosts hcut
    exact hcut.elim
  · intro s e
    exact e.elim

/-- Every call before its first step. -/
def outside (calls : List Template) : List Ghost :=
  calls.mapIdx fun c t => ⟨c,t,none,.outside⟩

theorem outside_getElem? (hg : (outside calls)[i]? = some g) :
    ∃ t, calls[i]? = some t ∧ g = ⟨i,t,none,.outside⟩ := by
  rw [outside,List.getElem?_mapIdx,Option.map_eq_some_iff] at hg
  obtain ⟨t,ht,rfl⟩ := hg
  exact ⟨t,ht,rfl⟩

theorem begin_safe (calls : List Template) :
    List.Forall₂ stages.Safe (begin calls).threads (outside calls) := by
  rw [begin,outside,List.forall₂_iff_get]
  refine ⟨by simp,fun i hi hi' => ?_⟩
  simp only [List.get_eq_getElem,List.getElem_mapIdx]
  exact ensureTemplateExists_safe i _

theorem begin_tracked (calls : List Template) :
    Tracked calls (begin calls).world (outside calls) := by
  refine ⟨⟨?_,?_,?_,?_,?_,?_,?_,?_⟩,?_,?_⟩
  · intro i g hg
    obtain ⟨t,ht,rfl⟩ := outside_getElem? hg
    exact ⟨rfl,ht⟩
  · intro i g m hg hm
    obtain ⟨t,ht,rfl⟩ := outside_getElem? hg
    cases hm
  · intro i g hg hne
    obtain ⟨t,ht,rfl⟩ := outside_getElem? hg
    exact absurd rfl hne
  · intro name m hm
    cases hm
  · intro name name' m hm
    cases hm
  · intro i g m hg hin
    obtain ⟨t,ht,rfl⟩ := outside_getElem? hg
    cases hin
  · intro m hm
    cases hm
  · intro i j g g' m hg hg' hin
    obtain ⟨t,ht,rfl⟩ := outside_getElem? hg
    cases hin
  · intro i g hg
    obtain ⟨t,ht,rfl⟩ := outside_getElem? hg
    exact fun _ _ hmem => by cases hmem
  · have hnil : ∀ before middle : List Event, [] = before ++ middle → middle = [] :=
      fun before middle h => (List.append_eq_nil_iff.mp h.symm).2
    refine ⟨?_,?_,?_,?_⟩
    · intro t before middle hsplit _
      rw [hnil _ _ hsplit]
      simp
    · intro t before middle after hsplit _
      have hboth := (List.append_eq_nil_iff.mp hsplit.symm).1
      rw [(List.append_eq_nil_iff.mp hboth).2]
      simp
    · intro before after c t r hsplit
      cases hnil _ _ hsplit
    · intro c t r d hmem
      cases hmem

theorem ensures_tracked {s : State} (h : (ensures calls).Reachable s) :
    Outlined stages (Tracked calls) s :=
  outlined_reachable (stages_preserves calls)
    (fun s hs => by
      rw [show s = begin calls from hs]
      exact ⟨_,begin_safe calls,begin_tracked calls⟩) h

end PgEmbedSetup.Templates
