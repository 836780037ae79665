import PgEmbedSetup.Templates.Stages

set_option autoImplicit false

/-! One caller of a name at a time, and what each of them does in its turn. -/

namespace PgEmbedSetup.Templates
open Library

variable {calls : List Template} {w w' : World} {ghosts : List Ghost} {i : Nat} {g g' : Ghost}

/-! ### What an answer says -/

theorem answer_lock {m : Nat} {poisoned : Bool} (h : answer w (.lock m) poisoned = some w') :
    (w.mutexes m).locked = false ∧ w' = w.setMutex m ⟨true,poisoned⟩ := by
  simp only [answer] at h
  split at h
  · cases h
  · next hfree =>
    split at h
    · exact ⟨by simpa using hfree,(Option.some.inj h).symm⟩
    · cases h

theorem answer_check {c : Caller} {t : Template} {r : BootstrapResult Bool}
    (h : answer w (.databaseExists c t) r = some w') :
    (∀ found, r = .ok found → found = (w.databases t).isSome) ∧ w' = w.log (.checked c t r) := by
  simp only [answer] at h
  split at h
  · next hadmits =>
    refine ⟨?_,(Option.some.inj h).symm⟩
    rintro found rfl
    simpa [admits] using hadmits
  · cases h

/-- What a successful operation leaves, against a failed one. -/
def World.put (w : World) (e : Event) (success : Bool) (t : Template) (database : Option Bool) :
    World :=
  if success then (w.log e).setDatabase t database else w.log e

theorem answer_create {c : Caller} {t : Template} {r : BootstrapResult Unit}
    (h : answer w (.createDatabase c t) r = some w') :
    (r = .ok () → w.databases t = none) ∧
      w' = w.put (.created c t r) (r = .ok ()) t (some false) := by
  simp only [answer] at h
  split at h
  · next hadmits =>
    refine ⟨?_,?_⟩
    · rintro rfl
      simpa [admits] using hadmits
    · simp only [World.put,decide_eq_true_eq]
      exact (Option.some.inj h).symm
  · cases h

theorem answer_setup {c : Caller} {t : Template} {o : SetupOutcome}
    (h : answer w (.setupFn c t) o = some w') :
    w' = w.put (.ranSetup c t o) (o = .returned (.ok ())) t
      ((w.databases t).map fun _ => true) := by
  simp only [answer] at h
  simp only [World.put,decide_eq_true_eq]
  exact (Option.some.inj h).symm

theorem answer_drop {c : Caller} {t : Template} {r : BootstrapResult Unit}
    (h : answer w (.dropDatabase c t) r = some w') :
    w' = w.put (.dropped c t r) (r = .ok ()) t none := by
  simp only [answer] at h
  split at h
  · simp only [World.put,decide_eq_true_eq]
    exact (Option.some.inj h).symm
  · cases h

section Put
variable {e : Event} {success : Bool} {t : Template} {database : Option Bool}

@[simp] theorem put_locks : (w.put e success t database).locks = w.locks := by
  unfold World.put
  split <;> rfl

@[simp] theorem put_fresh : (w.put e success t database).fresh = w.fresh := by
  unfold World.put
  split <;> rfl

@[simp] theorem put_mutexes : (w.put e success t database).mutexes = w.mutexes := by
  unfold World.put
  split <;> rfl

@[simp] theorem put_events : (w.put e success t database).events = w.events ++ [e] := by
  unfold World.put
  split <;> rfl

theorem put_databases : (w.put e success t database).databases =
    if success then Function.update w.databases t database else w.databases := by
  unfold World.put
  split <;> rfl

end Put

/-! ### The locks -/

/-- Each name has one mutex, no other name has it, and it is locked while a call is inside. -/
structure LocksFit (calls : List Template) (w : World) (ghosts : List Ghost) : Prop where
  own : ∀ (i : Nat) (g : Ghost), ghosts[i]? = some g → g.caller = i ∧ calls[i]? = some g.template
  entered : ∀ (i : Nat) (g : Ghost) m, ghosts[i]? = some g → g.mutex = some m → w.locks g.template.name = some m
  needed : ∀ (i : Nat) (g : Ghost), ghosts[i]? = some g → g.stage ≠ .outside → g.mutex.isSome = true
  fresh : ∀ name m, w.locks name = some m → m < w.fresh
  apart : ∀ name name' m, w.locks name = some m → w.locks name' = some m → name = name'
  held : ∀ (i : Nat) (g : Ghost) m, ghosts[i]? = some g → g.stage.inside = true → g.mutex = some m →
    (w.mutexes m).locked = true
  holder : ∀ m, (w.mutexes m).locked = true →
    ∃ (i : Nat) (g : Ghost), ghosts[i]? = some g ∧ g.stage.inside = true ∧ g.mutex = some m
  alone : ∀ (i j : Nat) (g g' : Ghost) m, ghosts[i]? = some g → ghosts[j]? = some g' → g.stage.inside = true →
    g'.stage.inside = true → g.mutex = some m → g'.mutex = some m → i = j

theorem inside_ne_outside {s : Stage} (h : s.inside = true) : s ≠ .outside := by
  rintro rfl
  cases h

/-- Two calls inside with one name are one call. -/
theorem LocksFit.same (h : LocksFit calls w ghosts) {j : Nat} (hg : ghosts[i]? = some g)
    (hg' : ghosts[j]? = some g') (hin : g.stage.inside = true) (hin' : g'.stage.inside = true)
    (hname : g.template.name = g'.template.name) : i = j := by
  obtain ⟨m,hm⟩ := Option.isSome_iff_exists.mp (h.needed i g hg (inside_ne_outside hin))
  obtain ⟨m',hm'⟩ := Option.isSome_iff_exists.mp (h.needed j g' hg' (inside_ne_outside hin'))
  have hlock := h.entered i g m hg hm
  have hlock' := h.entered j g' m' hg' hm'
  rw [hname,hlock'] at hlock
  cases hlock
  exact h.alone i j g g' m hg hg' hin hin' hm hm'

/-- A step inside the region, or one after it. -/
theorem LocksFit.keep (h : LocksFit calls w ghosts) (hg : ghosts[i]? = some g)
    (hlocks : w'.locks = w.locks) (hfresh : w'.fresh = w.fresh) (hmutexes : w'.mutexes = w.mutexes)
    (hcaller : g'.caller = g.caller) (htemplate : g'.template = g.template)
    (hmutex : g'.mutex = g.mutex) (hstage : g.stage ≠ .outside)
    (hinside : g'.stage.inside = g.stage.inside) : LocksFit calls w' (ghosts.set i g') := by
  have hback : ∀ {j : Nat} {k : Ghost}, (ghosts.set i g')[j]? = some k → ∃ k₀, ghosts[j]? = some k₀ ∧
      k.caller = k₀.caller ∧ k.template = k₀.template ∧ k.mutex = k₀.mutex ∧
      k.stage.inside = k₀.stage.inside ∧ (k.stage ≠ .outside → k₀.stage ≠ .outside) := by
    intro j k hk
    rcases getElem?_set_some hk with ⟨rfl,rfl⟩ | ⟨_,hk⟩
    · exact ⟨g,hg,hcaller,htemplate,hmutex,hinside,fun _ => hstage⟩
    · exact ⟨k,hk,rfl,rfl,rfl,rfl,id⟩
  constructor
  · intro j k hk
    obtain ⟨k₀,hk₀,hc,ht,_⟩ := hback hk
    rw [hc,ht]
    exact h.own j k₀ hk₀
  · intro j k m hk hm
    obtain ⟨k₀,hk₀,_,ht,hmx,_⟩ := hback hk
    rw [hlocks,ht]
    exact h.entered j k₀ m hk₀ (hmx ▸ hm)
  · intro j k hk hne
    obtain ⟨k₀,hk₀,_,_,hmx,_,hout⟩ := hback hk
    rw [hmx]
    exact h.needed j k₀ hk₀ (hout hne)
  · rw [hlocks,hfresh]
    exact h.fresh
  · rw [hlocks]
    exact h.apart
  · intro j k m hk hin hm
    obtain ⟨k₀,hk₀,_,_,hmx,hi,_⟩ := hback hk
    rw [hmutexes]
    exact h.held j k₀ m hk₀ (hi ▸ hin) (hmx ▸ hm)
  · intro m hm
    rw [hmutexes] at hm
    obtain ⟨j,k,hk,hin,hmx⟩ := h.holder m hm
    by_cases hji : j = i
    · subst hji
      cases hg.symm.trans hk
      exact ⟨j,g',getElem?_set_here hg,hinside.trans hin,hmutex.trans hmx⟩
    · exact ⟨j,k,by rwa [List.getElem?_set_ne (Ne.symm hji)],hin,hmx⟩
  · intro j j' k k' m hk hk' hin hin' hm hm'
    obtain ⟨k₀,hk₀,_,_,hmx,hi,_⟩ := hback hk
    obtain ⟨k₀',hk₀',_,_,hmx',hi',_⟩ := hback hk'
    exact h.alone j j' k₀ k₀' m hk₀ hk₀' (hi ▸ hin) (hi' ▸ hin') (hmx ▸ hm) (hmx' ▸ hm')

/-- A call learns the mutex of its name, which no other name gets. -/
theorem LocksFit.entry (h : LocksFit calls w ghosts) (hg : ghosts[i]? = some g)
    (hstage : g.stage = .outside) {m : Nat} (hlock : w'.locks g.template.name = some m)
    (hgrow : ∀ name m, w.locks name = some m → w'.locks name = some m)
    (hfresh : ∀ name m, w'.locks name = some m → m < w'.fresh)
    (hapart : ∀ name name' m, w'.locks name = some m → w'.locks name' = some m → name = name')
    (hmutexes : w'.mutexes = w.mutexes) :
    LocksFit calls w' (ghosts.set i { g with mutex := some m, stage := .waiting }) := by
  refine ⟨forall_set (h.own i g hg) h.own,?_,?_,hfresh,hapart,?_,?_,?_⟩
  · intro j k m' hk hm
    rcases getElem?_set_some hk with ⟨rfl,rfl⟩ | ⟨_,hk⟩
    · cases hm
      exact hlock
    · exact hgrow _ _ (h.entered j k m' hk hm)
  · exact forall_set (fun _ => rfl) h.needed
  · intro j k m' hk hin hm
    rw [hmutexes]
    rcases getElem?_set_some hk with ⟨rfl,rfl⟩ | ⟨_,hk⟩
    · cases hin
    · exact h.held j k m' hk hin hm
  · intro m' hm
    rw [hmutexes] at hm
    obtain ⟨j,k,hk,hin,hmx⟩ := h.holder m' hm
    have hji : j ≠ i := by
      rintro rfl
      cases hg.symm.trans hk
      exact inside_ne_outside hin hstage
    exact ⟨j,k,by rwa [List.getElem?_set_ne hji.symm],hin,hmx⟩
  · intro j j' k k' m' hk hk' hin hin' hm hm'
    rcases getElem?_set_some hk with ⟨rfl,rfl⟩ | ⟨_,hk⟩
    · cases hin
    · rcases getElem?_set_some hk' with ⟨rfl,rfl⟩ | ⟨_,hk'⟩
      · cases hin'
      · exact h.alone j j' k k' m' hk hk' hin hin' hm hm'

/-- Going inside takes a mutex that nobody has. -/
theorem LocksFit.lock (h : LocksFit calls w ghosts) (hg : ghosts[i]? = some g) {m : Nat}
    (hstage : g.stage = .waiting) (hm : g.mutex = some m) (hfree : (w.mutexes m).locked = false)
    (poisoned : Bool) :
    LocksFit calls (w.setMutex m ⟨true,poisoned⟩) (ghosts.set i { g with stage := .checking }) := by
  have hnobody : ∀ (j : Nat) (k : Ghost), ghosts[j]? = some k → k.stage.inside = true →
      k.mutex ≠ some m := by
    intro j k hk hin hkm
    have hlocked := h.held j k m hk hin hkm
    rw [hfree] at hlocked
    cases hlocked
  refine ⟨forall_set (h.own i g hg) h.own,?_,?_,h.fresh,h.apart,?_,?_,?_⟩
  · intro j k m' hk hkm
    rcases getElem?_set_some hk with ⟨rfl,rfl⟩ | ⟨_,hk⟩
    · exact h.entered j g m' hg hkm
    · exact h.entered j k m' hk hkm
  · exact forall_set (fun _ => h.needed i g hg (by rw [hstage]; decide)) h.needed
  · intro j k m' hk hin hkm
    by_cases hmm : m' = m
    · simp [World.setMutex,hmm]
    · rcases getElem?_set_some hk with ⟨rfl,rfl⟩ | ⟨_,hk⟩
      · exact absurd (Option.some.inj (hkm.symm.trans hm)) hmm
      · simpa [World.setMutex,hmm] using h.held j k m' hk hin hkm
  · intro m' hlocked
    by_cases hmm : m' = m
    · exact ⟨i,_,getElem?_set_here hg,rfl,by rw [hmm]; exact hm⟩
    · obtain ⟨j,k,hk,hin,hkm⟩ := h.holder m' (by simpa [World.setMutex,hmm] using hlocked)
      have hji : j ≠ i := by
        rintro rfl
        cases hg.symm.trans hk
        rw [hstage] at hin
        cases hin
      exact ⟨j,k,by rwa [List.getElem?_set_ne hji.symm],hin,hkm⟩
  · intro j j' k k' m' hk hk' hin hin' hkm hkm'
    rcases getElem?_set_some hk with ⟨rfl,rfl⟩ | ⟨_,hold⟩
    · rcases getElem?_set_some hk' with ⟨rfl,_⟩ | ⟨_,hk'⟩
      · rfl
      · exact absurd (hkm'.trans (hkm.symm.trans hm)) (hnobody j' k' hk' hin')
    · rcases getElem?_set_some hk' with ⟨rfl,rfl⟩ | ⟨_,hold'⟩
      · exact absurd (hkm.trans (hkm'.symm.trans hm)) (hnobody j k hold hin)
      · exact h.alone j j' k k' m' hold hold' hin hin' hkm hkm'

/-- A call that goes outside frees its mutex, which no other call inside has. -/
theorem LocksFit.unlock (h : LocksFit calls w ghosts) (hg : ghosts[i]? = some g) {m : Nat}
    {r : Ended} (hstage : g.stage = .leaving r) (hm : g.mutex = some m) (poisoned : Bool) :
    LocksFit calls (w.setMutex m ⟨false,poisoned⟩) (ghosts.set i { g with stage := .left r }) := by
  have hinside : g.stage.inside = true := by rw [hstage]; rfl
  refine ⟨forall_set (h.own i g hg) h.own,?_,?_,h.fresh,h.apart,?_,?_,?_⟩
  · intro j k m' hk hkm
    rcases getElem?_set_some hk with ⟨rfl,rfl⟩ | ⟨_,hk⟩
    · exact h.entered j g m' hg hkm
    · exact h.entered j k m' hk hkm
  · exact forall_set (fun _ => h.needed i g hg (inside_ne_outside hinside)) h.needed
  · intro j k m' hk hin hkm
    rcases getElem?_set_some hk with ⟨rfl,rfl⟩ | ⟨hji,hk⟩
    · cases hin
    · have hmm : m' ≠ m := by
        rintro rfl
        exact hji (h.alone j i k g m' hk hg hin hinside hkm hm)
      simpa [World.setMutex,hmm] using h.held j k m' hk hin hkm
  · intro m' hlocked
    have hmm : m' ≠ m := by
      rintro rfl
      simp [World.setMutex] at hlocked
    obtain ⟨j,k,hk,hin,hkm⟩ := h.holder m' (by simpa [World.setMutex,hmm] using hlocked)
    have hji : j ≠ i := by
      rintro rfl
      cases hg.symm.trans hk
      exact hmm (Option.some.inj (hkm.symm.trans hm))
    exact ⟨j,k,by rwa [List.getElem?_set_ne hji.symm],hin,hkm⟩
  · intro j j' k k' m' hk hk' hin hin' hkm hkm'
    rcases getElem?_set_some hk with ⟨rfl,rfl⟩ | ⟨_,hk⟩
    · cases hin
    · rcases getElem?_set_some hk' with ⟨rfl,rfl⟩ | ⟨_,hk'⟩
      · cases hin'
      · exact h.alone j j' k k' m' hk hk' hin hin' hkm hkm'

theorem answer_entry {name : Text} {m : Nat} (h : answer w (.entry name) m = some w')
    (hw : LocksFit calls w ghosts) :
    w'.locks name = some m ∧ (∀ n m', w.locks n = some m' → w'.locks n = some m') ∧
      (∀ n m', w'.locks n = some m' → m' < w'.fresh) ∧
      (∀ n n' m', w'.locks n = some m' → w'.locks n' = some m' → n = n') ∧
      w'.mutexes = w.mutexes ∧ w'.databases = w.databases ∧ w'.events = w.events := by
  simp only [answer] at h
  split at h
  · next mutex hknown =>
    split at h
    · next hm =>
      cases h
      exact ⟨by rw [hknown,hm],fun _ _ h => h,hw.fresh,hw.apart,rfl,rfl,rfl⟩
    · cases h
  · next hnew =>
    split at h
    · next hm =>
      subst hm
      cases h
      have hold : ∀ n m', Function.update w.locks name (some w.fresh) n = some m' →
          n = name ∧ m' = w.fresh ∨ n ≠ name ∧ w.locks n = some m' := by
        intro n m' hn
        by_cases hname : n = name
        · subst hname
          simp only [Function.update_self,Option.some.injEq] at hn
          exact .inl ⟨rfl,hn.symm⟩
        · rw [Function.update_of_ne hname] at hn
          exact .inr ⟨hname,hn⟩
      refine ⟨Function.update_self _ _ _,?_,?_,?_,rfl,rfl,rfl⟩
      · intro n m' hn
        have hname : n ≠ name := by
          rintro rfl
          rw [hnew] at hn
          cases hn
        exact (Function.update_of_ne hname _ _).trans hn
      · intro n m' hn
        rcases hold n m' hn with ⟨_,rfl⟩ | ⟨_,hlock⟩
        · exact Nat.lt_succ_self _
        · exact Nat.lt_succ_of_lt (hw.fresh n m' hlock)
      · intro n n' m' hn hn'
        rcases hold n m' hn with ⟨rfl,rfl⟩ | ⟨_,hlock⟩
        · rcases hold n' _ hn' with ⟨rfl,_⟩ | ⟨_,hlock'⟩
          · rfl
          · exact absurd (hw.fresh n' _ hlock') (Nat.lt_irrefl _)
        · rcases hold n' m' hn' with ⟨rfl,rfl⟩ | ⟨_,hlock'⟩
          · exact absurd (hw.fresh n _ hlock) (Nat.lt_irrefl _)
          · exact hw.apart n n' m' hlock hlock'
    · cases h

theorem LocksFit.step (h : LocksFit calls w ghosts) (hg : ghosts[i]? = some g) {op : Op}
    {r : Reply op} (hok : g.allows op) (ha : answer w op r = some w') :
    LocksFit calls w' (ghosts.set i (g.after op r)) := by
  cases op with
  | entry name =>
    obtain ⟨hstage,rfl⟩ := hok
    obtain ⟨hlock,hgrow,hfresh,hapart,hmutexes,_⟩ := answer_entry ha h
    exact h.entry hg hstage hlock hgrow hfresh hapart hmutexes
  | lock m =>
    obtain ⟨hfree,rfl⟩ := answer_lock ha
    exact h.lock hg hok.1 hok.2 hfree r
  | unlock m p =>
    obtain ⟨⟨o,hstage,rfl⟩,hm⟩ := hok
    cases ha
    have hafter : g.after (.unlock m o.isPanic) r = { g with stage := .left o } := by
      simp [Ghost.after,mutexAfter,Stage.after,hstage]
    rw [hafter]
    exact h.unlock hg hstage hm _
  | databaseExists c t =>
    obtain ⟨_,rfl⟩ := answer_check ha
    refine h.keep hg rfl rfl rfl rfl rfl rfl (by rw [hok.1]; decide) ?_
    rcases r with e | _ | _ <;> simp [Ghost.after,Stage.after,hok.1,Stage.inside]
  | createDatabase c t =>
    obtain ⟨_,rfl⟩ := answer_create ha
    refine h.keep hg put_locks put_fresh put_mutexes rfl rfl rfl (by rw [hok.1]; decide) ?_
    rcases r with e | _ <;> simp [Ghost.after,Stage.after,hok.1,Stage.inside]
  | setupFn c t =>
    obtain rfl := answer_setup ha
    refine h.keep hg put_locks put_fresh put_mutexes rfl rfl rfl (by rw [hok.1]; decide) ?_
    rcases r with (e | _) | p <;> simp [Ghost.after,Stage.after,hok.1,Stage.inside]
  | dropDatabase c t =>
    obtain rfl := answer_drop ha
    obtain ⟨o,hstage,_⟩ := hok.1
    refine h.keep hg put_locks put_fresh put_mutexes rfl rfl rfl (by rw [hstage]; simp) ?_
    simp [Ghost.after,Stage.after,hstage,Stage.inside]
  | ended c t o =>
    cases ha
    refine h.keep hg rfl rfl rfl rfl rfl rfl (by rw [hok.1]; simp) ?_
    simp [Ghost.after,Stage.after,hok.1,Stage.inside]

end PgEmbedSetup.Templates
