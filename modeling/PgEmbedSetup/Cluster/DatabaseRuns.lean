import PgEmbedSetup.Cluster.DatabaseGuards
import PgEmbedSetup.Library.Logged

set_option autoImplicit false

/-!
What the guards of `src/cluster/temporary_database.rs` may do to each other's databases.
-/

namespace PgEmbedSetup.Cluster.Databases
open Library Library.SqlLexer Statements

/-! ### What the record tells -/

def Event.caller : Event → Caller
  | .created c _ _ | .dropped c _ _ | .disconnected c _ _ | .warned c | .returned c _ | .ended c _ => c

/-- The database is the caller's own, or the caller's own was gone before. -/
def Spares (before : List Event) (c : Caller) (name : Text) (oid : Nat) : Prop :=
  .created c name oid ∈ before ∨
    ∃ own c', .created c name own ∈ before ∧ .dropped c' name own ∈ before

section Record
variable (server : Server) (tasks : List Task)

def Accounted (before : List Event) : Event → Prop
  | .created _ name _ =>
    ∀ c own, .created c name own ∈ before → ∃ c', .dropped c' name own ∈ before
  | .dropped c name oid => (∀ c' name', .dropped c' name' oid ∉ before) ∧
    ((∃ n, tasks[c]? = some (.drop n)) ∨ ∃ t, tasks[c]? = some (.temporary t) ∧
      name = server.stored t.name ∧ Spares before c name oid ∧
      (t.parting = .scope → ∀ name' oid', .dropped c name' oid' ∉ before))
  | .disconnected c name oid => ∃ t, tasks[c]? = some (.temporary t) ∧ t.parting = .forceDrop ∧
    name = server.stored t.name ∧ Spares before c name oid
  | .ended c r => ∃ t own, tasks[c]? = some (.temporary t) ∧
    .created c (server.stored t.name) own ∈ before ∧
    (.warned c ∈ before ∨ ∃ c', .dropped c' (server.stored t.name) own ∈ before) ∧
    (r = some (.ok ()) → ∃ oid, .dropped c (server.stored t.name) oid ∈ before)
  | .warned _ | .returned _ _ => True

structure Fits (w : World) : Prop where
  catalog : Catalog server w
  standing : ∀ {name oid}, w.databases name = some oid → ∀ c name', .dropped c name' oid ∉ w.events
  created : ∀ {c name oid}, .created c name oid ∈ w.events → oid < w.fresh ∧
    (w.databases name = some oid ∨ ∃ c', .dropped c' name oid ∈ w.events)
  dropped : ∀ {c name oid}, .dropped c name oid ∈ w.events → oid < w.fresh
  unique : ∀ {c c' name name' oid}, .created c name oid ∈ w.events →
    .created c' name' oid ∈ w.events → c = c' ∧ name = name'
  single : ∀ {c t name name' oid oid'}, tasks[c]? = some (.temporary t) →
    .created c name oid ∈ w.events → .created c name' oid' ∈ w.events → oid = oid'
  accounted : EachAt (Accounted server tasks) w.events

structure GhostFits (events : List Event) (g : Ghost) : Prop where
  created : ∀ {name oid}, .created g.caller name oid ∈ events → g.created = true
  guard : ∀ {name}, g.Guards name → ∃ oid, .created g.caller (server.stored name) oid ∈ events
  dropped : ∀ {t}, g.task = .temporary t →
    (g.dropped = true ↔ ∃ oid, .dropped g.caller (server.stored t.name) oid ∈ events)
  warned : g.warned = true → .warned g.caller ∈ events

variable {server tasks} {w : World} {g : Ghost} {c : Caller} {name : Text} {oid : Nat}

theorem Fits.log (h : Fits server tasks w) {e : Event} (hcreated : ∀ c n o, e ≠ .created c n o)
    (hdropped : ∀ c n o, e ≠ .dropped c n o) (he : Accounted server tasks w.events e) :
    Fits server tasks (w.log e) := by
  have hc {c : Caller} {n : Text} {o : Nat} :
      .created c n o ∈ (w.log e).events ↔ .created c n o ∈ w.events := by
    simpa [World.log] using fun h => absurd h.symm (hcreated c n o)
  have hd {c : Caller} {n : Text} {o : Nat} :
      .dropped c n o ∈ (w.log e).events ↔ .dropped c n o ∈ w.events := by
    simpa [World.log] using fun h => absurd h.symm (hdropped c n o)
  refine ⟨⟨h.catalog.stored,h.catalog.fresh,h.catalog.apart⟩,?_,?_,?_,?_,?_,h.accounted.snoc he⟩
  · intro name oid hname c name'
    rw [hd]
    exact h.standing hname c name'
  · intro c name oid
    simp only [hc,hd]
    exact h.created
  · intro c name oid
    rw [hd]
    exact h.dropped
  · intro c c' name name' oid
    simp only [hc]
    exact h.unique
  · intro c t name name' oid oid' htask
    simp only [hc]
    exact h.single htask

theorem Fits.spares (h : Fits server tasks w) {own : Nat} (hown : .created c name own ∈ w.events)
    (hname : w.databases name = some oid) : Spares w.events c name oid := by
  rcases (h.created hown).2 with hstands | ⟨c',hgone⟩
  · rw [hname] at hstands
    cases hstands
    exact .inl hown
  · exact .inr ⟨own,c',hown,hgone⟩

theorem Catalog.create (h : Catalog server w) : Catalog server (w.create server c name) where
  stored := by
    intro n o hn
    simp only [World.create,Function.update_apply] at hn
    split at hn
    · next heq => rw [heq,server.stored_stored]
    · exact h.stored hn
  fresh := by
    intro n o hn
    simp only [World.create,Function.update_apply] at hn ⊢
    split at hn
    · cases hn
      omega
    · exact (h.fresh hn).trans (Nat.lt_succ_self _)
  apart := by
    intro n n' o hn hn'
    simp only [World.create,Function.update_apply] at hn hn'
    split at hn <;> split at hn'
    · next heq heq' => rw [heq,heq']
    · cases hn
      exact absurd (h.fresh hn') (Nat.lt_irrefl _)
    · cases hn'
      exact absurd (h.fresh hn) (Nat.lt_irrefl _)
    · exact h.apart hn hn'

theorem Catalog.drop (h : Catalog server w) : Catalog server (w.drop server c name oid) := by
  have hold {n : Text} {o : Nat} (hn : (w.drop server c name oid).databases n = some o) :
      w.databases n = some o := by
    simp only [World.drop,Function.update_apply] at hn
    split at hn
    · cases hn
    · exact hn
  exact ⟨fun hn => h.stored (hold hn),fun hn => h.fresh (hold hn),
    fun hn hn' => h.apart (hold hn) (hold hn')⟩

theorem Fits.create (h : Fits server tasks w)
    (hname : w.databases (server.stored name) = none)
    (hnone : ∀ t, tasks[c]? = some (.temporary t) → ∀ n o, .created c n o ∉ w.events) :
    Fits server tasks (w.create server c name) := by
  have hc {c' : Caller} {n : Text} {o : Nat}
      (hmem : .created c' n o ∈ (w.create server c name).events) :
      .created c' n o ∈ w.events ∨ c' = c ∧ n = server.stored name ∧ o = w.fresh := by
    simpa [World.create] using hmem
  have hd {c' : Caller} {n : Text} {o : Nat} :
      .dropped c' n o ∈ (w.create server c name).events ↔ .dropped c' n o ∈ w.events := by
    simp [World.create]
  refine ⟨h.catalog.create,?_,?_,?_,?_,?_,h.accounted.snoc ?_⟩
  · intro n o hn c' n'
    rw [hd]
    simp only [World.create,Function.update_apply] at hn
    split at hn
    · cases hn
      exact fun hgone => Nat.lt_irrefl _ (h.dropped hgone)
    · exact h.standing hn c' n'
  · intro c' n o hmem
    simp only [hd]
    rcases hc hmem with hold | ⟨rfl,rfl,rfl⟩
    · obtain ⟨hlt,hstands | hgone⟩ := h.created hold
      · refine ⟨hlt.trans (Nat.lt_succ_self _),.inl ?_⟩
        have hne : n ≠ server.stored name := by
          rintro rfl
          rw [hname] at hstands
          cases hstands
        simpa only [World.create,Function.update_of_ne hne] using hstands
      · exact ⟨hlt.trans (Nat.lt_succ_self _),.inr hgone⟩
    · exact ⟨Nat.lt_succ_self _,.inl (Function.update_self ..)⟩
  · intro c' n o hmem
    exact (h.dropped (hd.mp hmem)).trans (Nat.lt_succ_self _)
  · intro c₁ c₂ n₁ n₂ o h₁ h₂
    rcases hc h₁ with h₁ | ⟨hc₁,hn₁,ho₁⟩ <;> rcases hc h₂ with h₂ | ⟨hc₂,hn₂,ho₂⟩
    · exact h.unique h₁ h₂
    · exact absurd (ho₂ ▸ (h.created h₁).1) (Nat.lt_irrefl _)
    · exact absurd (ho₁ ▸ (h.created h₂).1) (Nat.lt_irrefl _)
    · exact ⟨hc₁.trans hc₂.symm,hn₁.trans hn₂.symm⟩
  · intro c' t n₁ n₂ o₁ o₂ htask h₁ h₂
    rcases hc h₁ with h₁ | ⟨hc₁,_,ho₁⟩ <;> rcases hc h₂ with h₂ | ⟨hc₂,_,ho₂⟩
    · exact h.single htask h₁ h₂
    · exact absurd h₁ (hc₂ ▸ hnone t (hc₂ ▸ htask) _ _)
    · exact absurd h₂ (hc₁ ▸ hnone t (hc₁ ▸ htask) _ _)
    · exact ho₁.trans ho₂.symm
  · intro c' own hown
    rcases (h.created hown).2 with hstands | hgone
    · rw [hname] at hstands
      cases hstands
    · exact hgone

theorem Fits.drop (h : Fits server tasks w)
    (hname : w.databases (server.stored name) = some oid)
    (hmay : (∃ n, tasks[c]? = some (.drop n)) ∨ ∃ t, tasks[c]? = some (.temporary t) ∧
      server.stored name = server.stored t.name ∧ Spares w.events c (server.stored name) oid ∧
      (t.parting = .scope → ∀ name' oid', .dropped c name' oid' ∉ w.events)) :
    Fits server tasks (w.drop server c name oid) := by
  have hc {c' : Caller} {n : Text} {o : Nat} :
      .created c' n o ∈ (w.drop server c name oid).events ↔ .created c' n o ∈ w.events := by
    simp [World.drop]
  have hd {c' : Caller} {n : Text} {o : Nat} :
      .dropped c' n o ∈ (w.drop server c name oid).events ↔
        .dropped c' n o ∈ w.events ∨ c' = c ∧ n = server.stored name ∧ o = oid := by
    simp [World.drop]
  refine ⟨h.catalog.drop,?_,?_,?_,?_,?_,h.accounted.snoc ⟨h.standing hname,hmay⟩⟩
  · intro n o hn c' n' hgone
    simp only [World.drop,Function.update_apply] at hn
    split at hn
    · cases hn
    · next hne =>
      rcases hd.mp hgone with hgone | ⟨_,_,rfl⟩
      · exact h.standing hn c' n' hgone
      · exact hne (h.catalog.apart hn hname)
  · intro c' n o hmem
    obtain ⟨hlt,hstands | ⟨d,hgone⟩⟩ := h.created (hc.mp hmem)
    · refine ⟨hlt,?_⟩
      by_cases hn : n = server.stored name
      · subst hn
        rw [hname] at hstands
        cases hstands
        exact .inr ⟨c,hd.mpr (.inr ⟨rfl,rfl,rfl⟩)⟩
      · left
        simpa only [World.drop,Function.update_of_ne hn] using hstands
    · exact ⟨hlt,.inr ⟨d,hd.mpr (.inl hgone)⟩⟩
  · intro c' n o hmem
    rcases hd.mp hmem with hmem | ⟨_,_,rfl⟩
    · exact h.dropped hmem
    · exact h.catalog.fresh hname
  · intro c₁ c₂ n₁ n₂ o h₁ h₂
    exact h.unique (hc.mp h₁) (hc.mp h₂)
  · intro c' t n₁ n₂ o₁ o₂ htask h₁ h₂
    exact h.single htask (hc.mp h₁) (hc.mp h₂)

/-- A guard's successful drop means that its own database is gone, dropped by whomever. -/
theorem Fits.own_gone (h : Fits server tasks w) {t : TemporaryDatabase} {own : Nat}
    (htask : tasks[c]? = some (.temporary t)) (hown : .created c name own ∈ w.events)
    (hdropped : .dropped c name oid ∈ w.events) : ∃ c', .dropped c' name own ∈ w.events := by
  obtain ⟨before,hbefore,_,⟨n,hdrop⟩ | ⟨_,_,_,hspares,_⟩⟩ := h.accounted.of_mem hdropped
  · rw [htask] at hdrop
    cases hdrop
  obtain hcreated | ⟨own',c',hcreated,hgone⟩ := hspares
  · exact ⟨c,h.single htask hown (hbefore.subset hcreated) ▸ hdropped⟩
  · exact ⟨c',h.single htask hown (hbefore.subset hcreated) ▸ hbefore.subset hgone⟩

/-- A guard drops what is kept under its own name. -/
theorem Fits.dropped_name (h : Fits server tasks w) {t : TemporaryDatabase}
    (htask : tasks[c]? = some (.temporary t)) (hdropped : .dropped c name oid ∈ w.events) :
    name = server.stored t.name := by
  obtain ⟨_,_,_,⟨n,hdrop⟩ | ⟨t',ht',hname,_⟩⟩ := h.accounted.of_mem hdropped
  · rw [htask] at hdrop
    cases hdrop
  · rw [htask] at ht'
    cases ht'
    exact hname

/-! ### Steps -/

theorem GhostFits.append {events new : List Event} (h : GhostFits server events g)
    (hcreated : ∀ n o, .created g.caller n o ∉ new) (hdropped : ∀ n o, .dropped g.caller n o ∉ new) :
    GhostFits server (events ++ new) g where
  created hmem := h.created ((List.mem_append.mp hmem).resolve_right (hcreated _ _))
  guard hguards := by
    obtain ⟨oid,hmem⟩ := h.guard hguards
    exact ⟨oid,List.mem_append_left _ hmem⟩
  dropped htask := by
    rw [h.dropped htask]
    refine exists_congr fun oid => ⟨List.mem_append_left _,fun hmem => ?_⟩
    exact (List.mem_append.mp hmem).resolve_right (hdropped _ _)
  warned hwarned := List.mem_append_left _ (h.warned hwarned)

/-- What a call makes of the world and of its own caller's ghost state. -/
structure Advances (server : Server) (tasks : List Task) (w : World) (g : Ghost) (w' : World)
    (g' : Ghost) : Prop where
  fits : Fits server tasks w'
  ghost : GhostFits server w'.events g'
  caller : g'.caller = g.caller
  task : g'.task = g.task
  events : ∃ new, w'.events = w.events ++ new ∧ ∀ e ∈ new, e.caller = g.caller

theorem Advances.same (h : Fits server tasks w) (hg : GhostFits server w.events g) :
    Advances server tasks w g w g :=
  ⟨h,hg,rfl,rfl,[],(List.append_nil _).symm,fun _ he => nomatch he⟩

theorem Advances.log (h : Fits server tasks w) (hg : GhostFits server w.events g) {e : Event}
    (hcreated : ∀ c n o, e ≠ .created c n o) (hdropped : ∀ c n o, e ≠ .dropped c n o)
    (hcaller : e.caller = g.caller) (he : Accounted server tasks w.events e) :
    Advances server tasks w g (w.log e) g :=
  ⟨h.log hcreated hdropped he,
    hg.append (fun n o hmem => hcreated _ n o (List.mem_singleton.mp hmem).symm)
      (fun n o hmem => hdropped _ n o (List.mem_singleton.mp hmem).symm),rfl,rfl,[e],rfl,
    fun e' he' => by rwa [List.mem_singleton.mp he']⟩

theorem create_advances (h : Fits server tasks w) (hg : GhostFits server w.events g)
    (htask : tasks[g.caller]? = some g.task) {template : Option Text} {served : Served}
    (hhappened : served.happened = true) (hmay : g.may (.createDatabase name template)) {w' : World}
    (happly : apply server w g.caller (.createDatabase name template) = some w') :
    Advances server tasks w g w' (g.act served (.createDatabase name template)) := by
  rw [apply,Option.ite_none_right_eq_some] at happly
  obtain ⟨⟨hnone,_⟩,heq⟩ := happly
  cases heq
  have htemporary {t : TemporaryDatabase} (ht : g.task = .temporary t) :
      name = t.name ∧ g.created = false := by
    simpa only [Ghost.may,ht] using hmay
  have hfresh : ∀ t, tasks[g.caller]? = some (.temporary t) →
      ∀ n o, .created g.caller n o ∉ w.events := by
    intro t ht n o hmem
    rw [htask] at ht
    have hcreated := hg.created hmem
    rw [(htemporary (Option.some.inj ht)).2] at hcreated
    cases hcreated
  refine ⟨h.create (Option.isNone_iff_eq_none.mp hnone) hfresh,?_,by simp,by simp,_,rfl,
    by simp [Event.caller]⟩
  refine ⟨fun _ => ?_,?_,fun {t} ht => ?_,fun hwarned => ?_⟩
  · simp [Ghost.act,hhappened]
  · rintro n ⟨_,t,ht,rfl⟩
    rw [← (htemporary ht).1]
    exact ⟨w.fresh,List.mem_append_right _ List.mem_cons_self⟩
  · have hsame : (g.act served (.createDatabase name template)).dropped = g.dropped := rfl
    rw [World.create,Ghost.act_caller,hsame]
    simpa using hg.dropped ht
  · exact List.mem_append_left _ (hg.warned hwarned)

theorem drop_advances (h : Fits server tasks w) (hg : GhostFits server w.events g)
    (htask : tasks[g.caller]? = some g.task) {served : Served}
    (hhappened : served.happened = true) (hmay : g.may (.dropDatabase name)) {w' : World}
    (happly : apply server w g.caller (.dropDatabase name) = some w') :
    Advances server tasks w g w' (g.act served (.dropDatabase name)) := by
  obtain ⟨oid,hname,rfl⟩ := Option.map_eq_some_iff.mp happly
  have hguards {t : TemporaryDatabase} (ht : g.task = .temporary t) :
      name = t.name ∧ g.Guards t.name ∧ (t.parting = .scope → g.dropped = false) := by
    simp only [Ghost.may,ht] at hmay
    exact ⟨hmay.1,⟨hmay.2.1,t,ht,rfl⟩,hmay.2.2⟩
  have hdrops : (∃ n, tasks[g.caller]? = some (.drop n)) ∨
      ∃ t, tasks[g.caller]? = some (.temporary t) ∧ server.stored name = server.stored t.name ∧
        Spares w.events g.caller (server.stored name) oid ∧
        (t.parting = .scope → ∀ name' oid', .dropped g.caller name' oid' ∉ w.events) := by
    cases ht : g.task with
    | create n template => simp [Ghost.may,ht] at hmay
    | drop n => exact .inl ⟨n,ht ▸ htask⟩
    | temporary t =>
      obtain ⟨rfl,hguards,honce⟩ := hguards ht
      obtain ⟨own,hown⟩ := hg.guard hguards
      rw [ht] at htask
      refine .inr ⟨t,htask,rfl,h.spares hown hname,fun hscope n o hmem => ?_⟩
      have hdropped := (hg.dropped ht).mpr ⟨o,h.dropped_name htask hmem ▸ hmem⟩
      rw [honce hscope] at hdropped
      cases hdropped
  refine ⟨h.drop hname hdrops,?_,by simp,by simp,_,rfl,by simp [Event.caller]⟩
  refine ⟨fun {n o} hmem => ?_,?_,fun {t} ht => ?_,fun hwarned => ?_⟩
  · rw [World.drop,Ghost.act_caller] at hmem
    exact hg.created (by simpa using hmem)
  · rintro n ⟨hguard,t,ht,rfl⟩
    obtain ⟨own,hown⟩ := hg.guard ⟨hguard,t,ht,rfl⟩
    exact ⟨own,List.mem_append_left _ hown⟩
  · obtain ⟨rfl,_⟩ := hguards ht
    simp [Ghost.act,hhappened,World.drop]
  · exact List.mem_append_left _ (hg.warned hwarned)

theorem disconnect_advances (h : Fits server tasks w) (hg : GhostFits server w.events g)
    (htask : tasks[g.caller]? = some g.task) (hforces : g.Forces name) :
    Advances server tasks w g (w.disconnect g.caller name) g := by
  rw [World.disconnect]
  split
  · exact .same h hg
  · next oid hname =>
    obtain ⟨hguard,t,ht,rfl,hparting⟩ := hforces
    have hstored := h.catalog.stored hname
    obtain ⟨own,hown⟩ := hg.guard ⟨hguard,t,ht,rfl⟩
    rw [hstored] at hown
    rw [ht] at htask
    exact .log h hg (by simp) (by simp) rfl ⟨t,htask,hparting,hstored.symm,h.spares hown hname⟩

theorem batch_advances (h : Fits server tasks w) (hg : GhostFits server w.events g)
    (htask : tasks[g.caller]? = some g.task) {ddl : Ddl} (hmay : g.may ddl) {served : Served}
    {w' : World} (ha : answer server w (.send g.caller (.batchExecute ddl.text)) served = some w') :
    ∃ g', g.next (.send g.caller (.batchExecute ddl.text)) served g' ∧
      Advances server tasks w g w' g' := by
  simp only [answer,Ghost.next] at ha ⊢
  split at ha
  · next hhappened =>
    obtain ⟨understood,hunderstood,happly⟩ := Option.bind_eq_some_iff.mp ha
    cases understands_text hunderstood
    simp only [if_pos hhappened]
    refine ⟨g.act served ddl,⟨ddl,hunderstood,rfl⟩,?_⟩
    cases ddl with
    | createDatabase name template => exact create_advances h hg htask hhappened hmay happly
    | dropDatabase name => exact drop_advances h hg htask hhappened hmay happly
  · next hrefused =>
    cases ha
    simp only [if_neg hrefused]
    exact ⟨g,rfl,.same h hg⟩

theorem execute_advances (h : Fits server tasks w) (hg : GhostFits server w.events g)
    (htask : tasks[g.caller]? = some g.task) (hforces : g.Forces name) {sql : Text} {served : Served}
    {w' : World} (ha : answer server w (.send g.caller (.execute sql [name])) served = some w') :
    Advances server tasks w g w' g := by
  simp only [answer] at ha
  split at ha
  · obtain ⟨n,hn,rfl⟩ := Option.map_eq_some_iff.mp ha
    rw [Option.ite_none_right_eq_some] at hn
    cases hn.2
    exact disconnect_advances h hg htask hforces
  · cases ha
    exact .same h hg

theorem ended_advances (h : Fits server tasks w) (hg : GhostFits server w.events g)
    (htask : tasks[g.caller]? = some g.task) {r : Option (BootstrapResult Unit)}
    (hok : g.allows (.ended g.caller r)) :
    Advances server tasks w g (w.log (.ended g.caller r)) g := by
  obtain ⟨_,⟨name,hguards⟩,hgone,hresult⟩ := hok
  obtain ⟨own,hown⟩ := hg.guard hguards
  obtain ⟨_,t,ht,rfl⟩ := hguards
  rw [ht] at htask
  refine .log h hg (by simp) (by simp) rfl ⟨t,own,htask,hown,?_,fun hr => (hg.dropped ht).mp (hresult hr)⟩
  rcases hgone with hdropped | hwarned
  · obtain ⟨oid,hdropped⟩ := (hg.dropped ht).mp hdropped
    exact .inr (h.own_gone htask hown hdropped)
  · exact .inl (hg.warned hwarned)

theorem warn_advances (h : Fits server tasks w) (hg : GhostFits server w.events g) :
    Advances server tasks w g (w.log (.warned g.caller)) { g with warned := true } := by
  obtain ⟨hfits,hghost,_,_,hevents⟩ := Advances.log h hg (e := .warned g.caller) (by simp) (by simp)
    rfl trivial
  exact ⟨hfits,⟨hghost.created,fun hguards => hghost.guard hguards,hghost.dropped,
    fun _ => List.mem_append_right _ List.mem_cons_self⟩,rfl,rfl,hevents⟩

theorem answer_advances (h : Fits server tasks w) (hg : GhostFits server w.events g)
    (htask : tasks[g.caller]? = some g.task) {op : Op} {r : Reply op} (hok : g.allows op) {w' : World}
    (ha : answer server w op r = some w') : ∃ g', g.next op r g' ∧ Advances server tasks w g w' g' := by
  cases op with
  | connectAdmin c =>
    cases ha
    exact ⟨g,rfl,.same h hg⟩
  | send c sent =>
    cases sent with
    | batchExecute sql =>
      obtain ⟨rfl,ddl,rfl,hmay⟩ := hok
      exact batch_advances h hg htask hmay ha
    | execute sql params =>
      obtain ⟨rfl,name,rfl,hforces⟩ := hok
      exact ⟨g,rfl,execute_advances h hg htask hforces ha⟩
  | warn c e =>
    cases hok
    cases ha
    exact ⟨_,rfl,warn_advances h hg⟩
  | returned c r =>
    cases hok
    cases ha
    exact ⟨g,rfl,.log h hg (by simp) (by simp) rfl trivial⟩
  | ended c r =>
    cases hok.1
    cases ha
    exact ⟨g,rfl,ended_advances h hg htask hok⟩

/-! ### Runs -/

structure Tracked (server : Server) (tasks : List Task) (w : World) (ghosts : List Ghost) : Prop where
  fits : Fits server tasks w
  ghosts : ∀ {i g}, ghosts[i]? = some g →
    g.caller = i ∧ tasks[i]? = some g.task ∧ GhostFits server w.events g

theorem Tracked.step {ghosts : List Ghost} (h : Tracked server tasks w ghosts) {i : Nat}
    (hg : ghosts[i]? = some g) {op : Op} {r : Reply op} (hok : g.allows op) {w' : World}
    (ha : answer server w op r = some w') :
    ∃ g', g.next op r g' ∧ Tracked server tasks w' (ghosts.set i g') := by
  obtain ⟨rfl,htask,hfits⟩ := h.ghosts hg
  obtain ⟨g',hnext,hfits',hghost,hcaller,hsame,new,hevents,hnew⟩ :=
    answer_advances h.fits hfits htask hok ha
  refine ⟨g',hnext,hfits',fun {j k} hk => ?_⟩
  rcases getElem?_set_some hk with ⟨rfl,rfl⟩ | ⟨hne,hk⟩
  · exact ⟨hcaller,hsame.symm ▸ htask,hghost⟩
  · obtain ⟨rfl,htask',hk⟩ := h.ghosts hk
    rw [hevents]
    -- another caller's ghost state is about that caller's events only
    refine ⟨rfl,htask',hk.append (fun n o hmem => ?_) (fun n o hmem => ?_)⟩
    · exact hne (hnew _ hmem)
    · exact hne (hnew _ hmem)

theorem outline_preserves (server : Server) (tasks : List Task) :
    Preserves (machine server) outline (Tracked server tasks) (fun _ _ => True) where
  advance s i op r w ghosts g _ ha h hg hok := by
    obtain ⟨g',hnext,h'⟩ := h.step hg hok ha
    exact ⟨g',[],hnext,.nil,by rwa [List.append_nil]⟩
  abort s i ghosts _ h := by
    cases hg : ghosts[i]? with
    | none =>
      rw [List.getElem?_eq_none_iff] at hg
      exact ⟨.initial 0 (.drop []),trivial,by rwa [List.set_eq_of_length_le hg]⟩
    | some g => exact ⟨g,trivial,by rwa [set_same hg]⟩
  env _ e _ _ _ := e.elim

theorem Fits.initial (hevents : w.events = []) (hcatalog : Catalog server w) :
    Fits server tasks w := by
  have hno (e : Event) : e ∉ w.events := by
    rw [hevents]
    exact List.not_mem_nil
  exact ⟨hcatalog,fun _ _ _ => hno _,fun h => absurd h (hno _),fun h => absurd h (hno _),
    fun h => absurd h (hno _),fun _ h => absurd h (hno _),hevents ▸ eachAt_nil⟩

theorem GhostFits.initial (c : Caller) (task : Task) :
    GhostFits server [] (.initial c task) where
  created hmem := nomatch hmem
  guard hguards := nomatch hguards.1
  dropped _ := by simp [Ghost.initial]
  warned hwarned := nomatch hwarned

theorem begins_tracked {s : State} (h : begins server tasks s) :
    Outlined outline (Tracked server tasks) s := by
  obtain ⟨hthreads,hevents,hcatalog⟩ := h
  refine ⟨tasks.mapIdx Ghost.initial,?_,.initial hevents hcatalog,fun {i g} hg => ?_⟩
  · rw [hthreads,List.forall₂_iff_get]
    refine ⟨by simp,fun i hi hi' => ?_⟩
    simp only [List.get_eq_getElem,List.getElem_mapIdx]
    exact code_outlined i _
  · rw [List.getElem?_mapIdx] at hg
    obtain ⟨task,htask,rfl⟩ := Option.map_eq_some_iff.mp hg
    rw [hevents]
    exact ⟨rfl,htask,.initial i task⟩

theorem tests_tracked {s : State} (h : (tests server tasks).Reachable s) :
    Outlined outline (Tracked server tasks) s :=
  outlined_reachable (outline_preserves server tasks) (fun _ => begins_tracked)
    (System.reachable_restrict _ (fun _ _ => trivial) h)

/-! ### What becomes of whose databases -/

structure Guarded (server : Server) (tasks : List Task) (w : World) : Prop where
  record : EachAt (Accounted server tasks) w.events
  standing : ∀ {c name own}, .created c name own ∈ w.events →
    w.databases name = some own ∨ ∃ c', .dropped c' name own ∈ w.events
  own : ∀ {c c' name name' oid}, .created c name oid ∈ w.events →
    .created c' name' oid ∈ w.events → c = c' ∧ name = name'
  single : ∀ {c t name name' oid oid'}, tasks[c]? = some (.temporary t) →
    .created c name oid ∈ w.events → .created c name' oid' ∈ w.events → oid = oid'

/-- Tests that leave every drop to the end of a scope. -/
def Task.scoped : Task → Bool
  | .create _ _ => true
  | .drop _ => false
  | .temporary t => t.parting = .scope

theorem scoped_temporary {t : TemporaryDatabase} (hscoped : ∀ task ∈ tasks, task.scoped = true)
    (htask : tasks[c]? = some (.temporary t)) : t.parting = .scope := by
  simpa [Task.scoped] using hscoped _ (List.mem_of_getElem? htask)

/-- The guard whose database a guard were to drop would have dropped that guard's own before, and
so on back to a guard that drops twice. -/
theorem Fits.drops_own (h : Fits server tasks w) (hscoped : ∀ task ∈ tasks, task.scoped = true) :
    ∀ e ∈ w.events, ∀ c name oid, e = .dropped c name oid → .created c name oid ∈ w.events := by
  refine h.accounted.induction fun before e hbefore he ih c name oid heq => ?_
  subst heq
  obtain ⟨_,⟨n,hdrop⟩ | ⟨t,htask,_,hspares,honce⟩⟩ := he
  · cases hscoped _ (List.mem_of_getElem? hdrop)
  rcases hspares with hown | ⟨own,c',hown,hgone⟩
  · exact hbefore.subset hown
  · have hc := (h.unique (hbefore.subset hown) (ih _ hgone c' name own rfl)).1
    subst hc
    exact absurd hgone (honce (scoped_temporary hscoped htask) name own)

end Record

/-- Whatever tests do with temporary databases, in whatever order. -/
theorem guards_accounted (server : Server) (tasks : List Task) {s : State}
    (h : (tests server tasks).Reachable s) : Guarded server tasks s.world := by
  obtain ⟨ghosts,_,htracked⟩ := tests_tracked h
  exact ⟨htracked.fits.accounted,fun hmem => (htracked.fits.created hmem).2,htracked.fits.unique,
    htracked.fits.single⟩

def plain : Server := ⟨id,fun _ => rfl⟩

def emptyWorld : World := ⟨fun _ => none,0,[]⟩

theorem catalog_empty : Catalog plain emptyWorld where
  stored h := by cases h
  fresh h := by cases h
  apart h := by cases h

theorem begins_empty (tasks : List Task) :
    begins plain tasks ⟨emptyWorld,tasks.mapIdx Task.code⟩ := ⟨rfl,rfl,catalog_empty⟩

theorem tests_reach (tasks : List Task) (actions : List Action) (wanted : State → Bool)
    (h : ((machine plain).run (fun _ _ => true) ⟨emptyWorld,tasks.mapIdx Task.code⟩ actions).any
      wanted = true) : ∃ s, (tests plain tasks).Reachable s ∧ wanted s = true := by
  obtain ⟨s,hreach,hwanted⟩ := (machine plain).run_reaches (C := fun _ _ => True) (fun _ _ => true)
    (fun _ _ _ => trivial) (begins_empty tasks) actions wanted h
  exact ⟨s,System.reachable_of_restrict _ hreach,hwanted⟩

def asked : Task := .temporary ⟨['t'],none,.dropDatabase⟩

def left : Task := .temporary ⟨['t'],none,.scope⟩

/-- One request with the answer to its statement. -/
def served (c : Caller) (request : Call) (answer : Served) : List Action :=
  [.advance c (.connectAdmin c) (.ok ()),.advance c (.send c (.batchExecute request.ddl.text)) answer]

/-- A guard is asked to drop its database. Before its second drop another test makes one of that
name, whose own guard then finds nothing. -/
def dropsTwice : List Action :=
  served 0 (.createDatabase ['t']) .done ++ served 0 (.temporaryDrop ['t']) .done ++
  served 1 (.createDatabase ['t']) .done ++ served 0 (.temporaryDrop ['t']) .done ++
  [.advance 0 (.ended 0 (some (.ok ()))) ()] ++ served 1 (.temporaryDrop ['t']) .refused ++
  [.advance 1 (.warn 1 (failureText (.temporaryDrop ['t']) (.batchExecute []))) (),
    .advance 1 (.ended 1 none) ()]

theorem guards_accounted_twice :
    ∃ s, (tests plain [asked,left]).Reachable s ∧ s.settled = true ∧
      .created 1 ['t'] 1 ∈ s.world.events ∧ .dropped 0 ['t'] 1 ∈ s.world.events ∧
      Guarded plain [asked,left] s.world := by
  obtain ⟨s,hreach,hwanted⟩ := tests_reach [asked,left] dropsTwice
    (fun s => s.settled ∧ .created 1 ['t'] 1 ∈ s.world.events ∧ .dropped 0 ['t'] 1 ∈ s.world.events)
    (by decide +kernel)
  simp only [decide_eq_true_eq] at hwanted
  exact ⟨s,hreach,hwanted.1,hwanted.2.1,hwanted.2.2,guards_accounted plain [asked,left] hreach⟩

/-- Where no test drops a database but by the end of a scope, every guard keeps its own until it
drops it itself, and nothing else. -/
theorem scopes_drop_own (server : Server) (tasks : List Task)
    (hscoped : ∀ task ∈ tasks, task.scoped = true) {s : State}
    (h : (tests server tasks).Reachable s) :
    (∀ c name oid, .dropped c name oid ∈ s.world.events → .created c name oid ∈ s.world.events) ∧
      (∀ c name own, .created c name own ∈ s.world.events →
        s.world.databases name = some own ∨ .dropped c name own ∈ s.world.events) ∧
      ∀ c name oid, .disconnected c name oid ∉ s.world.events := by
  obtain ⟨ghosts,_,hfits,_⟩ := tests_tracked h
  have hown := hfits.drops_own hscoped
  refine ⟨fun c name oid hmem => hown _ hmem c name oid rfl,fun c name own hmem => ?_,
    fun c name oid hmem => ?_⟩
  · rcases (hfits.created hmem).2 with hstands | ⟨c',hgone⟩
    · exact .inl hstands
    · obtain ⟨rfl,_⟩ := hfits.unique hmem (hown _ hgone c' name own rfl)
      exact .inr hgone
  · obtain ⟨_,_,t,htask,hparting,_⟩ := hfits.accounted.of_mem hmem
    rw [scoped_temporary hscoped htask] at hparting
    cases hparting

/-- Two scopes with one name: the second test has to wait for the first, and no drop is wasted. -/
def takesTurns : List Action :=
  served 0 (.createDatabase ['t']) .done ++ served 1 (.createDatabase ['t']) .refused ++
  [.advance 1 (.returned 1 (.error (failureText (.createDatabase ['t']) (.batchExecute [])))) ()] ++
  served 0 (.temporaryDrop ['t']) .done ++ served 2 (.createDatabase ['t']) .done ++
  [.advance 0 (.ended 0 none) ()]

theorem scopes_drop_own_turns :
    (∀ task ∈ [left,left,left], task.scoped = true) ∧
      ∃ s, (tests plain [left,left,left]).Reachable s ∧
        .dropped 0 ['t'] 0 ∈ s.world.events ∧ .created 2 ['t'] 1 ∈ s.world.events ∧
        (∀ c name oid, .dropped c name oid ∈ s.world.events →
          .created c name oid ∈ s.world.events) ∧
        (∀ c name own, .created c name own ∈ s.world.events →
          s.world.databases name = some own ∨ .dropped c name own ∈ s.world.events) ∧
        ∀ c name oid, .disconnected c name oid ∉ s.world.events := by
  have hscoped : ∀ task ∈ [left,left,left], task.scoped = true := by decide
  obtain ⟨s,hreach,hwanted⟩ := tests_reach [left,left,left] takesTurns
    (fun s => .dropped 0 ['t'] 0 ∈ s.world.events ∧ .created 2 ['t'] 1 ∈ s.world.events)
    (by decide +kernel)
  simp only [decide_eq_true_eq] at hwanted
  exact ⟨hscoped,s,hreach,hwanted.1,hwanted.2,scopes_drop_own plain [left,left,left] hscoped hreach⟩

end PgEmbedSetup.Cluster.Databases
