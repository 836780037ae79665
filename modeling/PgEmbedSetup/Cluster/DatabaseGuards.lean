import PgEmbedSetup.Cluster.Databases

set_option autoImplicit false

/-!
What a caller of `src/cluster/temporary_database.rs` sends, in which order, and what it knows.
-/

namespace PgEmbedSetup.Cluster.Databases
open Library Library.SqlLexer Statements

/-! ### What the server understands -/

theorem readDdl_tokens (ddl : Ddl) : readDdl ddl.tokens = some ddl := by
  match ddl with
  | .createDatabase name none => simp [Ddl.tokens,readDdl]
  | .createDatabase name (some template) => simp [Ddl.tokens,readDdl]
  | .dropDatabase name => simp [Ddl.tokens,readDdl]

theorem mem_quote {c : Char} {name : Text} (h : c ∈ name) : c ∈ quote name := by
  refine List.mem_append_left _ (List.mem_cons_of_mem _ (List.mem_flatMap.mpr ⟨c,h,?_⟩))
  split
  · next hquote => simp [hquote]
  · simp

theorem mem_behind {c : Char} {text front back : Text} (htext : text = front ++ back)
    (h : c ∈ back) : c ∈ text := by
  subst htext
  exact List.mem_append_right _ h

theorem mem_text {c : Char} {ddl : Ddl} {name : Text} (hname : name ∈ ddl.names) (h : c ∈ name) :
    c ∈ ddl.text := by
  match ddl with
  | .createDatabase n none =>
    cases List.mem_singleton.mp hname
    exact mem_behind rfl (mem_quote h)
  | .createDatabase n (some template) =>
    refine mem_behind rfl (List.mem_append.mpr ?_)
    rcases List.mem_cons.mp hname with rfl | hname
    · exact .inl (List.mem_append_left _ (mem_quote h))
    · cases List.mem_singleton.mp hname
      exact .inr (mem_quote h)
  | .dropDatabase n =>
    cases List.mem_singleton.mp hname
    exact mem_behind rfl (mem_quote h)

/-- Whatever the names are, the server does what the text was written for or nothing. -/
theorem understands_text {ddl understood : Ddl} (h : understands ddl.text = some understood) :
    understood = ddl := by
  rw [understands] at h
  split at h
  · cases h
  · next hnul =>
    rw [lex_text ddl fun name hname hmem => hnul (mem_text hname hmem),Option.bind_some,
      readDdl_tokens] at h
    exact (Option.some.inj h).symm

/-- Each call sends its one statement, and a forced drop ends the sessions before it. -/
theorem sent_eq (request : Call) :
    request.sent = [.batchExecute request.ddl.text] ∨
      ∃ name, request = .temporaryForceDrop name ∧
        request.sent = [.execute terminateBackends [name],.batchExecute request.ddl.text] := by
  cases request with
  | createDatabase name =>
    exact .inl (executeDdlCommand_eq "CREATE DATABASE ".toList name (by decide))
  | createDatabaseFromTemplate name template =>
    exact .inl (sent_createDatabaseFromTemplate name template)
  | dropDatabase name => exact .inl (executeDdlCommand_eq "DROP DATABASE ".toList name (by decide))
  | temporaryDrop name => exact .inl (sent_tryDrop name)
  | temporaryForceDrop name =>
    refine .inr ⟨name,rfl,?_⟩
    have hsent : (Call.temporaryForceDrop name).sent =
        .execute terminateBackends [name] :: tryDrop name := rfl
    rw [hsent,sent_tryDrop]
    rfl

/-! ### What each caller may do -/

/-- `created` and `dropped` tell what statements of the caller came to, `guard` that the caller
knows of its database. -/
structure Ghost where
  caller : Caller
  task : Task
  created : Bool
  guard : Bool
  dropped : Bool
  warned : Bool

def Ghost.may (g : Ghost) : Ddl → Prop
  | .createDatabase name _ =>
    match g.task with
    | .create n _ => name = n
    | .drop _ => False
    | .temporary t => name = t.name ∧ g.created = false
  | .dropDatabase name =>
    match g.task with
    | .create _ _ => False
    | .drop n => name = n
    | .temporary t => name = t.name ∧ g.guard = true ∧ (t.parting = .scope → g.dropped = false)

def Ghost.act (g : Ghost) (served : Served) : Ddl → Ghost
  | .createDatabase _ _ =>
    { g with created := g.created || served.happened, guard := g.guard || served.ok }
  | .dropDatabase _ => { g with dropped := g.dropped || served.happened }

@[simp] theorem Ghost.act_caller (g : Ghost) (served : Served) (ddl : Ddl) :
    (g.act served ddl).caller = g.caller := by
  cases ddl <;> rfl

@[simp] theorem Ghost.act_task (g : Ghost) (served : Served) (ddl : Ddl) :
    (g.act served ddl).task = g.task := by
  cases ddl <;> rfl

@[simp] theorem Ghost.act_refused (g : Ghost) (ddl : Ddl) : g.act .refused ddl = g := by
  cases ddl <;> simp [Ghost.act,Served.happened,Served.ok]

def Ghost.Guards (g : Ghost) (name : Text) : Prop :=
  g.guard = true ∧ ∃ t, g.task = .temporary t ∧ name = t.name

/-- A caller that ends the sessions of the database before the drop. -/
def Ghost.Forces (g : Ghost) (name : Text) : Prop :=
  g.guard = true ∧ ∃ t, g.task = .temporary t ∧ name = t.name ∧ t.parting = .forceDrop

def Ghost.allows (g : Ghost) : Op → Prop
  | .connectAdmin c | .warn c _ | .returned c _ => c = g.caller
  | .send c (.batchExecute sql) => c = g.caller ∧ ∃ ddl : Ddl, sql = ddl.text ∧ g.may ddl
  | .send c (.execute _ params) => c = g.caller ∧ ∃ name, params = [name] ∧ g.Forces name
  | .ended c r => c = g.caller ∧ (∃ name, g.Guards name) ∧ (g.dropped = true ∨ g.warned = true) ∧
      (r = some (.ok ()) → g.dropped = true)

def Ghost.next (g : Ghost) : (op : Op) → Reply op → Ghost → Prop
  | .send _ (.batchExecute sql), served, g' =>
    if served.happened then ∃ ddl, understands sql = some ddl ∧ g' = g.act served ddl else g' = g
  | .warn _ _, _, g' => g' = { g with warned := true }
  | _, _, g' => g' = g

def outline : Outline Op Reply Ghost where
  ok := Ghost.allows
  next := Ghost.next
  final _ := True

variable {g : Ghost}

theorem run_outlined {request : Call} (hmay : g.may request.ddl)
    (hforce : ∀ name, request = .temporaryForceDrop name → g.Forces name)
    {post : BootstrapResult Unit → Ghost → Prop}
    (hpost : ∀ served r, (r = .ok () ↔ served = .done) → post r (g.act served request.ddl)) :
    outline.wp (run g.caller request) post g := by
  have hrefused (e : Text) : post (.error e) g := by
    have h := hpost .refused (.error e) (by simp)
    rwa [Ghost.act_refused] at h
  have hbatch : outline.wp (sendEach g.caller (failureText request)
      [.batchExecute request.ddl.text]) post g := by
    refine ⟨⟨rfl,request.ddl,rfl,hmay⟩,fun served g' hnext => ?_⟩
    have hg' : g' = g.act served request.ddl := by
      change (if served.happened then _ else _) at hnext
      split at hnext
      · obtain ⟨ddl,hddl,rfl⟩ := hnext
        rw [understands_text hddl]
      · next hno =>
        cases served with
        | refused => exact hnext.trans (g.act_refused _).symm
        | done => exact absurd rfl hno
        | lost => exact absurd rfl hno
    subst hg'
    cases served with
    | done => exact hpost .done (.ok ()) (by simp)
    | lost => exact hpost .lost _ (by simp)
    | refused => exact hpost .refused _ (by simp)
  refine wp_bind.mpr ⟨rfl,fun r g' hnext => ?_⟩
  cases hnext
  cases r with
  | error reason => exact hrefused _
  | ok u =>
    change outline.wp (sendEach g.caller (failureText request) request.sent) post g
    rcases sent_eq request with hsent | ⟨name,hname,hsent⟩
    · rwa [hsent]
    · rw [hsent]
      refine ⟨⟨rfl,name,rfl,hforce name hname⟩,fun served g' hnext => ?_⟩
      cases hnext
      cases served with
      | done => exact hbatch
      | lost => exact hrefused _
      | refused => exact hrefused _

theorem run_drop_outlined {request : Call} {name : Text} (hrequest : request.ddl = .dropDatabase name)
    (hmay : g.may (.dropDatabase name))
    (hforce : ∀ name, request = .temporaryForceDrop name → g.Forces name)
    {post : BootstrapResult Unit → Ghost → Prop}
    (hpost : ∀ r dropped, (g.dropped = true → dropped = true) → (r = .ok () → dropped = true) →
      post r { g with dropped := dropped }) :
    outline.wp (run g.caller request) post g := by
  rw [← hrequest] at hmay
  refine run_outlined hmay hforce fun served r hr => ?_
  rw [hrequest]
  refine hpost r (g.dropped || served.happened) (fun h => by simp [h]) (fun hok => ?_)
  rw [hr.mp hok]
  simp [Served.happened]

theorem temporaryDrop_forces (name : Text) :
    ∀ n, Call.temporaryDrop name = .temporaryForceDrop n → g.Forces n := by
  intro n h
  cases h

/-- Whatever the guard's own drop comes to, it succeeds or warns. -/
theorem dropGuard_outlined {name : Text} (hmay : g.may (.dropDatabase name))
    {post : Unit → Ghost → Prop}
    (hpost : ∀ dropped warned, (g.dropped = true → dropped = true) →
      (dropped = true ∨ warned = true) → post () { g with dropped := dropped, warned := warned }) :
    outline.wp (dropGuard g.caller name) post g := by
  refine wp_bind.mpr (run_drop_outlined rfl hmay (temporaryDrop_forces name)
    fun r dropped hmono hok => ?_)
  cases r with
  | ok u => exact hpost dropped g.warned hmono (.inl (hok rfl))
  | error e =>
    refine ⟨rfl,fun _ g' hnext => ?_⟩
    cases hnext
    exact hpost dropped true hmono (.inr rfl)

theorem Ghost.may_drop {t : TemporaryDatabase} (htask : g.task = .temporary t)
    (hguard : g.guard = true) (hdropped : t.parting = .scope → g.dropped = false) :
    g.may (.dropDatabase t.name) := by
  simpa [Ghost.may,htask,hguard] using hdropped

/-- A guard that was asked to drop its database does so once more. -/
theorem secondDrop_outlined {t : TemporaryDatabase} (htask : g.task = .temporary t)
    (hguard : g.guard = true) (hparting : t.parting ≠ .scope) {r : BootstrapResult Unit}
    (hr : r = .ok () → g.dropped = true) :
    outline.wp (dropGuard g.caller t.name >>= fun _ => pure (some r))
      (fun r g' => g'.allows (.ended g.caller r)) g := by
  have hmay := Ghost.may_drop htask hguard fun h => absurd h hparting
  refine wp_bind.mpr (dropGuard_outlined hmay fun dropped warned hmono hor => ?_)
  exact ⟨rfl,⟨t.name,hguard,t,htask,rfl⟩,hor,fun hok => hmono (hr (Option.some.inj hok))⟩

theorem part_outlined {t : TemporaryDatabase} (htask : g.task = .temporary t)
    (hguard : g.guard = true) (hdropped : g.dropped = false) :
    outline.wp (t.part g.caller) (fun r g' => g'.allows (.ended g.caller r)) g := by
  have hmay := Ghost.may_drop htask hguard fun _ => hdropped
  rw [TemporaryDatabase.part]
  cases hparting : t.parting with
  | scope =>
    refine wp_bind.mpr (dropGuard_outlined hmay fun dropped warned _ hor => ?_)
    refine ⟨rfl,⟨t.name,hguard,t,htask,rfl⟩,hor,fun hok => ?_⟩
    cases hok
  | dropDatabase =>
    have hscope : t.parting ≠ .scope := by simp [hparting]
    refine wp_bind.mpr (run_drop_outlined rfl hmay (temporaryDrop_forces t.name)
      fun r dropped _ hok => ?_)
    exact secondDrop_outlined (g := { g with dropped := dropped }) htask hguard hscope hok
  | forceDrop =>
    have hscope : t.parting ≠ .scope := by simp [hparting]
    refine wp_bind.mpr (run_drop_outlined rfl hmay (fun name h => ?_) fun r dropped _ hok => ?_)
    · cases h
      exact ⟨hguard,t,htask,rfl,hparting⟩
    · exact secondDrop_outlined (g := { g with dropped := dropped }) htask hguard hscope hok

theorem ddl_createCall (name : Text) (template : Option Text) :
    (createCall name template).ddl = .createDatabase name template := by
  cases template <;> rfl

theorem run_create_outlined {name : Text} {template : Option Text}
    (hmay : g.may (.createDatabase name template)) {post : BootstrapResult Unit → Ghost → Prop}
    (hpost : ∀ r created guard, (r = .ok () → guard = true) →
      post r { g with created := created, guard := guard }) :
    outline.wp (run g.caller (createCall name template)) post g := by
  rw [← ddl_createCall] at hmay
  refine run_outlined hmay (fun n h => ?_) fun served r hr => ?_
  · cases template <;> cases h
  · rw [ddl_createCall]
    refine hpost r _ (g.guard || served.ok) fun hok => ?_
    rw [hr.mp hok]
    simp [Served.ok]

/-- A task begins with nothing done. -/
def Ghost.initial (c : Caller) (task : Task) : Ghost := ⟨c,task,false,false,false,false⟩

theorem code_outlined (c : Caller) (task : Task) : outline.Safe (task.code c) (.initial c task) := by
  cases task with
  | create name template =>
    have hmay : (Ghost.initial c (.create name template)).may (.createDatabase name template) := rfl
    exact wp_bind.mpr (run_create_outlined hmay fun r created guard _ => ⟨rfl,fun _ _ _ => trivial⟩)
  | drop name =>
    have hmay : (Ghost.initial c (.drop name)).may (.dropDatabase name) := rfl
    refine wp_bind.mpr (run_drop_outlined rfl hmay (fun n h => ?_)
      fun r dropped _ _ => ⟨rfl,fun _ _ _ => trivial⟩)
    cases h
  | temporary t =>
    have hmay : (Ghost.initial c (.temporary t)).may (.createDatabase t.name t.template) :=
      ⟨rfl,rfl⟩
    refine wp_bind.mpr (run_create_outlined hmay fun r created guard hguard => ?_)
    cases r with
    | error e => exact ⟨rfl,fun _ _ _ => trivial⟩
    | ok u =>
      have hpart := part_outlined (g := ⟨c,.temporary t,created,guard,false,false⟩) rfl (hguard rfl)
        rfl
      exact wp_bind.mpr (wp_mono hpart fun r g' hallows => ⟨hallows,fun _ _ _ => trivial⟩)

end PgEmbedSetup.Cluster.Databases
