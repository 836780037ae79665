import Mathlib.Data.List.TakeWhile
import PgEmbedSetup.Startup.Initdb

set_option autoImplicit false

/-!
What becomes of an `initdb` that `src/durability.rs` has started, and of the task that watches it.
-/

namespace PgEmbedSetup.Startup.Initdb
open Library

/-! ### What becomes of `initdb` -/

section Child

def Child.unreaped : Child → Bool
  | .running | .exited _ => true
  | .none | .reaped _ => false

def Child.Reaped (child : Child) : Prop := ∃ status, child = .reaped status

/-- Where the task is tells where `initdb` is. -/
def Task.Fits (events : List Event) (child : Child) : Task → Prop
  | .queued | .writing | .spawning | .lost | .returned (.ok false) => child = .none
  | .arming | .polling _ | .checkingCancel _ | .checkingDeadline _ | .sleeping _ _ | .killing _
  | .waiting _ => child.unreaped = true
  | .joining (.exited status) => child = .reaped status
  | .joining (.stopped _) | .returned (.error (.stopped _)) => child.Reaped ∨ .leftBehind ∈ events
  | .returned (.ok true) => ∃ status, status.success = true ∧ child = .reaped status
  | .returned (.error .io) => child = .none ∨ .leftBehind ∈ events
  | .returned (.error (.failed status)) => status.success = false ∧ child = .reaped status

variable {c : Settings} {s t : State} {own : Bool}

theorem mem_log (s : State) (e : Event) : e ∈ (s.log e).events :=
  List.mem_append_right _ (List.mem_singleton_self e)

theorem Task.Fits.log {task : Task} {events : List Event} {child : Child}
    (h : task.Fits events child) (e : Event) : task.Fits (events ++ [e]) child := by
  have hmem {e' : Event} (hmem : e' ∈ events) : e' ∈ events ++ [e] := List.mem_append_left _ hmem
  cases task with
  | joining outcome =>
    cases outcome with
    | exited status => exact h
    | stopped reason => exact h.imp_right hmem
  | returned r =>
    cases r with
    | ok b => cases b <;> exact h
    | error error =>
      cases error with
      | io => exact h.imp_right hmem
      | failed status => exact h
      | stopped reason => exact h.imp_right hmem
  | _ => exact h

/-- `initdb` may end by itself at any time. -/
theorem Task.Fits.exit {task : Task} {events : List Event} (h : task.Fits events .running)
    (status : ExitStatus) : task.Fits events (.exited status) := by
  cases task with
  | joining outcome =>
    cases outcome with
    | exited status => cases h
    | stopped reason =>
      rcases h with ⟨_,h⟩ | h
      · cases h
      · exact .inr h
  | returned r =>
    cases r with
    | ok b =>
      cases b with
      | true =>
        obtain ⟨_,_,h⟩ := h
        cases h
      | false => cases h
    | error error =>
      cases error with
      | io =>
        rcases h with h | h
        · cases h
        · exact .inr h
      | failed status => cases h.2
      | stopped reason =>
        rcases h with ⟨_,h⟩ | h
        · cases h
        · exact .inr h
  | queued => cases h
  | writing => cases h
  | spawning => cases h
  | lost => cases h
  | _ => rfl

theorem unreaped_kill {child : Child} (h : child.unreaped = true) : child.kill.unreaped = true := by
  cases child with
  | running => rfl
  | exited status => rfl
  | none => cases h
  | reaped status => cases h

theorem task_fits_moves (hs : s.task.Fits s.events s.child) (h : Moves c s own t) :
    t.task.Fits t.events t.child := by
  cases h with
  | examine htask =>
    rw [htask] at hs
    change (examined c s).Fits s.events s.child
    unfold examined
    split
    · exact hs
    · split
      · exact hs
      · split <;> exact hs
  | write htask => rw [htask] at hs; exact hs
  | fail htask => rcases htask with htask | htask <;> rw [htask] at hs <;> exact .inl hs
  | spawn htask => rfl
  | arm htask => rw [htask] at hs; exact hs
  | poll htask hchild => rw [htask] at hs; exact hs
  | collect htask hchild => rfl
  | leave htask => exact .inr (mem_log _ _)
  | cancel htask hcancel => rw [htask] at hs; exact hs
  | proceed htask hcancel => rw [htask] at hs; exact hs
  | expire htask hdeadline => rw [htask] at hs; exact hs
  | sleep htask => rw [htask] at hs; exact hs
  | wake htask => rw [htask] at hs; exact hs
  | kill htask => rw [htask] at hs; exact unreaped_kill hs
  | killFails htask => rw [htask] at hs; exact hs
  | @reap reason status htask hchild => exact .inl ⟨status,rfl⟩
  | waitFails htask => exact .inr (mem_log _ _)
  | @join outcome htask =>
    rw [htask] at hs
    cases outcome with
    | exited status =>
      change (Task.returned (Outcome.exited status).result).Fits s.events s.child
      cases hsuccess : status.success with
      | true => rw [Outcome.result,hsuccess]; exact ⟨status,hsuccess,hs⟩
      | false => rw [Outcome.result,hsuccess]; exact ⟨hsuccess,hs⟩
    | stopped reason => exact hs
  | resume hfuture htask => exact hs.log .setup
  | settle hfuture => exact hs
  | drop hfuture => exact hs.log .dropped
  | lose htask => rw [htask] at hs; exact hs
  | @exit status hchild =>
    rw [hchild] at hs
    exact hs.exit status
  | childWrites hchild => exact hs.log .wrote
  | eof => exact hs
  | tick => exact hs

end Child

/-! ### What the record tells -/

section Record
variable {c : Settings} {s t : State} {own : Bool}

/-- The state in which an event comes about. -/
def Event.Happens (s : State) : Event → Prop
  | .spawned => s.task = .spawning
  | .armed time => s.task = .arming ∧ time = s.clock
  | .polled => ∃ deadline, s.task = .polling deadline
  | .killed => ∃ reason, s.task = .killing reason
  | .setup => ∃ b, s.task = .returned (.ok b)
  | .wrote => s.child = .running
  | .leftBehind | .dropped => True

theorem moves_events (h : Moves c s own t) :
    t.events = s.events ∨ ∃ e, t.events = s.events ++ [e] ∧ e.Happens s := by
  cases h with
  | spawn htask => exact .inr ⟨_,rfl,htask⟩
  | arm htask => exact .inr ⟨_,rfl,htask,rfl⟩
  | poll htask hchild => exact .inr ⟨_,rfl,_,htask⟩
  | kill htask => exact .inr ⟨_,rfl,_,htask⟩
  | resume hfuture htask => exact .inr ⟨_,rfl,_,htask⟩
  | childWrites hchild => exact .inr ⟨_,rfl,hchild⟩
  | leave htask => exact .inr ⟨_,rfl,trivial⟩
  | waitFails htask => exact .inr ⟨_,rfl,trivial⟩
  | drop hfuture => exact .inr ⟨_,rfl,trivial⟩
  | _ => exact .inl rfl

/-- An event is on record already, or comes about now. -/
theorem moves_mem (h : Moves c s own t) {e : Event} (hmem : e ∈ t.events) :
    e ∈ s.events ∨ e.Happens s := by
  rcases moves_events h with hsame | ⟨e',hnew,hhappens⟩
  · exact .inl (hsame ▸ hmem)
  · rw [hnew] at hmem
    rcases List.mem_append.mp hmem with hmem | hmem
    · exact .inl hmem
    · cases List.mem_singleton.mp hmem
      exact .inr hhappens

theorem moves_sublist (h : Moves c s own t) {e : Event} (hmem : e ∈ s.events) : e ∈ t.events := by
  rcases moves_events h with hsame | ⟨e',hnew,_⟩
  · rw [hsame]
    exact hmem
  · rw [hnew]
    exact List.mem_append_left _ hmem

theorem moves_returned (h : Moves c s own t) {r : Except TaskError Bool}
    (hr : s.task = .returned r) : t.task = .returned r := by
  cases h <;> simp_all [State.log,State.leave]

theorem setup_moves (hs : .setup ∈ s.events → ∃ b, s.task = .returned (.ok b)) (h : Moves c s own t)
    (hmem : .setup ∈ t.events) : ∃ b, t.task = .returned (.ok b) := by
  rcases moves_mem h hmem with hmem | ⟨b,hb⟩
  · obtain ⟨b,hb⟩ := hs hmem
    exact ⟨b,moves_returned h hb⟩
  · exact ⟨b,moves_returned h hb⟩

/-! ### One `initdb` at most -/

def Task.unspawned : Task → Bool
  | .queued | .writing | .spawning => true
  | _ => false

/-- The settings have been found to call for an `initdb`. -/
def Task.preparing : Task → Bool
  | .writing | .spawning => true
  | _ => false

structure Once (c : Settings) (s : State) : Prop where
  unspawned : s.task.unspawned = true → .spawned ∉ s.events
  once : s.events.count .spawned ≤ 1
  wanted : s.task.preparing = true ∨ .spawned ∈ s.events →
    c.isDisposable = true ∧ c.installed = true

theorem examined_wanted (h : (examined c s).preparing = true) :
    c.isDisposable = true ∧ c.installed = true := by
  unfold examined at h
  split at h
  · cases h
  · next hdisposable =>
    split at h
    · cases h
    · next hinstalled => simp_all

theorem moves_unspawned (h : Moves c s own t) (ht : t.task.unspawned = true) :
    s.task.unspawned = true ∧ (.spawned ∈ t.events → .spawned ∈ s.events) := by
  cases h <;> simp_all [State.goto,State.log,State.leave,Task.unspawned]

theorem moves_preparing (h : Moves c s own t) (ht : t.task.preparing = true) :
    s.task.preparing = true ∨ c.isDisposable = true ∧ c.installed = true := by
  cases h with
  | examine htask => exact .inr (examined_wanted ht)
  | _ => simp_all [State.goto,State.log,State.leave,Task.preparing]

theorem Once.moves (hs : Once c s) (h : Moves c s own t) : Once c t := by
  refine ⟨fun ht hmem => ?_,?_,fun ht => ?_⟩
  · obtain ⟨hwas,hold⟩ := moves_unspawned h ht
    exact hs.unspawned hwas (hold hmem)
  · rcases moves_events h with hsame | ⟨e,hnew,hhappens⟩
    · rw [hsame]
      exact hs.once
    · rw [hnew,List.count_append,List.count_singleton]
      split
      · next heq =>
        cases eq_of_beq heq
        have hnone : .spawned ∉ s.events := hs.unspawned (by rw [hhappens]; rfl)
        rw [List.count_eq_zero.mpr hnone]
      · exact hs.once
  · rcases ht with ht | hmem
    · rcases moves_preparing h ht with hwas | hwanted
      · exact hs.wanted (.inl hwas)
      · exact hwanted
    · rcases moves_mem h hmem with hmem | htask
      · exact hs.wanted (.inr hmem)
      · exact hs.wanted (.inl (by rw [htask]; rfl))

/-! ### Why it is ended -/

def Task.deadline : Task → Option (Option Nat)
  | .polling deadline | .checkingCancel deadline | .checkingDeadline deadline
  | .sleeping _ deadline => some deadline
  | _ => none

def Task.reason : Task → Option Reason
  | .killing reason | .waiting reason | .joining (.stopped reason)
  | .returned (.error (.stopped reason)) => some reason
  | _ => none

def Reason.Due (c : Settings) (s : State) : Reason → Prop
  | .cancelled => s.cancel = true
  | .timedOut => ∃ time limit, .armed time ∈ s.events ∧ c.timeout = some limit ∧ time+limit ≤ s.clock

structure Watched (c : Settings) (s : State) : Prop where
  deadline : ∀ deadline, s.task.deadline = some deadline →
    ∃ time, .armed time ∈ s.events ∧ deadline = c.timeout.map (time + ·)
  reason : ∀ reason, s.task.reason = some reason → reason.Due c s
  killed : .killed ∈ s.events → ∃ reason, Reason.Due c s reason

theorem moves_cancel (h : Moves c s own t) (hcancel : s.cancel = true) : t.cancel = true := by
  cases h with
  | settle hfuture => rfl
  | drop hfuture => rfl
  | _ => exact hcancel

theorem moves_clock (h : Moves c s own t) : s.clock ≤ t.clock := by
  cases h with
  | tick => exact Nat.le_succ _
  | _ => exact Nat.le_refl _

theorem Reason.Due.moves {reason : Reason} (hdue : reason.Due c s) (h : Moves c s own t) :
    reason.Due c t := by
  cases reason with
  | cancelled => exact moves_cancel h hdue
  | timedOut =>
    obtain ⟨time,limit,harmed,hlimit,hle⟩ := hdue
    exact ⟨time,limit,moves_sublist h harmed,hlimit,hle.trans (moves_clock h)⟩

theorem moves_deadline (h : Moves c s own t) {deadline : Option Nat}
    (ht : t.task.deadline = some deadline) : s.task.deadline = some deadline ∨
      deadline = c.timeout.map (s.clock + ·) ∧ .armed s.clock ∈ t.events := by
  cases h with
  | examine htask =>
    refine absurd ht ?_
    change (examined c s).deadline ≠ some deadline
    unfold examined
    split
    · simp [Task.deadline]
    · split
      · simp [Task.deadline]
      · split <;> simp [Task.deadline]
  | arm htask =>
    cases ht
    exact .inr ⟨rfl,mem_log _ _⟩
  | _ => simp_all [State.goto,State.log,State.leave,Task.deadline]

/-- A reason is found by a check, and then it holds. -/
theorem moves_reason (h : Moves c s own t) {reason : Reason} (ht : t.task.reason = some reason) :
    s.task.reason = some reason ∨ reason = .cancelled ∧ s.cancel = true ∨
      reason = .timedOut ∧ ∃ deadline, s.task.deadline = some deadline ∧
        deadline.any (· ≤ s.clock) = true := by
  cases h with
  | examine htask =>
    refine absurd ht ?_
    change (examined c s).reason ≠ some reason
    unfold examined
    split
    · simp [Task.reason]
    · split
      · simp [Task.reason]
      · split <;> simp [Task.reason]
  | cancel htask hcancel =>
    cases ht
    exact .inr (.inl ⟨rfl,hcancel⟩)
  | @expire deadline htask hdeadline =>
    cases ht
    exact .inr (.inr ⟨rfl,deadline,by rw [htask]; rfl,hdeadline⟩)
  | @join outcome htask =>
    left
    rw [htask]
    cases outcome with
    | exited status =>
      change (Task.returned (Outcome.exited status).result).reason = some reason at ht
      rw [Outcome.result] at ht
      split at ht <;> cases ht
    | stopped reason => exact ht
  | _ => simp_all [State.goto,State.log,State.leave,Task.reason]

theorem Watched.moves (hs : Watched c s) (h : Moves c s own t) : Watched c t := by
  refine ⟨fun deadline ht => ?_,fun reason ht => ?_,fun hmem => ?_⟩
  · rcases moves_deadline h ht with hwas | ⟨hdeadline,harmed⟩
    · obtain ⟨time,harmed,hdeadline⟩ := hs.deadline deadline hwas
      exact ⟨time,moves_sublist h harmed,hdeadline⟩
    · exact ⟨s.clock,harmed,hdeadline⟩
  · rcases moves_reason h ht with hwas | ⟨rfl,hcancel⟩ | ⟨rfl,deadline,hwas,hpast⟩
    · exact (hs.reason reason hwas).moves h
    · exact moves_cancel h hcancel
    · obtain ⟨time,harmed,rfl⟩ := hs.deadline deadline hwas
      obtain ⟨due,hdue,hpast⟩ := Option.any_eq_true _ _ |>.mp hpast
      obtain ⟨limit,hlimit,rfl⟩ := Option.map_eq_some_iff.mp hdue
      have hnow : Reason.timedOut.Due c s := ⟨time,limit,harmed,hlimit,of_decide_eq_true hpast⟩
      exact hnow.moves h
  · rcases moves_mem h hmem with hmem | ⟨reason,htask⟩
    · obtain ⟨reason,hdue⟩ := hs.killed hmem
      exact ⟨reason,hdue.moves h⟩
    · exact ⟨reason,(hs.reason reason (by rw [htask]; rfl)).moves h⟩

/-! ### When nobody waits for it any more -/

/-- Whether `initdb` will be looked at once more before the next check for cancellation. -/
def Task.mayPoll : Task → Bool
  | .queued | .writing | .spawning | .arming | .polling _ | .checkingDeadline _ | .sleeping _ _ => true
  | _ => false

def sinceDropped (events : List Event) : List Event := events.dropWhile (· ≠ .dropped)

structure Late (s : State) : Prop where
  cancel : .dropped ∈ s.events → s.cancel = true
  polls : .dropped ∈ s.events →
    (sinceDropped s.events).count .polled+s.task.mayPoll.toNat ≤ 1

theorem sinceDropped_nil {events : List Event} (h : .dropped ∉ events) :
    sinceDropped events = [] := by
  rw [sinceDropped,List.dropWhile_eq_nil_iff]
  intro e he
  rw [decide_eq_true_eq]
  rintro rfl
  exact h he

theorem sinceDropped_append {events : List Event} (h : .dropped ∈ events) (more : List Event) :
    sinceDropped (events ++ more) = sinceDropped events ++ more := by
  induction events with
  | nil => cases h
  | cons e events ih =>
    by_cases he : e = .dropped
    · simp [sinceDropped,he]
    · have hrest : .dropped ∈ events := (List.mem_cons.mp h).resolve_left (Ne.symm he)
      simpa [sinceDropped,he] using ih hrest

theorem sinceDropped_now {events : List Event} (h : .dropped ∉ events) :
    sinceDropped (events ++ [.dropped]) = [.dropped] := by
  induction events with
  | nil => rfl
  | cons e events ih =>
    obtain ⟨he,hrest⟩ := List.ne_and_not_mem_of_not_mem_cons h
    simpa [sinceDropped,he.symm] using ih hrest

/-- Once cancelled, `initdb` is looked at only where that was still to come. -/
theorem moves_polls (h : Moves c s own t) (hcancel : s.cancel = true) :
    ∃ more, t.events = s.events ++ more ∧
      more.count .polled+t.task.mayPoll.toNat ≤ s.task.mayPoll.toNat := by
  have hsame (hle : t.task.mayPoll.toNat ≤ s.task.mayPoll.toNat) (hevents : t.events = s.events) :
      ∃ more, t.events = s.events ++ more ∧
        more.count .polled+t.task.mayPoll.toNat ≤ s.task.mayPoll.toNat :=
    ⟨[],by rw [hevents,List.append_nil],by simpa using hle⟩
  cases h with
  | examine htask =>
    refine hsame ?_ rfl
    rw [htask]
    exact Bool.toNat_le _
  | spawn htask => exact ⟨[.spawned],rfl,by rw [htask]; exact Nat.le_refl _⟩
  | arm htask => exact ⟨[.armed s.clock],rfl,by rw [htask]; exact Nat.le_refl _⟩
  | poll htask hchild => exact ⟨[.polled],rfl,by rw [htask]; exact Nat.le_refl _⟩
  | leave htask => exact ⟨[.leftBehind],rfl,Nat.zero_le _⟩
  | kill htask => exact ⟨[.killed],rfl,Nat.zero_le _⟩
  | waitFails htask => exact ⟨[.leftBehind],rfl,Nat.zero_le _⟩
  | resume hfuture htask => exact ⟨[.setup],rfl,by rw [htask]; exact Nat.zero_le _⟩
  | drop hfuture => exact ⟨[.dropped],rfl,by simp [State.leave,State.log]⟩
  | childWrites hchild => exact ⟨[.wrote],rfl,by simp [State.log]⟩
  | proceed htask hnot =>
    rw [hnot] at hcancel
    cases hcancel
  | _ => exact hsame (by simp_all [State.goto,State.leave,Task.mayPoll]) rfl

theorem moves_dropped (h : Moves c s own t) (hmem : .dropped ∈ t.events) :
    .dropped ∈ s.events ∨ t = (s.leave .dropped).log .dropped := by
  cases h with
  | drop hfuture => exact .inr rfl
  | _ => exact .inl (by simpa [State.goto,State.log,State.leave] using hmem)

theorem Late.moves (hs : Late s) (h : Moves c s own t) : Late t := by
  refine ⟨fun hmem => ?_,fun hmem => ?_⟩ <;>
    rcases em (.dropped ∈ s.events) with hbefore | hbefore
  · exact moves_cancel h (hs.cancel hbefore)
  · cases (moves_dropped h hmem).resolve_left hbefore
    rfl
  · obtain ⟨more,hmore,hle⟩ := moves_polls h (hs.cancel hbefore)
    have hpolls := hs.polls hbefore
    rw [hmore,sinceDropped_append hbefore,List.count_append]
    omega
  · cases (moves_dropped h hmem).resolve_left hbefore
    change (sinceDropped (s.events ++ [.dropped])).count .polled+_ ≤ 1
    rw [sinceDropped_now hbefore]
    exact Nat.add_le_add (Nat.le_refl 0) (Bool.toNat_le _)

end Record

/-! ### Runs -/

section Runs
variable {c : Settings} {s t : State} {own : Bool}

structure Sound (c : Settings) (s : State) : Prop where
  task : s.task.Fits s.events s.child
  setup : .setup ∈ s.events → ∃ b, s.task = .returned (.ok b)
  once : Once c s
  watched : Watched c s
  late : Late s

theorem Sound.initial (h : s.initial) : Sound c s := by
  obtain ⟨_,_,htask,hchild,_,hevents⟩ := h
  have hno (e : Event) : e ∉ s.events := by
    rw [hevents]
    exact List.not_mem_nil
  refine ⟨by rw [htask]; exact hchild,fun h => absurd h (hno _),⟨fun _ => hno _,?_,?_⟩,
    ⟨?_,?_,fun h => absurd h (hno _)⟩,⟨fun h => absurd h (hno _),fun h => absurd h (hno _)⟩⟩
  · rw [hevents]
    exact Nat.zero_le 1
  · rw [htask]
    exact fun h => absurd (h.resolve_left Bool.false_ne_true) (hno _)
  · rw [htask]
    exact fun _ h => nomatch h
  · rw [htask]
    exact fun _ h => nomatch h

theorem setups_sound (h : (setups c).Reachable s) : Sound c s := by
  refine (setups c).invariant (fun s hs => Sound.initial hs) (fun s a t hs hstep => ?_) h
  have hmoves : Moves c s a.own t := step_moves hstep
  exact ⟨task_fits_moves hs.task hmoves,setup_moves hs.setup hmoves,hs.once.moves hmoves,
    hs.watched.moves hmoves,hs.late.moves hmoves⟩

/-- A task that is done has no `initdb` left, unless a call to look after it failed. -/
theorem Task.Fits.ended {events : List Event} {child : Child} {r : Except TaskError Bool}
    (h : (Task.returned r).Fits events child) :
    child = .none ∨ child.Reaped ∨ .leftBehind ∈ events := by
  cases r with
  | ok b =>
    cases b with
    | true =>
      obtain ⟨status,_,hchild⟩ := h
      exact .inr (.inl ⟨status,hchild⟩)
    | false => exact .inl h
  | error e =>
    cases e with
    | io => exact h.imp_right .inr
    | failed status => exact .inr (.inl ⟨status,h.2⟩)
    | stopped reason => exact .inr h

structure Accounted (c : Settings) (s : State) : Prop where
  apart : .setup ∈ s.events → s.task = .returned (.ok false) ∧ s.child = .none ∨
    s.task = .returned (.ok true) ∧ ∃ status, status.success = true ∧ s.child = .reaped status
  ended : ∀ r, s.task = .returned r → s.child = .none ∨ s.child.Reaped ∨ .leftBehind ∈ s.events
  once : s.events.count .spawned ≤ 1
  wanted : .spawned ∈ s.events → c.isDisposable = true ∧ c.installed = true
  killed : .killed ∈ s.events → ∃ reason, Reason.Due c s reason
  stopped : ∀ reason, s.task = .returned (.error (.stopped reason)) → reason.Due c s
  late : .dropped ∈ s.events → (sinceDropped s.events).count .polled ≤ 1

/-- Whatever the pace of each party, `setup` does not begin beside an `initdb`, an `initdb` that is
killed was cancelled or out of time, none is left behind where the calls for it succeed, and one that
nobody waits for any more is looked at no more than once before it is killed. -/
theorem initdb_accounted {c : Settings} {s : State} (h : (setups c).Reachable s) :
    Accounted c s := by
  have hs := setups_sound h
  have htask := hs.task
  refine ⟨fun hmem => ?_,fun r hr => ?_,hs.once.once,fun hmem => hs.once.wanted (.inr hmem),
    hs.watched.killed,fun reason hr => hs.watched.reason reason (by rw [hr]; rfl),fun hmem => ?_⟩
  · obtain ⟨b,hb⟩ := hs.setup hmem
    rw [hb] at htask
    cases b with
    | true => exact .inr ⟨hb,htask⟩
    | false => exact .inl ⟨hb,htask⟩
  · rw [hr] at htask
    exact htask.ended
  · exact (Nat.le_add_right _ _).trans (hs.late.polls hmem)

def coldSetup : Settings := ⟨true,true,some 5000⟩

def untouched : State := ⟨0,false,.awaiting,.queued,.none,false,false,false,[]⟩

/-- The future is dropped while the task sleeps, and the next look at `initdb` finds it running. -/
def abandoned : List Action :=
  [.examine,.write true,.spawn true,.childWrites,.arm,.tryWait true,.checkCancel,.checkDeadline,
    .drop] ++ List.replicate pollInterval .tick ++
  [.wake,.tryWait true,.childWrites,.checkCancel,.kill true,.wait true,.eof,.join]

theorem setups_reach (as : List Action) (wanted : State → Bool)
    (h : (System.runSteps (step coldSetup) (fun _ _ => true) untouched as).any wanted = true) :
    ∃ s, (setups coldSetup).Reachable s ∧ wanted s = true := by
  obtain ⟨s,hreach,hwanted⟩ := System.runSteps_reaches State.initial (step coldSetup)
    (fun _ _ => true) (s := untouched) ⟨rfl,rfl,rfl,rfl,rfl,rfl⟩ as wanted h
  exact ⟨s,System.reachable_of_restrict _ hreach,hwanted⟩

theorem initdb_accounted_abandoned : ∃ s, (setups coldSetup).Reachable s ∧
    s.task = .returned (.error (.stopped .cancelled)) ∧ s.child = .reaped (.signal sigkill) ∧
    Accounted coldSetup s := by
  obtain ⟨s,hreach,hwanted⟩ := setups_reach abandoned
    (fun s => s.task = .returned (.error (.stopped .cancelled)) ∧
      s.child = .reaped (.signal sigkill)) (by decide +kernel)
  simp only [decide_eq_true_eq] at hwanted
  exact ⟨s,hreach,hwanted.1,hwanted.2,initdb_accounted hreach⟩

/-! ### The end of a cancelled task -/

/-- The steps a task has still to take when it is to end. -/
def Task.rest : Task → Nat
  | .queued => 9
  | .writing => 8
  | .spawning => 7
  | .arming => 6
  | .checkingDeadline _ => 7
  | .sleeping _ _ => 6
  | .polling _ => 5
  | .checkingCancel _ => 4
  | .killing _ => 3
  | .waiting _ => 2
  | .joining _ => 1
  | .returned _ | .lost => 0

theorem rest_examined : (examined c s).rest < 9 := by
  unfold examined
  split
  · decide
  · split
    · decide
    · split <;> decide

/-- What a task has to wait for: the end of its sleep, of an `initdb` that outlives its kill, or of
all that `initdb` has handed its standard error to. -/
def Blocked (s : State) : Prop :=
  (∃ wakes deadline, s.task = .sleeping wakes deadline ∧ s.clock < wakes) ∨
    (∃ reason, s.task = .waiting reason ∧ s.child = .running) ∨
    ∃ outcome, s.task = .joining outcome ∧ s.stderrOpen = true

theorem moves_rest (h : Moves c s true t) (hcancel : s.cancel = true) :
    t.task.rest < s.task.rest := by
  cases h with
  | examine htask =>
    rw [htask]
    exact rest_examined
  | fail htask => rcases htask with htask | htask <;> rw [htask] <;> exact Nat.succ_pos _
  | proceed htask hnot =>
    rw [hnot] at hcancel
    cases hcancel
  | _ => simp_all [State.goto,State.log,Task.rest]

theorem own_enabled (hs : s.task.Fits s.events s.child) (hrest : s.task.rest ≠ 0)
    (hblocked : ¬ Blocked s) : ∃ a t, a.own = true ∧ step c s a = some t := by
  cases htask : s.task with
  | queued => exact ⟨.examine,_,rfl,if_pos htask⟩
  | writing => exact ⟨.write true,_,rfl,if_pos htask⟩
  | spawning => exact ⟨.spawn true,_,rfl,if_pos htask⟩
  | arming => exact ⟨.arm,_,rfl,if_pos htask⟩
  | polling deadline =>
    rw [htask] at hs
    cases hchild : s.child with
    | running => exact ⟨.tryWait true,_,rfl,by simp only [step,htask,hchild]; rfl⟩
    | exited status => exact ⟨.tryWait true,_,rfl,by simp only [step,htask,hchild]; rfl⟩
    | none =>
      rw [hchild] at hs
      cases hs
    | reaped status =>
      rw [hchild] at hs
      cases hs
  | checkingCancel deadline => exact ⟨.checkCancel,_,rfl,by simp only [step,htask]; rfl⟩
  | checkingDeadline deadline => exact ⟨.checkDeadline,_,rfl,by simp only [step,htask]; rfl⟩
  | sleeping wakes deadline =>
    have hdue : wakes ≤ s.clock := Nat.le_of_not_lt fun hlt =>
      hblocked (.inl ⟨wakes,deadline,htask,hlt⟩)
    exact ⟨.wake,_,rfl,by simp only [step,htask,if_pos hdue]; rfl⟩
  | killing reason => exact ⟨.kill true,_,rfl,by simp only [step,htask]; rfl⟩
  | waiting reason =>
    rw [htask] at hs
    cases hchild : s.child with
    | running => exact absurd (.inr (.inl ⟨reason,htask,hchild⟩)) hblocked
    | exited status => exact ⟨.wait true,_,rfl,by simp only [step,htask,hchild]; rfl⟩
    | none =>
      rw [hchild] at hs
      cases hs
    | reaped status =>
      rw [hchild] at hs
      cases hs
  | joining outcome =>
    have hclosed : s.stderrOpen = false := by
      cases hopen : s.stderrOpen with
      | false => rfl
      | true => exact absurd (.inr (.inr ⟨outcome,htask,hopen⟩)) hblocked
    exact ⟨.join,_,rfl,by simp only [step,htask,hclosed]; rfl⟩
  | returned r =>
    rw [htask] at hrest
    exact absurd rfl hrest
  | lost =>
    rw [htask] at hrest
    exact absurd rfl hrest

/-- A cancelled task is over after nine steps of its own, and it always has one to take unless it has
to wait. -/
theorem cancelled_task_ends {c : Settings} {s : State} (h : (setups c).Reachable s)
    (hcancel : s.cancel = true) : s.task.rest ≤ 9 ∧
      (∀ a t, a.own = true → step c s a = some t → t.task.rest < s.task.rest) ∧
      (s.task.rest ≠ 0 → ¬ Blocked s → ∃ a t, a.own = true ∧ step c s a = some t) := by
  refine ⟨?_,fun a t hown hstep => moves_rest (hown ▸ step_moves hstep) hcancel,
    fun hrest hblocked => own_enabled (setups_sound h).task hrest hblocked⟩
  cases s.task <;> simp [Task.rest]

theorem cancelled_task_ends_abandoned : ∃ s, (setups coldSetup).Reachable s ∧ s.cancel = true ∧
    s.task.rest = 3 ∧ ∃ a t, a.own = true ∧ step coldSetup s a = some t ∧ t.task.rest < 3 := by
  obtain ⟨s,hreach,hwanted⟩ := setups_reach (abandoned.take 33)
    (fun s => s.cancel ∧ s.task = .killing .cancelled) (by decide +kernel)
  simp only [decide_eq_true_eq] at hwanted
  obtain ⟨hcancel,htask⟩ := hwanted
  have hrest : s.task.rest = 3 := by rw [htask]; rfl
  obtain ⟨_,hsteps,hgoes⟩ := cancelled_task_ends hreach hcancel
  have hblocked : ¬ Blocked s := by
    rintro (⟨_,_,h,_⟩ | ⟨_,h,_⟩ | ⟨_,h,_⟩) <;> rw [htask] at h <;> cases h
  obtain ⟨a,t,hown,hstep⟩ := hgoes (by rw [hrest]; decide) hblocked
  exact ⟨s,hreach,hcancel,hrest,a,t,hown,hstep,hrest ▸ hsteps a t hown hstep⟩

end Runs

end PgEmbedSetup.Startup.Initdb
