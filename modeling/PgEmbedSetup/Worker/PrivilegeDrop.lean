import PgEmbedSetup.Library.Transition

set_option autoImplicit false

/-!
The counter behind `disable_privilege_drop_for_tests`: any number of threads take guards, drop
them and ask whether a worker keeps its privileges, one atomic access at a time.
-/

namespace PgEmbedSetup.Worker.PrivilegeDrop
open Library

/-- Where a thread is. A guard is given up as soon as its `drop` begins. -/
inductive Point where
  | idle
  /-- `decrement_counter`, before its `load`. -/
  | loading
  /-- At the head of the loop. -/
  | exchanging (current : Nat)
  /-- The `debug_assert!` failed. -/
  | panicked
  /-- What `skip_privilege_drop_for_tests` has read. -/
  | checked (skip : Bool)
  deriving DecidableEq

inductive Event where
  | changed (thread : Nat)
  /-- A `compare_exchange` that found another value. -/
  | failed (thread : Nat)

/-- `guards` counts the guards that are held, by whatever thread. -/
structure State where
  counter : Nat
  guards : Nat
  points : List Point
  events : List Event

def State.initial : State := ⟨0,0,[],[]⟩

inductive Action where
  | spawn
  | disable (i : Nat)
  | drop (i : Nat)
  | load (i : Nat)
  | exchange (i : Nat)
  | check (i : Nat)
  | resume (i : Nat)

def State.goto (s : State) (i : Nat) (p : Point) : State := { s with points := s.points.set i p }

def disablePrivilegeDropForTests (max : Nat) (s : State) (i : Nat) : State :=
  { s with
    counter := (s.counter+1)%(max+1), guards := s.guards+1, events := .changed i :: s.events }

/-- One turn of the loop of `decrement_counter`. -/
def exchangeCounter (debug : Bool) (s : State) (i current : Nat) : State :=
  if debug ∧ current = 0 then s.goto i .panicked
  else if s.counter = current then
    { s.goto i .idle with counter := current-1, events := .changed i :: s.events }
  else { s.goto i (.exchanging s.counter) with events := .failed i :: s.events }

def skipPrivilegeDropForTests (s : State) : Bool := decide (0 < s.counter)

/-- `max` is `usize::MAX`, and `debug` says whether assertions are compiled in. -/
def step (max : Nat) (debug : Bool) (s : State) : Action → Option State
  | .spawn => some { s with points := s.points ++ [.idle] }
  | .disable i =>
    if s.points[i]? = some .idle then some (disablePrivilegeDropForTests max s i) else none
  | .drop i =>
    if s.points[i]? = some .idle ∧ 0 < s.guards then
      some { s.goto i .loading with guards := s.guards-1 }
    else none
  | .load i =>
    if s.points[i]? = some .loading then some (s.goto i (.exchanging s.counter)) else none
  | .exchange i =>
    match s.points[i]? with
    | some (.exchanging current) => some (exchangeCounter debug s i current)
    | _ => none
  | .check i =>
    if s.points[i]? = some .idle then some (s.goto i (.checked (skipPrivilegeDropForTests s)))
    else none
  | .resume i =>
    match s.points[i]? with
    | some (.checked _) => some (s.goto i .idle)
    | _ => none

/-- In the middle of dropping a guard. -/
def Point.releases : Point → Bool
  | .loading | .exchanging _ => true
  | .idle | .panicked | .checked _ => false

def State.releasing (s : State) : Nat := s.points.countP Point.releases

/-- A guard is only taken while the counter has room for it. -/
def Roomy (max : Nat) (s : State) : Action → Prop
  | .disable _ => s.guards+s.releasing < max
  | _ => True

def threads (max : Nat) (debug : Bool) : System State Action :=
  (System.ofStep (· = State.initial) (step max debug)).restrict (Roomy max)

/-! ### What a step can do -/

section Moves
variable {s t : State} {max : Nat} {debug : Bool}

inductive Moves (max : Nat) (debug : Bool) (s : State) : State → Prop where
  | spawn : Moves max debug s { s with points := s.points ++ [.idle] }
  | disable {i : Nat} (hp : s.points[i]? = some .idle) (hroom : s.guards+s.releasing < max) :
      Moves max debug s (disablePrivilegeDropForTests max s i)
  | drop {i : Nat} (hp : s.points[i]? = some .idle) (hguards : 0 < s.guards) :
      Moves max debug s { s.goto i .loading with guards := s.guards-1 }
  | load {i : Nat} (hp : s.points[i]? = some .loading) :
      Moves max debug s (s.goto i (.exchanging s.counter))
  | panic {i : Nat} (hp : s.points[i]? = some (.exchanging 0)) (hdebug : debug = true) :
      Moves max debug s (s.goto i .panicked)
  | release {i : Nat} (hp : s.points[i]? = some (.exchanging s.counter)) :
      Moves max debug s
        { s.goto i .idle with counter := s.counter-1, events := .changed i :: s.events }
  | retry {i current : Nat} (hp : s.points[i]? = some (.exchanging current))
      (hne : s.counter ≠ current) :
      Moves max debug s
        { s.goto i (.exchanging s.counter) with events := .failed i :: s.events }
  | check {i : Nat} (hp : s.points[i]? = some .idle) :
      Moves max debug s (s.goto i (.checked (skipPrivilegeDropForTests s)))
  | resume {i : Nat} {skip : Bool} (hp : s.points[i]? = some (.checked skip)) :
      Moves max debug s (s.goto i .idle)

theorem exchange_moves {i current : Nat} (hp : s.points[i]? = some (.exchanging current)) :
    Moves max debug s (exchangeCounter debug s i current) := by
  unfold exchangeCounter
  split
  · next h =>
    obtain ⟨hdebug,rfl⟩ := h
    exact .panic hp hdebug
  · split
    · next h =>
      subst h
      exact .release hp
    · next h => exact .retry hp h

theorem step_moves {a : Action} (hroom : Roomy max s a) (h : step max debug s a = some t) :
    Moves max debug s t := by
  cases a with
  | spawn =>
    cases h
    exact .spawn
  | disable i =>
    obtain ⟨hp,ht⟩ := Option.ite_none_right_eq_some.mp h
    cases ht
    exact .disable hp hroom
  | drop i =>
    obtain ⟨⟨hp,hguards⟩,ht⟩ := Option.ite_none_right_eq_some.mp h
    cases ht
    exact .drop hp hguards
  | load i =>
    obtain ⟨hp,ht⟩ := Option.ite_none_right_eq_some.mp h
    cases ht
    exact .load hp
  | exchange i =>
    unfold step at h
    dsimp only at h
    split at h
    · next hp =>
      cases h
      exact exchange_moves hp
    · cases h
  | check i =>
    obtain ⟨hp,ht⟩ := Option.ite_none_right_eq_some.mp h
    cases ht
    exact .check hp
  | resume i =>
    unfold step at h
    dsimp only at h
    split at h
    · next hp =>
      cases h
      exact .resume hp
    · cases h

/-- What holds at the start and survives every move holds in every reachable state. -/
theorem moves_invariant {I : State → Prop} (hinit : I State.initial)
    (hmoves : ∀ s t, I s → Moves max debug s t → I t) {s : State}
    (h : (threads max debug).Reachable s) : I s := by
  refine (threads max debug).invariant ?_ ?_ h
  · rintro s rfl
    exact hinit
  · rintro s a t hs ⟨hroom,hstep⟩
    exact hmoves s t hs (step_moves hroom hstep)

end Moves

/-! ### The counter counts the guards -/

section Counting
variable {s t : State} {max : Nat} {debug : Bool}

/-- Only the thread that moves enters a drop or leaves one. -/
theorem releasing_set {points : List Point} {i : Nat} {p q : Point} (hp : points[i]? = some p) :
    (points.set i q).countP Point.releases + p.releases.toNat =
      points.countP Point.releases + q.releases.toNat := by
  obtain ⟨hlt,hget⟩ := List.getElem?_eq_some_iff.mp hp
  have hpos : p.releases = true → 0 < points.countP Point.releases := fun hrel =>
    List.countP_pos_iff.mpr ⟨p,List.mem_of_getElem? hp,hrel⟩
  rw [List.countP_set hlt,hget]
  cases hr : p.releases with
  | false => cases q.releases <;> simp
  | true =>
    have := hpos hr
    cases q.releases <;> simp <;> omega

theorem releasing_pos {points : List Point} {i : Nat} {p : Point} (hp : points[i]? = some p)
    (hrel : p.releases = true) : 0 < points.countP Point.releases :=
  List.countP_pos_iff.mpr ⟨p,List.mem_of_getElem? hp,hrel⟩

/-- A value in flight was read while its own guard was still counted. -/
structure Counted (s : State) : Prop where
  counter : s.counter = s.guards+s.releasing
  current : ∀ (i : Nat) (current : Nat), s.points[i]? = some (.exchanging current) → 0 < current
  sane : ∀ i : Nat, s.points[i]? ≠ some .panicked

theorem counted_initial : Counted State.initial := by
  constructor <;> simp [State.initial,State.releasing]

theorem counter_pos (hs : Counted s) {i : Nat} {p : Point} (hp : s.points[i]? = some p)
    (hrel : p.releases = true) : 0 < s.counter := by
  have hpos := releasing_pos hp hrel
  rw [hs.counter,State.releasing]
  omega

/-- A thread moves to a point that holds no value, or one that is positive. -/
theorem Counted.move (hs : Counted s) {i : Nat} {p q : Point} (hp : s.points[i]? = some p)
    (hcurrent : ∀ current, q = .exchanging current → 0 < current) (hsane : q ≠ .panicked)
    {counter guards : Nat} (events : List Event)
    (hcount : counter+s.guards+p.releases.toNat = s.counter+guards+q.releases.toNat) :
    Counted ⟨counter,guards,s.points.set i q,events⟩ := by
  have hset := releasing_set (q := q) hp
  have hcounter := hs.counter
  refine ⟨?_,fun j current => ?_,fun j => ?_⟩
  · simp only [State.releasing] at hcounter ⊢
    omega
  · rw [List.getElem?_set]
    split
    · split
      · exact fun h => hcurrent current (Option.some.inj h)
      · exact fun h => by cases h
    · exact hs.current j current
  · rw [List.getElem?_set]
    split
    · split
      · exact fun h => hsane (Option.some.inj h)
      · exact fun h => by cases h
    · exact hs.sane j

theorem counted_spawn (hs : Counted s) : Counted { s with points := s.points ++ [.idle] } := by
  have hnew : ∀ (i : Nat) p, (s.points ++ [.idle])[i]? = some p →
      s.points[i]? = some p ∨ p = .idle := by
    intro i p hp
    rw [List.getElem?_append] at hp
    split at hp
    · exact .inl hp
    · exact .inr (by simpa using List.mem_of_getElem? hp)
  refine ⟨?_,fun i current hi => ?_,fun i hi => ?_⟩
  · simp [hs.counter,State.releasing,Point.releases]
  · rcases hnew i _ hi with hi | hi
    · exact hs.current i current hi
    · cases hi
  · rcases hnew i _ hi with hi | hi
    · exact hs.sane i hi
    · cases hi

theorem counted_moves (hs : Counted s) (hmoves : Moves max debug s t) : Counted t := by
  cases hmoves with
  | spawn => exact counted_spawn hs
  | disable hp hroom =>
    have hmod : (s.counter+1)%(max+1) = s.counter+1 :=
      Nat.mod_eq_of_lt (by rw [hs.counter]; omega)
    refine ⟨?_,hs.current,hs.sane⟩
    change (s.counter+1)%(max+1) = s.guards+1+s.releasing
    rw [hmod,hs.counter]
    omega
  | drop hp hguards =>
    refine hs.move hp (by simp) (by simp) _ ?_
    simp only [Point.releases,Bool.toNat_false,Bool.toNat_true,State.goto]
    omega
  | load hp =>
    refine hs.move hp (fun _ h => ?_) (by simp) _ rfl
    cases h
    exact counter_pos hs hp rfl
  | panic hp hdebug => exact absurd (hs.current _ _ hp) (Nat.lt_irrefl 0)
  | release hp =>
    have hpos := counter_pos hs hp rfl
    refine hs.move hp (by simp) (by simp) _ ?_
    simp only [Point.releases,Bool.toNat_false,Bool.toNat_true,State.goto]
    omega
  | retry hp hne =>
    refine hs.move hp (fun _ h => ?_) (by simp) _ rfl
    cases h
    exact counter_pos hs hp rfl
  | check hp => exact hs.move hp (by simp) (by simp) _ rfl
  | resume hp => exact hs.move hp (by simp) (by simp) _ rfl

theorem counted_reachable (h : (threads max debug).Reachable s) : Counted s :=
  moves_invariant counted_initial (fun _ _ => counted_moves) h

end Counting

/-- While a guard is held or being dropped every worker keeps its privileges, and with none left
every worker loses them; no `drop` finds the counter at zero. -/
theorem skip_tracks_guards {s : State} {max : Nat} {debug : Bool}
    (h : (threads max debug).Reachable s) :
    s.counter = s.guards+s.releasing ∧ (∀ i : Nat, s.points[i]? ≠ some .panicked) ∧
      ∀ i t, step max debug s (.check i) = some t →
        t.points[i]? = some (.checked (decide (0 < s.guards+s.releasing))) := by
  have hs := counted_reachable h
  refine ⟨hs.counter,hs.sane,fun i t ht => ?_⟩
  obtain ⟨hp,heq⟩ := Option.ite_none_right_eq_some.mp ht
  cases heq
  obtain ⟨hlt,-⟩ := List.getElem?_eq_some_iff.mp hp
  simp [State.goto,skipPrivilegeDropForTests,hs.counter,List.getElem?_set_self hlt]

/-! ### Who delays a drop -/

section Progress
variable {s t : State} {max : Nat} {debug : Bool}

def Event.failedBy (i : Nat) : Event → Bool
  | .failed j => decide (j = i)
  | .changed _ => false

def Event.changedByOther (i : Nat) : Event → Bool
  | .changed j => decide (j ≠ i)
  | .failed _ => false

/-- A value that is out of date was overtaken by a change not yet paid for. -/
structure Delayed (i : Nat) (s : State) : Prop where
  paid : s.events.countP (Event.failedBy i) ≤ s.events.countP (Event.changedByOther i)
  stale : ∀ current, s.points[i]? = some (.exchanging current) → current ≠ s.counter →
    s.events.countP (Event.failedBy i) < s.events.countP (Event.changedByOther i)

theorem delayed_initial (i : Nat) : Delayed i State.initial := by
  constructor <;> simp [State.initial]

theorem getElem?_set_other {points : List Point} {i j : Nat} {p q : Point} (hne : j ≠ i)
    (h : (points.set i q)[j]? = some p) : points[j]? = some p := by
  rwa [List.getElem?_set_ne (Ne.symm hne)] at h

/-- A thread that moves without a change of the counter makes no other one's value stale. -/
theorem Delayed.move {i j : Nat} (hs : Delayed i s) {q : Point} (guards : Nat)
    (hfresh : ∀ current, q = .exchanging current → current = s.counter) :
    Delayed i ⟨s.counter,guards,s.points.set j q,s.events⟩ := by
  refine ⟨hs.paid,fun current hi hne => ?_⟩
  dsimp only at hi hne
  by_cases hij : i = j
  · subst hij
    rw [List.getElem?_set] at hi
    split at hi
    · split at hi
      · exact absurd (hfresh current (Option.some.inj hi)) hne
      · cases hi
    · exact hs.stale current hi hne
  · exact hs.stale current (getElem?_set_other hij hi) hne

/-- A change by another thread pays for one failure, and this thread's own leaves it idle. -/
theorem Delayed.change {i j : Nat} (hs : Delayed i s) {counter guards : Nat} {points : List Point}
    (hown : i = j → points[i]? = some .idle) :
    Delayed i ⟨counter,guards,points,.changed j :: s.events⟩ := by
  have hpaid := hs.paid
  refine ⟨?_,fun current hi hne => ?_⟩
  · simp only [List.countP_cons,Event.failedBy,Bool.false_eq_true,if_false]
    omega
  · by_cases hij : i = j
    · rw [hown hij] at hi
      cases hi
    · have hother : Event.changedByOther i (.changed j) = true := decide_eq_true (Ne.symm hij)
      simp only [List.countP_cons,Event.failedBy,hother]
      simp only [Bool.false_eq_true,if_false,if_true]
      omega

theorem delayed_moves {i : Nat} (hs : Delayed i s) (hmoves : Moves max debug s t) :
    Delayed i t := by
  cases hmoves with
  | spawn =>
    refine ⟨hs.paid,fun current hi hne => ?_⟩
    dsimp only at hi
    rw [List.getElem?_append] at hi
    split at hi
    · exact hs.stale current hi hne
    · cases List.mem_singleton.mp (List.mem_of_getElem? hi)
  | disable hp hroom => exact hs.change (fun hij => hij ▸ hp)
  | drop hp hguards => exact hs.move _ (by simp)
  | load hp => exact hs.move _ (by simp)
  | panic hp hdebug => exact hs.move _ (by simp)
  | @release j hp =>
    obtain ⟨hlt,-⟩ := List.getElem?_eq_some_iff.mp hp
    refine hs.change (fun hij => ?_)
    subst hij
    exact List.getElem?_set_self hlt
  | @retry j current hp hne =>
    have hmove := hs.move (j := j) (q := .exchanging s.counter) s.guards (by simp)
    by_cases hij : i = j
    · subst hij
      -- the failure is paid for by the change that made the value stale
      have hlt := hs.stale current hp (Ne.symm hne)
      obtain ⟨hbound,-⟩ := List.getElem?_eq_some_iff.mp hp
      refine ⟨?_,fun c hi hc => ?_⟩
      · simp only [List.countP_cons,Event.failedBy,Event.changedByOther]
        simp only [decide_true,if_true,Bool.false_eq_true,if_false]
        omega
      · change (s.points.set i (.exchanging s.counter))[i]? = some (.exchanging c) at hi
        rw [List.getElem?_set_self hbound] at hi
        cases hi
        exact absurd rfl hc
    · have hnot : Event.failedBy i (.failed j) = false := decide_eq_false (Ne.symm hij)
      refine ⟨?_,fun c hi hc => ?_⟩
      · simp only [List.countP_cons,hnot,Event.changedByOther,Bool.false_eq_true,if_false]
        exact hs.paid
      · simp only [List.countP_cons,hnot,Event.changedByOther,Bool.false_eq_true,if_false]
        exact hmove.stale c hi hc
  | check hp => exact hs.move _ (by simp)
  | resume hp => exact hs.move _ (by simp)

theorem delayed_reachable (h : (threads max debug).Reachable s) (i : Nat) : Delayed i s :=
  moves_invariant (delayed_initial i) (fun _ _ => delayed_moves) h

/-- What a thread in a drop does next by itself. -/
def Point.releaseSteps (i : Nat) : Point → List Action
  | .loading => [.load i,.exchange i]
  | .exchanging _ => [.exchange i,.exchange i]
  | .idle | .panicked | .checked _ => []

/-- The guard is gone and the thread is out of its drop. -/
structure Released (i : Nat) (s t : State) : Prop where
  points : t.points = s.points.set i .idle
  guards : t.guards = s.guards
  counter : t.counter+1 = s.counter

variable (max debug) in
/-- With its value up to date the thread's exchange succeeds. -/
theorem exchange_fresh {i : Nat} (hp : s.points[i]? = some (.exchanging s.counter))
    (hpos : 0 < s.counter) : ∃ t, step max debug s (.exchange i) = some t ∧ Released i s t := by
  have hne : ¬ (debug = true ∧ s.counter = 0) := fun h => by omega
  have hstep : step max debug s (.exchange i) = some
      { s.goto i .idle with counter := s.counter-1, events := .changed i :: s.events } := by
    simp only [step,hp,exchangeCounter,if_neg hne,if_true]
  exact ⟨_,hstep,rfl,rfl,Nat.sub_add_cancel hpos⟩

variable (max debug) in
theorem exchange_stale {i current : Nat} (hp : s.points[i]? = some (.exchanging current))
    (hpos : 0 < current) (hne : s.counter ≠ current) :
    step max debug s (.exchange i) = some
      { s.goto i (.exchanging s.counter) with events := .failed i :: s.events } := by
  have hnot : ¬ (debug = true ∧ current = 0) := fun h => by omega
  simp only [step,hp,exchangeCounter,if_neg hnot,if_neg hne]

/-- A drop that nobody interrupts is over after two accesses at most. -/
theorem release_alone (hs : Counted s) {i : Nat} {p : Point} (hp : s.points[i]? = some p)
    (hrel : p.releases = true) :
    ∃ as t, as.length ≤ 2 ∧ as.Sublist (p.releaseSteps i) ∧
      System.runSteps (step max debug) (fun _ _ => true) s as = some t ∧ Released i s t := by
  have hpos := counter_pos hs hp hrel
  obtain ⟨hlt,-⟩ := List.getElem?_eq_some_iff.mp hp
  have hread : (s.points.set i (.exchanging s.counter))[i]? = some (.exchanging s.counter) :=
    List.getElem?_set_self hlt
  -- once its value is fresh, one exchange ends the drop
  have hend : ∀ events, ∃ t, step max debug
      ⟨s.counter,s.guards,s.points.set i (.exchanging s.counter),events⟩ (.exchange i) = some t ∧
      Released i s t := by
    intro events
    obtain ⟨t,ht,hpoints,hguards,hcounter⟩ := exchange_fresh max debug
      (s := ⟨s.counter,s.guards,s.points.set i (.exchanging s.counter),events⟩) hread hpos
    exact ⟨t,ht,by rw [hpoints,List.set_set],hguards,hcounter⟩
  cases p with
  | loading =>
    have hload : step max debug s (.load i) = some (s.goto i (.exchanging s.counter)) := by
      simp only [step,hp,if_true]
    obtain ⟨t,ht,hreleased⟩ := hend s.events
    refine ⟨[.load i,.exchange i],t,Nat.le_refl 2,List.Sublist.refl _,?_,hreleased⟩
    simp only [System.runSteps,if_true,hload,Option.bind_some,State.goto,ht]
  | exchanging current =>
    by_cases hcur : s.counter = current
    · subst hcur
      obtain ⟨t,ht,hreleased⟩ := exchange_fresh max debug hp hpos
      refine ⟨[.exchange i],t,Nat.le_succ 1,by simp [Point.releaseSteps],?_,hreleased⟩
      simp only [System.runSteps,if_true,ht,Option.bind_some]
    · have hretry := exchange_stale max debug hp (hs.current i current hp) hcur
      obtain ⟨t,ht,hreleased⟩ := hend (.failed i :: s.events)
      refine ⟨[.exchange i,.exchange i],t,Nat.le_refl 2,List.Sublist.refl _,?_,hreleased⟩
      simp only [System.runSteps,if_true,hretry,Option.bind_some,State.goto,ht]
  | idle => cases hrel
  | panicked => cases hrel
  | checked skip => cases hrel

end Progress

/-- A drop fails to exchange only as often as other threads change the counter, and when they
leave it alone it is over after two accesses, whatever it had read before. -/
theorem drop_delayed_by_others {s : State} {max : Nat} {debug : Bool}
    (h : (threads max debug).Reachable s) (i : Nat) :
    s.events.countP (Event.failedBy i) ≤ s.events.countP (Event.changedByOther i) ∧
      ∀ p, s.points[i]? = some p → p.releases = true →
        ∃ as t, as.length ≤ 2 ∧ as.Sublist (p.releaseSteps i) ∧
          System.runSteps (step max debug) (fun _ _ => true) s as = some t ∧ Released i s t :=
  ⟨(delayed_reachable h i).paid,fun _ => release_alone (counted_reachable h)⟩

/-! ### Two guards dropped at once -/

/-- Both drops read two, the slower one finds one and tries again. -/
def racingDrops : List Action :=
  [.spawn,.spawn,.disable 0,.disable 1,.drop 0,.drop 1,.load 0,.load 1,.exchange 0,.exchange 1]

def roomyCheck (max : Nat) (s : State) : Action → Bool
  | .disable _ => decide (s.guards+s.releasing < max)
  | _ => true

theorem roomy_of_check {max : Nat} {s : State} {a : Action} (h : roomyCheck max s a = true) :
    Roomy max s a := by
  cases a with
  | disable i =>
    change s.guards+s.releasing < max
    exact of_decide_eq_true h
  | spawn | drop | load | exchange | check | resume => trivial

theorem racingDrops_reachable :
    ∃ s, (threads 255 true).Reachable s ∧
      decide (s.points = [.idle,.exchanging 1] ∧ s.counter = 1) = true := by
  obtain ⟨s,hs,hwanted⟩ := System.runSteps_reaches (· = State.initial) (step 255 true)
    (roomyCheck 255) rfl racingDrops
    (fun s => decide (s.points = [.idle,.exchanging 1] ∧ s.counter = 1)) (by decide)
  exact ⟨s,System.reachable_mono _ (fun _ _ => roomy_of_check) hs,hwanted⟩

theorem skip_tracks_guards_racing : ∃ s : State, s.points = [.idle,.exchanging 1] ∧
    s.counter = s.guards+s.releasing := by
  obtain ⟨s,hs,hwanted⟩ := racingDrops_reachable
  exact ⟨s,(of_decide_eq_true hwanted).1,(skip_tracks_guards hs).1⟩

theorem drop_delayed_by_others_racing : ∃ s : State, s.points = [.idle,.exchanging 1] ∧
    s.events.countP (Event.failedBy 1) ≤ s.events.countP (Event.changedByOther 1) := by
  obtain ⟨s,hs,hwanted⟩ := racingDrops_reachable
  exact ⟨s,(of_decide_eq_true hwanted).1,(drop_delayed_by_others hs 1).1⟩

end PgEmbedSetup.Worker.PrivilegeDrop
