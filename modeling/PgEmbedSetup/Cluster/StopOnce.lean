import PgEmbedSetup.Cluster.World

set_option autoImplicit false

/-!
A cluster is stopped once: one program at a time owes the stop, an async drop hands it to
its background task, and nothing owes anything once `stop_async` has returned.
-/

namespace PgEmbedSetup.Cluster
open Library

/-- Of one state of a shutdown: no second stop, the first one made before the end, nothing
after `stop_async` has returned, and no server that was started since then touched. -/
structure ShutDownOnce (s : State) : Prop where
  atMostOne : s.world.stops ≤ 1
  exactlyOne : s.settled = true → s.world.forgone = false → s.world.stops = 1
  nothingLater : ∀ event ∈ s.world.events, event.afterReturn = false
  laterServerKept : ∀ event ∈ s.world.events, ∀ server ∈ event.found,
    server.origin ≠ .second true

/-! ### Who owes the stop -/

inductive Share where
  | owes
  | stopped
  | idle
  deriving DecidableEq, Repr

def Share.mayCall (ending : Ending) (g : Share) : Op → Prop
  | .stopHandle | .workerStop => g = .owes
  | .workerCleanup _ | .releaseWatcher | .probePeers | .removeDirAll _ => g = .stopped
  | .tryCurrent | .enterRuntime | .spawnBlocking | .buildRuntime => True
  | .spawn _ => g = .owes ∧ ending = .dropGuard
  | .returned => g ≠ .owes ∧ ending = .stopAsync
  | .shutdownWork | .readPidFile | .probe _ | .signal _ _ | .pollInterval | .postSigkillGrace =>
    False

def Share.after (g : Share) : (op : Op) → Reply op → Share
  | .stopHandle, _ | .workerStop, _ => .stopped
  | .tryCurrent, granted | .enterRuntime, granted | .spawnBlocking, granted
    | .buildRuntime, granted => if granted then g else .idle
  | .spawn _, _ | .returned, _ => .idle
  | _, _ => g

def shares (ending : Ending) : Outline Op Reply Share where
  ok := Share.mayCall ending
  next g op r g' := g' = g.after op r
  final g := g ≠ .owes

theorem shares_call {ending : Ending} {op : Op} {post : Reply op → Share → Prop} {g : Share} :
    (shares ending).wp (call op) post g ↔
      Share.mayCall ending g op ∧ ∀ r, post r (g.after op r) := by
  refine wp_perform.trans (and_congr_right fun _ => forall_congr' fun r => ?_)
  exact forall_eq

theorem stopped_cleansUp (ending : Ending) : CleansUp (shares ending) .stopped := by
  constructor
  · intro op hop
    cases op <;> first | exact rfl | simp [Op.isCleanup] at hop
  · intro op r g' hop hnext
    cases op <;> first | exact hnext | simp [Op.isCleanup] at hop

/-! ### The programs make one stop -/

section Programs
variable {ending : Ending} (c : TestCluster)

theorem stopWorkerManaged_shares {post : Bool → Share → Prop} (hpost : ∀ ok, post ok .stopped) :
    (shares ending).wp (stopWorkerManaged c) post .owes := by
  have hclean := stopped_cleansUp ending
  refine wp_bind.mpr (shares_call.mpr ⟨rfl,?_⟩)
  intro r
  cases hr : workerStopOk r with
  | false =>
    simp only [Bool.false_eq_true,if_false]
    exact hpost false
  | true =>
    simp only [if_true]
    refine wp_bind.mpr (cleanupWorkerManaged_wp hclean c ?_)
    exact wp_bind.mpr (cleanupInProcess_wp hclean c (hpost true))

theorem stopInProcessAsync_shares {post : Bool → Share → Prop} (hpost : ∀ ok, post ok .stopped) :
    (shares ending).wp (stopInProcessAsync c) post .owes := by
  refine wp_bind.mpr (shares_call.mpr ⟨rfl,?_⟩)
  intro r
  cases r with
  | ok => exact wp_bind.mpr (cleanupInProcess_wp (stopped_cleansUp ending) c (hpost true))
  | failed => exact hpost false
  | timedOut => exact hpost false

theorem workerStopSync_shares :
    (shares ending).wp (workerStopSync c) (fun _ g => g ≠ .owes) .owes := by
  refine wp_bind.mpr (shares_call.mpr ⟨trivial,?_⟩)
  intro granted
  cases granted with
  | false => exact Share.noConfusion
  | true =>
    refine wp_bind.mpr (stopWorkerManaged_shares c ?_)
    intro ok
    exact Share.noConfusion

/-- What an async drop hands the stop to makes it. -/
theorem taskBody_safe (task : Task) : (shares ending).Safe (taskBody c task) .owes := by
  cases task with
  | workerStop =>
    refine wp_bind.mpr (shares_call.mpr ⟨trivial,?_⟩)
    intro granted
    cases granted with
    | false => exact Share.noConfusion
    | true => exact workerStopSync_shares c
  | inProcessStop =>
    refine wp_bind.mpr (shares_call.mpr ⟨rfl,?_⟩)
    intro r
    cases r with
    | ok => exact cleanupInProcess_wp (stopped_cleansUp ending) c Share.noConfusion
    | failed => exact Share.noConfusion
    | timedOut => exact Share.noConfusion

/-- An async drop asks for a runtime and hands the stop to a task of it. -/
theorem handOver_safe (task : Task) :
    (shares .dropGuard).Safe
      (do if ← call .tryCurrent then call (.spawn task) else pure ()) .owes := by
  refine wp_bind.mpr (shares_call.mpr ⟨trivial,?_⟩)
  intro granted
  cases granted with
  | false => exact Share.noConfusion
  | true => exact shares_call.mpr ⟨⟨rfl,rfl⟩,fun _ => Share.noConfusion⟩

theorem dropSyncCluster_safe :
    (shares ending).Safe (dropSyncCluster (.started c)) .owes := by
  unfold dropSyncCluster
  cases hm : c.isManagedViaWorker with
  | true =>
    simp only [ClusterGuard.started,hm,if_true]
    refine wp_bind.mpr (stopWorkerManaged_shares c ?_)
    intro ok
    exact Share.noConfusion
  | false =>
    simp only [ClusterGuard.started,hm,Bool.not_false,if_true,Bool.false_eq_true,if_false]
    refine wp_bind.mpr (shares_call.mpr ⟨trivial,?_⟩)
    intro granted
    cases granted with
    | false => exact Share.noConfusion
    | true =>
      refine wp_bind.mpr (shares_call.mpr ⟨rfl,?_⟩)
      intro r
      cases r with
      | ok => exact cleanupInProcess_wp (stopped_cleansUp ending) c Share.noConfusion
      | failed => exact Share.noConfusion
      | timedOut => exact Share.noConfusion

theorem dropAsyncCluster_safe :
    (shares .dropGuard).Safe (dropAsyncCluster (.started c)) .owes := by
  unfold dropAsyncCluster
  cases hm : c.isManagedViaWorker with
  | true =>
    simp only [ClusterGuard.started,hm,if_true]
    exact handOver_safe .workerStop
  | false =>
    simp only [ClusterGuard.started,hm,Bool.not_false,if_true,Bool.false_eq_true,if_false]
    exact handOver_safe .inProcessStop

/-- A guard that was never stopped holds the handle or is worker-managed. -/
theorem started_shouldSkipShutdown : (ClusterGuard.started c).shouldSkipShutdown = false := by
  cases hm : c.isManagedViaWorker <;> simp [ClusterGuard.started,ClusterGuard.shouldSkipShutdown,hm]

theorem drop_safe : (shares .dropGuard).Safe (ClusterGuard.started c).drop .owes := by
  simp only [ClusterGuard.drop,started_shouldSkipShutdown,Bool.false_eq_true,if_false,
    ClusterGuard.performShutdown]
  split
  · exact dropAsyncCluster_safe c
  · exact dropSyncCluster_safe c

theorem stopAsync_safe (hm : c.isManagedViaWorker = false) :
    (shares .stopAsync).Safe (ClusterGuard.started c).stopAsync .owes := by
  rw [stopAsync_inProcess hm]
  refine wp_bind.mpr (stopInProcessAsync_shares c ?_)
  intro ok
  simp only [ClusterGuard.drop,ClusterGuard.shouldSkipShutdown,hm,Bool.not_false,Bool.and_self,
    if_true]
  exact shares_call.mpr ⟨⟨Share.noConfusion,rfl⟩,fun _ => Share.noConfusion⟩

end Programs

/-! ### The account over a run -/

/-- The programs' shares and the record together: one stop, owed or made. -/
structure Accounted (ending : Ending) (w : World) (ghosts : List Share) : Prop where
  atMostOne : ghosts.count .owes + w.stops ≤ 1
  exactlyOne : w.forgone = false → ghosts.count .owes + w.stops = 1
  quiet : w.returned = true → ∀ g ∈ ghosts, g = .idle
  alone : ending = .stopAsync → ghosts.length = 1
  later : ∀ server ∈ w.server, server.origin = .second true → w.returned = true
  early : ∀ event ∈ w.events, event.afterReturn = false ∧
    ∀ server ∈ event.found, server.origin ≠ .second true

section Steps
variable {ending : Ending} {w : World} {ghosts : List Share} {i : Nat} {g : Share}

/-- While some program is not idle, `stop_async` has not returned. -/
theorem Accounted.running (h : Accounted ending w ghosts) (hi : ghosts[i]? = some g)
    (hg : g ≠ .idle) : w.returned = false := by
  cases hr : w.returned with
  | false => rfl
  | true => exact absurd (h.quiet hr g (List.mem_of_getElem? hi)) hg

/-- What is done before `stop_async` returns is early. -/
theorem Accounted.early_log (h : Accounted ending w ghosts) (hw : w.returned = false) (act : Act) :
    ∀ event ∈ (w.log act).events, event.afterReturn = false ∧
      ∀ server ∈ event.found, server.origin ≠ .second true := by
  intro event hevent
  rcases List.mem_append.mp hevent with hold | hnew
  · exact h.early event hold
  · simp only [List.mem_singleton] at hnew
    subst hnew
    refine ⟨hw,?_⟩
    intro server hserver horigin
    rw [h.later server hserver horigin] at hw
    cases hw

theorem Accounted.log (h : Accounted ending w ghosts) (hw : w.returned = false) {act : Act}
    (hact : act ≠ .stop) : Accounted ending (w.log act) ghosts := by
  refine ⟨?_,?_,h.quiet,h.alone,h.later,h.early_log hw act⟩
  · simpa [hact] using h.atMostOne
  · simpa [hact] using h.exactlyOne

theorem count_settle (hi : ghosts[i]? = some .owes) (hg : g ≠ .owes) :
    (ghosts.set i g).count .owes + 1 = ghosts.count .owes := by
  obtain ⟨hlt,hget⟩ := List.getElem?_eq_some_iff.mp hi
  have hpos : 0 < ghosts.count .owes := List.count_pos_iff.mpr (List.mem_of_getElem? hi)
  rw [List.count_set hlt,hget]
  simp only [beq_self_eq_true,if_true,beq_iff_eq,hg,if_false]
  omega

theorem count_idle_le (ghosts : List Share) (i : Nat) :
    (ghosts.set i .idle).count .owes ≤ ghosts.count .owes := by
  by_cases hlt : i < ghosts.length
  · rw [List.count_set hlt]
    have hne : ¬ ((Share.idle == Share.owes) = true) := by decide
    rw [if_neg hne]
    omega
  · rw [List.set_eq_of_length_le (by omega)]

/-- The program that owes the stop makes it. -/
theorem Accounted.stop (h : Accounted ending w ghosts) (hi : ghosts[i]? = some .owes) (ok : Bool) :
    Accounted ending ((w.log .stop).stopEnded ok) (ghosts.set i .stopped) := by
  have hw := h.running hi Share.noConfusion
  have hcount := count_settle hi (g := .stopped) Share.noConfusion
  refine ⟨?_,?_,?_,?_,?_,h.early_log hw .stop⟩
  · have hle := h.atMostOne
    simp only [World.stopEnded_stops,World.log_stops,if_true]
    omega
  · intro hforgone
    have heq := h.exactlyOne hforgone
    simp only [World.stopEnded_stops,World.log_stops,if_true]
    omega
  · intro hr
    rw [World.stopEnded_returned,World.log_returned,hw] at hr
    cases hr
  · intro he
    rw [List.length_set]
    exact h.alone he
  · intro server hserver horigin
    obtain ⟨_,hold⟩ := World.stopEnded_server hserver
    exact h.later server hold horigin

/-- A program gives up its share without a stop. -/
theorem Accounted.forgo (h : Accounted ending w ghosts) (i : Nat) :
    Accounted ending (w.asked false) (ghosts.set i .idle) := by
  refine ⟨?_,?_,?_,?_,h.later,h.early⟩
  · have hle := h.atMostOne
    have hcount := count_idle_le ghosts i
    rw [World.asked_stops]
    omega
  · intro hforgone
    simp [World.asked] at hforgone
  · intro hr g hg
    rcases List.mem_or_eq_of_mem_set hg with hold | rfl
    · exact h.quiet hr g hold
    · rfl
  · intro he
    rw [List.length_set]
    exact h.alone he

/-- An async drop passes the stop on to the task it spawns. -/
theorem Accounted.handOver (h : Accounted .dropGuard w ghosts) (hi : ghosts[i]? = some .owes) :
    Accounted .dropGuard w (ghosts.set i .idle ++ [.owes]) := by
  have hw := h.running hi Share.noConfusion
  have hcount := count_settle hi (g := .idle) Share.noConfusion
  have hsame : (ghosts.set i Share.idle ++ [Share.owes]).count .owes = ghosts.count .owes := by
    rw [List.count_append,List.count_singleton_self]
    exact hcount
  refine ⟨?_,?_,?_,?_,h.later,h.early⟩
  · rw [hsame]
    exact h.atMostOne
  · rw [hsame]
    exact h.exactlyOne
  · intro hr
    rw [hw] at hr
    cases hr
  · intro he
    cases he

theorem Accounted.returns (h : Accounted .stopAsync w ghosts) (hi : ghosts[i]? = some g)
    (hg : g ≠ .owes) : Accounted .stopAsync { w with returned := true } (ghosts.set i .idle) := by
  have hone := h.alone rfl
  obtain ⟨only,rfl⟩ := List.length_eq_one_iff.mp hone
  have hzero : i = 0 := by
    have hlt := (List.getElem?_eq_some_iff.mp hi).1
    simp only [List.length_singleton] at hlt
    omega
  subst hzero
  simp only [List.getElem?_cons_zero,Option.some.injEq] at hi
  subst hi
  have hcount : [only].count .owes = 0 :=
    List.count_eq_zero.mpr (by simpa using Ne.symm hg)
  have hidle : ([only].set 0 .idle).count .owes = 0 := by
    simp
  refine ⟨?_,?_,?_,fun _ => rfl,fun _ _ _ => rfl,h.early⟩
  · rw [hidle,← hcount]
    exact h.atMostOne
  · rw [hidle,← hcount]
    exact h.exactlyOne
  · intro _ g hmem
    simpa using hmem

theorem Accounted.happens (h : Accounted ending w ghosts) {e : Happening} {w' : World}
    (hw : happen w e = some w') : Accounted ending w' ghosts := by
  cases e with
  | serverExits =>
    cases hw
    refine ⟨h.atMostOne,h.exactlyOne,h.quiet,h.alone,?_,h.early⟩
    intro server hserver
    cases hserver
  | serverStarts pid =>
    simp only [happen] at hw
    cases hs : w.server with
    | some server => simp [hs] at hw
    | none =>
      simp only [hs,Option.some.injEq] at hw
      subst hw
      refine ⟨h.atMostOne,h.exactlyOne,h.quiet,h.alone,?_,h.early⟩
      intro server hserver horigin
      cases hserver
      exact Origin.second.inj horigin

end Steps

section Calls
variable {ending : Ending} {w w' : World} {ghosts : List Share} {i : Nat} {g : Share}

/-- A call that starts nothing leaves the list of shares as long as it was. -/
theorem preserved_call (c : TestCluster) {op : Op} {r : Reply op} (hnew : spawned c op = [])
    (h : Accounted ending w' (ghosts.set i (g.after op r))) :
    ∃ g' new, (shares ending).next g op r g' ∧
      List.Forall₂ (shares ending).Safe (spawned c op) new ∧
        Accounted ending w' (ghosts.set i g' ++ new) := by
  refine ⟨g.after op r,[],rfl,?_,?_⟩
  · rw [hnew]
    exact .nil
  · rw [List.append_nil]
    exact h

theorem Accounted.cleanup (h : Accounted ending w ghosts) (hi : ghosts[i]? = some .stopped)
    {act : Act} (hact : act ≠ .stop) : Accounted ending (w.log act) (ghosts.set i .stopped) := by
  rw [set_self hi]
  exact h.log (h.running hi Share.noConfusion) hact

theorem Accounted.asked (h : Accounted ending w ghosts) (hi : ghosts[i]? = some g)
    (granted : Bool) :
    Accounted ending (w.asked granted) (ghosts.set i (if granted then g else .idle)) := by
  cases granted with
  | false => exact h.forgo i
  | true =>
    simp only [if_true]
    rw [set_self hi,World.asked_true]
    exact h

end Calls

/-- What the programs may call keeps the account, however their calls interleave. -/
theorem shares_preserves (c : TestCluster) (ending : Ending) :
    Preserves (machine c) (shares ending) (Accounted ending) (fun _ _ => True) := by
  refine ⟨?_,?_,?_⟩
  · intro s i op r w ghosts g _ hw hj hi hok
    cases op with
    | stopHandle =>
      obtain rfl : g = .owes := hok
      cases hw
      exact preserved_call c rfl (hj.stop hi _)
    | workerStop =>
      obtain rfl : g = .owes := hok
      simp only [machine,answer] at hw
      split at hw
      · cases hw
      · cases hw
        exact preserved_call c rfl (hj.stop hi _)
    | workerCleanup dirs =>
      obtain rfl : g = .stopped := hok
      cases hw
      have hstep : ∀ v dir, Accounted ending v ghosts ∧ v.returned = false →
          Accounted ending (v.log (.remove dir)) ghosts ∧ (v.log (.remove dir)).returned = false :=
        fun v dir hv => ⟨hv.1.log hv.2 Act.noConfusion,hv.2⟩
      have hrunning := hj.running hi Share.noConfusion
      have hclean : Accounted ending (s.world.log .workerCleanup) ghosts :=
        hj.log hrunning Act.noConfusion
      have hall := foldl_log hstep (dirs.take r)
        ⟨hclean,hrunning⟩
      refine preserved_call c rfl ?_
      change Accounted ending _ (ghosts.set i .stopped)
      rw [set_self hi]
      exact hall.1
    | releaseWatcher =>
      obtain rfl : g = .stopped := hok
      cases hw
      exact preserved_call c rfl (hj.cleanup hi Act.noConfusion)
    | probePeers =>
      obtain rfl : g = .stopped := hok
      cases hw
      exact preserved_call c rfl (hj.cleanup hi Act.noConfusion)
    | removeDirAll dir =>
      obtain rfl : g = .stopped := hok
      cases hw
      exact preserved_call c rfl (hj.cleanup hi Act.noConfusion)
    | tryCurrent | enterRuntime | spawnBlocking | buildRuntime =>
      cases hw
      exact preserved_call c rfl (hj.asked hi r)
    | spawn task =>
      obtain ⟨rfl,rfl⟩ := hok
      cases hw
      exact ⟨.idle,[.owes],rfl,.cons (taskBody_safe c task) .nil,hj.handOver hi⟩
    | returned =>
      obtain ⟨hg,rfl⟩ := hok
      cases hw
      exact preserved_call c rfl (hj.returns hi hg)
    | shutdownWork | readPidFile | probe _ | signal _ _ | pollInterval | postSigkillGrace =>
      exact hok.elim
  · intro s i ghosts _ hj
    exact ⟨.idle,Share.noConfusion,hj.forgo i⟩
  · intro s e w ghosts _ hw hj
    exact hj.happens hw

/-! ### Two clusters -/

def sampleCluster (isManagedViaWorker : Bool) : TestCluster where
  isAsync := true
  isManagedViaWorker := isManagedViaWorker
  cleanupMode := .dataOnly
  settings := {
    dataDir := ⟨true,[.name "data".toList]⟩
    installationDir := ⟨true,[.name "install".toList]⟩
    passwordFile := ⟨true,[.name "install".toList,.name ".pgpass".toList]⟩ }

def firstPid : Pid := ⟨4241,by decide,by decide⟩

def secondPid : Pid := ⟨4242,Nat.zero_lt_succ _,Nat.le_of_ble_eq_true rfl⟩

/-! ### Every run -/

theorem program_safe (c : TestCluster) (ending : Ending)
    (hway : ending = .dropGuard ∨ ending = .stopAsync ∧ c.isAsync = true)
    (hcond : ¬ (ending = .stopAsync ∧ c.isManagedViaWorker = true)) :
    (shares ending).Safe (ending.program c) .owes := by
  rcases hway with rfl | ⟨rfl,_⟩
  · exact drop_safe c
  · refine stopAsync_safe c ?_
    simpa using hcond

theorem accounted_begin (c : TestCluster) (ending : Ending)
    (hsafe : (shares ending).Safe (ending.program c) .owes) (pid : Pid) :
    Outlined (shares ending) (Accounted ending) (begin c ending pid) := by
  refine ⟨[.owes],.cons hsafe .nil,?_⟩
  refine ⟨by simp [begin,World.started,World.stops],by simp [begin,World.started,World.stops],
    ?_,fun _ => rfl,?_,?_⟩
  · intro hr
    cases hr
  · intro server hserver horigin
    cases hserver
    cases horigin
  · intro event hevent
    cases hevent

end PgEmbedSetup.Cluster
