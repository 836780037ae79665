import PgEmbedSetup.Cluster.World

set_option autoImplicit false

/-!
A cluster's directories are removed only by a program that knows its server to be gone: from
a stop that succeeded, from the PID file, or from a probe of the PID it had read there.
-/

namespace PgEmbedSetup.Cluster
open Library
open Root (CleanupMode)

/-- Every removal found no server and no failed stop behind it. -/
def FilesKept (w : World) : Prop :=
  ∀ event ∈ w.events, ∀ dir, event.act = .remove dir →
    event.found = none ∧ event.stopFailed = false

/-- Nothing else starts a server on the directory, and the exit hook does not get past
`SIGKILL` with the server still there and files to remove. -/
def undisturbed (c : TestCluster) (s : State) : Action → Bool
  | .env (.serverStarts _) => false
  | .advance _ .postSigkillGrace _ => s.world.server.isNone || c.cleanupMode = .none
  | _ => true

/-! ### What a program knows -/

inductive Knowledge where
  /-- Nothing: its cluster is in another program's hands. -/
  | idle
  /-- That no stop has been tried. -/
  | fresh
  /-- That, besides, a server still running has this PID. -/
  | watching (pid : Nat)
  /-- That no server is running. -/
  | down
  /-- Nothing, after a stop that may have failed. -/
  | unsure
  deriving DecidableEq, Repr

/-- Whether the cluster is in this program's hands. -/
def Knowledge.active (g : Knowledge) : Bool := g ≠ .idle

def Knowledge.holds (w : World) : Knowledge → Prop
  | .idle | .unsure => True
  | .fresh => w.lastStop = none
  | .watching pid => w.lastStop = none ∧ ∀ server ∈ w.server, server.pid.val = pid
  | .down => w.server = none ∧ w.lastStop ≠ some false

def Knowledge.mayCall (g : Knowledge) : Op → Prop
  | .workerCleanup _ | .probePeers | .removeDirAll _ => g = .down
  | .readPidFile => g = .fresh
  | .probe pid | .signal pid _ => g = .watching pid
  | .postSigkillGrace => ∃ pid, g = .watching pid
  | .returned => True
  | _ => g ≠ .idle

def afterStop (ok : Bool) : Knowledge := if ok then .down else .unsure

def afterRead : Except Unit (Option Nat) → Knowledge
  | .error () => .fresh
  | .ok none => .down
  | .ok (some pid) => .watching pid

def Knowledge.after (c : TestCluster) (g : Knowledge) : (op : Op) → Reply op → Knowledge
  | .stopHandle, r => afterStop (r = .ok)
  | .workerStop, r => afterStop (workerStopOk r)
  | .spawn _, _ => .idle
  | .readPidFile, file => afterRead (readPostmasterProcess file)
  | .probe _, r => if r = .noSuchProcess then .down else g
  | .postSigkillGrace, _ => if c.cleanupMode = .none then g else .down
  | _, _ => g

def knowledge (c : TestCluster) : Outline Op Reply Knowledge where
  ok := Knowledge.mayCall
  next g op r g' := g' = g.after c op r
  final _ := True

theorem knowledge_call {c : TestCluster} {op : Op} {post : Reply op → Knowledge → Prop}
    {g : Knowledge} :
    (knowledge c).wp (call op) post g ↔
      g.mayCall op ∧ ∀ r, post r (g.after c op r) := by
  refine wp_perform.trans (and_congr_right fun _ => forall_congr' fun r => ?_)
  exact forall_eq

theorem down_cleansUp (c : TestCluster) : CleansUp (knowledge c) .down := by
  constructor
  · intro op hop
    cases op <;> first | exact rfl | exact Knowledge.noConfusion | simp [Op.isCleanup] at hop
  · intro op r g' hop hnext
    cases op <;> first | exact hnext | simp [Op.isCleanup] at hop

/-! ### The programs remove only what they know to be unused -/

section Programs
variable (c : TestCluster) {g : Knowledge}

theorem stopWorkerManaged_knowledge (hg : g ≠ .idle) {post : Bool → Knowledge → Prop}
    (hpost : ∀ ok g', g' ≠ .idle → post ok g') :
    (knowledge c).wp (stopWorkerManaged c) post g := by
  refine wp_bind.mpr (knowledge_call.mpr ⟨hg,?_⟩)
  intro r
  change (knowledge c).wp _ _ (afterStop (workerStopOk r))
  cases workerStopOk r with
  | false => exact hpost false _ Knowledge.noConfusion
  | true =>
    refine wp_bind.mpr (cleanupWorkerManaged_wp (down_cleansUp c) c ?_)
    exact wp_bind.mpr (cleanupInProcess_wp (down_cleansUp c) c
      (hpost true _ Knowledge.noConfusion))

theorem stopInProcessAsync_knowledge (hg : g ≠ .idle) {post : Bool → Knowledge → Prop}
    (hpost : ∀ ok g', g' ≠ .idle → post ok g') :
    (knowledge c).wp (stopInProcessAsync c) post g := by
  refine wp_bind.mpr (knowledge_call.mpr ⟨hg,?_⟩)
  intro r
  cases r with
  | ok =>
    exact wp_bind.mpr (cleanupInProcess_wp (down_cleansUp c) c
      (hpost true _ Knowledge.noConfusion))
  | failed => exact hpost false _ Knowledge.noConfusion
  | timedOut => exact hpost false _ Knowledge.noConfusion

/-- The stop of a handle with the cleanup a success allows. -/
theorem stopHandle_knowledge (hg : g ≠ .idle) :
    (knowledge c).wp (asyncCleanupTask c) (fun _ _ => True) g := by
  refine wp_bind.mpr (knowledge_call.mpr ⟨hg,?_⟩)
  intro r
  cases r with
  | ok => exact cleanupInProcess_wp (down_cleansUp c) c trivial
  | failed => trivial
  | timedOut => trivial

theorem workerStopSync_knowledge (hg : g ≠ .idle) :
    (knowledge c).wp (workerStopSync c) (fun _ _ => True) g := by
  refine wp_bind.mpr (knowledge_call.mpr ⟨hg,?_⟩)
  intro granted
  cases granted with
  | false => trivial
  | true => exact wp_bind.mpr (stopWorkerManaged_knowledge c hg (fun _ _ _ => trivial))

theorem taskBody_knowledge (task : Task) (hg : g ≠ .idle) :
    (knowledge c).Safe (taskBody c task) g := by
  cases task with
  | workerStop =>
    refine wp_bind.mpr (knowledge_call.mpr ⟨hg,?_⟩)
    intro granted
    cases granted with
    | false => trivial
    | true => exact workerStopSync_knowledge c hg
  | inProcessStop => exact stopHandle_knowledge c hg

theorem handOver_knowledge (task : Task) (hg : g ≠ .idle) :
    (knowledge c).wp (do if ← call .tryCurrent then call (.spawn task) else pure ())
      (fun _ _ => True) g := by
  refine wp_bind.mpr (knowledge_call.mpr ⟨hg,?_⟩)
  intro granted
  cases granted with
  | false => trivial
  | true => exact knowledge_call.mpr ⟨hg,fun _ => trivial⟩

theorem dropSyncCluster_knowledge (postgres : Bool) (hg : g ≠ .idle) :
    (knowledge c).wp (dropSyncCluster ⟨c,postgres⟩) (fun _ _ => True) g := by
  unfold dropSyncCluster
  cases hm : c.isManagedViaWorker with
  | true =>
    simp only [if_true]
    exact wp_bind.mpr (stopWorkerManaged_knowledge c hg (fun _ _ _ => trivial))
  | false =>
    simp only [Bool.false_eq_true,if_false]
    cases postgres with
    | false => trivial
    | true =>
      refine wp_bind.mpr (knowledge_call.mpr ⟨hg,?_⟩)
      intro granted
      cases granted with
      | false => trivial
      | true => exact stopHandle_knowledge c hg

theorem dropAsyncCluster_knowledge (postgres : Bool) (hg : g ≠ .idle) :
    (knowledge c).wp (dropAsyncCluster ⟨c,postgres⟩) (fun _ _ => True) g := by
  unfold dropAsyncCluster
  split
  · exact handOver_knowledge c .workerStop hg
  · split
    · exact handOver_knowledge c .inProcessStop hg
    · trivial

theorem drop_knowledge (postgres : Bool) (hg : g ≠ .idle) :
    (knowledge c).wp (ClusterGuard.drop ⟨c,postgres⟩) (fun _ _ => True) g := by
  unfold ClusterGuard.drop ClusterGuard.performShutdown
  split
  · trivial
  · split
    · exact dropAsyncCluster_knowledge c postgres hg
    · exact dropSyncCluster_knowledge c postgres hg

theorem dropReturned_knowledge (postgres : Bool) (hg : g ≠ .idle) :
    (knowledge c).Safe (do
      ClusterGuard.drop ⟨c,postgres⟩
      call .returned) g :=
  wp_bind.mpr (wp_mono (drop_knowledge c postgres hg) (fun _ _ _ => ⟨trivial,fun _ _ _ => trivial⟩))

theorem stopAsync_knowledge (hg : g ≠ .idle) :
    (knowledge c).Safe (ClusterGuard.started c).stopAsync g := by
  cases hm : c.isManagedViaWorker with
  | true =>
    rw [stopAsync_workerManaged hm]
    refine wp_bind.mpr (wp_bind.mpr (knowledge_call.mpr ⟨hg,?_⟩))
    intro granted
    cases granted with
    | false => exact dropReturned_knowledge c _ hg
    | true =>
      refine wp_bind.mpr (knowledge_call.mpr ⟨hg,?_⟩)
      intro built
      cases built with
      | false => exact dropReturned_knowledge c _ hg
      | true =>
        refine stopWorkerManaged_knowledge c hg ?_
        intro ok g' hg'
        exact dropReturned_knowledge c _ hg'
  | false =>
    rw [stopAsync_inProcess hm]
    refine wp_bind.mpr (stopInProcessAsync_knowledge c hg ?_)
    intro ok g' hg'
    exact dropReturned_knowledge c _ hg'

/-! ### The exit hook -/

theorem isRunningForShutdown_knowledge {pid : Nat} {post : Bool → Knowledge → Prop}
    (hrunning : post true (.watching pid)) (hdown : post false .down) :
    (knowledge c).wp (isRunningForShutdown pid) post (.watching pid) := by
  refine wp_bind.mpr (knowledge_call.mpr ⟨rfl,?_⟩)
  intro r
  cases r with
  | running => exact hrunning
  | noSuchProcess => exact hdown
  | refused => exact hrunning

/-- However many probes fit, the wait succeeds only on one that finds the PID gone. -/
theorem waitForExit_knowledge {pid : Nat} {post : Bool → Knowledge → Prop}
    (hdown : post true .down) (hrunning : post false (.watching pid)) (polls : Nat) :
    (knowledge c).wp (waitForExit pid polls) post (.watching pid) := by
  induction polls with
  | zero => exact wp_bind.mpr (isRunningForShutdown_knowledge c hrunning hdown)
  | succ polls ih =>
    refine wp_bind.mpr (isRunningForShutdown_knowledge c ?_ hdown)
    exact wp_bind.mpr (knowledge_call.mpr ⟨Knowledge.noConfusion,fun _ => ih⟩)

/-- What the best-effort cleanup needs: no server, or nothing to remove. -/
def MayCleanUp (g : Knowledge) : Prop := g = .down ∨ c.cleanupMode = .none ∧ g ≠ .idle

theorem bestEffortCleanup_knowledge (h : MayCleanUp c g) :
    (knowledge c).wp (bestEffortCleanup c) (fun _ _ => True) g := by
  rcases h with rfl | ⟨hmode,hg⟩
  · exact cleanupInProcess_wp (down_cleansUp c) c trivial
  · refine wp_bind.mpr (knowledge_call.mpr ⟨hg,?_⟩)
    intro r
    simp only [planCleanup,hmode]
    trivial

theorem stopPostmaster_knowledge {pid : Nat} (polls : Nat) :
    (knowledge c).wp (stopPostmaster pid polls) (fun _ g => MayCleanUp c g) (.watching pid) := by
  refine wp_bind.mpr (knowledge_call.mpr ⟨rfl,?_⟩)
  intro _
  refine wp_bind.mpr (waitForExit_knowledge c (.inl rfl) ?_ polls)
  refine wp_bind.mpr (knowledge_call.mpr ⟨rfl,?_⟩)
  intro _
  refine knowledge_call.mpr ⟨⟨pid,rfl⟩,?_⟩
  intro _
  by_cases hmode : c.cleanupMode = .none
  · exact .inr ⟨hmode,by simp [Knowledge.after,hmode]⟩
  · exact .inl (by simp [Knowledge.after,hmode])

theorem shutdownCallback_knowledge (polls : Nat) :
    (knowledge c).Safe (shutdownCallback c polls) .fresh := by
  refine wp_bind.mpr (knowledge_call.mpr ⟨Knowledge.noConfusion,?_⟩)
  intro registered
  cases registered with
  | false => trivial
  | true =>
    refine wp_bind.mpr (knowledge_call.mpr ⟨rfl,?_⟩)
    intro file
    change (knowledge c).wp _ _ (afterRead (readPostmasterProcess file))
    cases readPostmasterProcess file with
    | error _ => trivial
    | ok found =>
      cases found with
      | none => exact bestEffortCleanup_knowledge c (.inl rfl)
      | some pid =>
        refine wp_bind.mpr (isRunningForShutdown_knowledge c ?_ ?_)
        · refine wp_bind.mpr (wp_mono (stopPostmaster_knowledge c polls) ?_)
          intro _ g hg
          exact bestEffortCleanup_knowledge c hg
        · exact bestEffortCleanup_knowledge c (.inl rfl)

theorem ending_knowledge (ending : Ending) : (knowledge c).Safe (ending.program c) .fresh := by
  cases ending with
  | dropGuard => exact drop_knowledge c _ Knowledge.noConfusion
  | stopAsync => exact stopAsync_knowledge c Knowledge.noConfusion
  | exitHook polls => exact shutdownCallback_knowledge c polls

end Programs

/-! ### What they know is so -/

/-- The cluster is in one program's hands, what that program knows holds, and no removal has
gone wrong. -/
structure Informed (w : World) (ghosts : List Knowledge) : Prop where
  alone : ghosts.countP Knowledge.active ≤ 1
  known : ∀ g ∈ ghosts, g.holds w
  kept : FilesKept w

section Steps
variable {w w' : World} {ghosts : List Knowledge} {i : Nat} {g g' : Knowledge}

theorem active_of_ne (hg : g ≠ .idle) : g.active = true := by
  simpa [Knowledge.active] using hg

theorem holds_of_inactive (hg : g.active = false) : g.holds w := by
  obtain rfl : g = .idle := by
    simpa [Knowledge.active] using hg
  trivial

/-- Beside the program that has the cluster, all others are idle. -/
theorem Informed.others (h : Informed w ghosts) (hi : ghosts[i]? = some g) (hg : g ≠ .idle) :
    (ghosts.set i .idle).countP Knowledge.active = 0 := by
  obtain ⟨hlt,hget⟩ := List.getElem?_eq_some_iff.mp hi
  have hle := h.alone
  have hidle : Knowledge.idle.active = false := rfl
  rw [List.countP_set hlt,hget,active_of_ne hg,hidle]
  simp only [if_true,Bool.false_eq_true,if_false]
  omega

/-- The program that has the cluster makes a call, after which it knows `g'`. -/
theorem Informed.advance (h : Informed w ghosts) (hi : ghosts[i]? = some g) (hg : g ≠ .idle)
    (hholds : g'.holds w') (hkept : FilesKept w') : Informed w' (ghosts.set i g') := by
  obtain ⟨hlt,-⟩ := List.getElem?_eq_some_iff.mp hi
  have hothers := h.others hi hg
  have hset : ghosts.set i g' = (ghosts.set i .idle).set i g' := by
    rw [List.set_set]
  refine ⟨?_,?_,hkept⟩
  · rw [hset,List.countP_set (by simpa using hlt),hothers]
    split <;> split <;> omega
  · intro x hx
    rw [hset] at hx
    rcases List.mem_or_eq_of_mem_set hx with hold | rfl
    · exact holds_of_inactive (by simpa using List.countP_eq_zero.mp hothers x hold)
    · exact hholds

/-- The cluster passes to the task an async drop spawns. -/
theorem Informed.handOver (h : Informed w ghosts) (hi : ghosts[i]? = some g) (hg : g ≠ .idle) :
    Informed w (ghosts.set i .idle ++ [.unsure]) := by
  have hothers := h.others hi hg
  refine ⟨?_,?_,h.kept⟩
  · rw [List.countP_append,hothers]
    exact le_rfl
  · intro x hx
    rcases List.mem_append.mp hx with hold | hnew
    · exact holds_of_inactive (by simpa using List.countP_eq_zero.mp hothers x hold)
    · rw [List.mem_singleton.mp hnew]
      trivial

/-- A step that changes neither the server, the last stop nor the record. -/
theorem Informed.same (h : Informed w ghosts) (hserver : w'.server = w.server)
    (hlast : w'.lastStop = w.lastStop) (hevents : w'.events = w.events) :
    Informed w' ghosts := by
  refine ⟨h.alone,?_,?_⟩
  · intro g hg
    have hholds := h.known g hg
    cases g with
    | idle => trivial
    | unsure => trivial
    | fresh => exact hlast.trans hholds
    | watching pid => exact ⟨hlast.trans hholds.1,hserver ▸ hholds.2⟩
    | down => exact ⟨hserver.trans hholds.1,hlast ▸ hholds.2⟩
  · intro event hevent
    rw [hevents] at hevent
    exact h.kept event hevent

theorem Informed.idle (h : Informed w ghosts) (i : Nat) : Informed w (ghosts.set i .idle) := by
  refine ⟨?_,?_,h.kept⟩
  · by_cases hlt : i < ghosts.length
    · have hle := h.alone
      have hidle : Knowledge.idle.active = false := rfl
      rw [List.countP_set hlt,hidle]
      simp only [Bool.false_eq_true,if_false]
      omega
    · rw [List.set_eq_of_length_le (by omega)]
      exact h.alone
  · intro x hx
    rcases List.mem_or_eq_of_mem_set hx with hold | rfl
    · exact h.known x hold
    · trivial

/-- A server that exits refutes nothing a program knows. -/
theorem Informed.exits (h : Informed w ghosts) : Informed { w with server := none } ghosts := by
  refine ⟨h.alone,?_,h.kept⟩
  intro g hg
  have hholds := h.known g hg
  cases g with
  | idle => trivial
  | unsure => trivial
  | fresh => exact hholds
  | watching pid =>
    refine ⟨hholds.1,?_⟩
    intro server hserver
    cases hserver
  | down => exact ⟨rfl,hholds.2⟩

theorem FilesKept.log (h : FilesKept w) {act : Act}
    (hact : ∀ dir, act = .remove dir → w.server = none ∧ w.lastStop ≠ some false) :
    FilesKept (w.log act) := by
  intro event hevent dir hdir
  rcases List.mem_append.mp hevent with hold | hnew
  · exact h event hold dir hdir
  · rw [List.mem_singleton.mp hnew] at hdir ⊢
    have hdown := hact dir hdir
    exact ⟨hdown.1,by simpa using hdown.2⟩

/-- With the server known to be down, removals are as they should be, one or several. -/
theorem FilesKept.logRemovals (h : FilesKept w) (hdown : Knowledge.down.holds w)
    (dirs : List DirectoryLabel) :
    Knowledge.down.holds (dirs.foldl (fun v dir => v.log (.remove dir)) w) ∧
      FilesKept (dirs.foldl (fun v dir => v.log (.remove dir)) w) := by
  have hstep : ∀ v dir, Knowledge.down.holds v ∧ FilesKept v →
      Knowledge.down.holds (v.log (.remove dir)) ∧ FilesKept (v.log (.remove dir)) :=
    fun v dir hv => ⟨hv.1,hv.2.log (fun _ _ => hv.1)⟩
  exact foldl_log hstep dirs ⟨hdown,h⟩

theorem afterStop_holds (w : World) (ok : Bool) :
    (afterStop ok).holds ((w.log .stop).stopEnded ok) := by
  cases ok with
  | false => trivial
  | true => exact ⟨rfl,by simp [World.stopEnded]⟩

/-- What the PID file says of a running server is its PID. -/
theorem afterRead_holds (hfresh : w.lastStop = none) {file : FileRead}
    (hfile : mayRead w.server file = true) :
    (afterRead (readPostmasterProcess file)).holds w := by
  have hlast : w.lastStop ≠ some false := by
    rw [hfresh]
    exact (Option.some_ne_none false).symm
  cases hs : w.server with
  | none =>
    cases readPostmasterProcess file with
    | error _ => exact hfresh
    | ok found =>
      cases found with
      | none => exact ⟨hs,hlast⟩
      | some pid =>
        refine ⟨hfresh,?_⟩
        intro server hserver
        rw [hs] at hserver
        cases hserver
  | some server =>
    rw [hs] at hfile
    rcases readPostmasterProcess_live hfile with hread | hread
    · rw [hread]
      exact hfresh
    · rw [hread]
      refine ⟨hfresh,?_⟩
      intro other hother
      rw [hs] at hother
      cases hother
      rfl

theorem probe_holds {pid : Nat} (hwatch : (Knowledge.watching pid).holds w)
    (hgone : w.server.any (fun s => s.pid.val = pid) = false) : Knowledge.down.holds w := by
  refine ⟨?_,?_⟩
  · cases hs : w.server with
    | none => rfl
    | some server =>
      have hpid := hwatch.2 server hs
      simp [hs,hpid] at hgone
  · rw [hwatch.1]
    exact (Option.some_ne_none false).symm

end Steps

theorem informed_call {c : TestCluster} {op : Op} {r : Reply op} {w : World}
    {ghosts : List Knowledge} {i : Nat} {g : Knowledge} (hnew : spawned c op = [])
    (h : Informed w (ghosts.set i (g.after c op r))) :
    ∃ g' new, (knowledge c).next g op r g' ∧
      List.Forall₂ (knowledge c).Safe (spawned c op) new ∧
        Informed w (ghosts.set i g' ++ new) := by
  refine ⟨g.after c op r,[],rfl,?_,?_⟩
  · rw [hnew]
    exact .nil
  · rw [List.append_nil]
    exact h

theorem knowledge_preserves (c : TestCluster) :
    Preserves (machine c) (knowledge c) Informed (fun s a => undisturbed c s a = true) := by
  refine ⟨?_,?_,?_⟩
  · intro s i op r w ghosts g hc hw hj hi hok
    have hg := hj.known g (List.mem_of_getElem? hi)
    cases op with
    | stopHandle =>
      cases hw
      exact informed_call rfl (hj.advance hi hok (afterStop_holds _ _)
        (hj.kept.log (fun dir => Act.noConfusion)))
    | workerStop =>
      simp only [machine,answer] at hw
      split at hw
      · cases hw
      · cases hw
        exact informed_call rfl (hj.advance hi hok (afterStop_holds _ _)
          (hj.kept.log (fun dir => Act.noConfusion)))
    | workerCleanup dirs =>
      obtain rfl : g = .down := hok
      cases hw
      have hlog : FilesKept (s.world.log .workerCleanup) :=
        hj.kept.log (fun dir => Act.noConfusion)
      have hall := hlog.logRemovals hg (dirs.take r)
      exact informed_call rfl (hj.advance hi Knowledge.noConfusion hall.1 hall.2)
    | releaseWatcher =>
      cases hw
      have hholds : g.holds (s.world.log .releaseWatcher) := by
        cases g <;> exact hg
      exact informed_call rfl (hj.advance hi hok hholds (hj.kept.log (fun dir => Act.noConfusion)))
    | probePeers =>
      obtain rfl : g = .down := hok
      cases hw
      exact informed_call rfl (hj.advance hi Knowledge.noConfusion hg
        (hj.kept.log (fun dir => Act.noConfusion)))
    | removeDirAll dir =>
      obtain rfl : g = .down := hok
      cases hw
      exact informed_call rfl (hj.advance hi Knowledge.noConfusion hg
        (hj.kept.log (fun _ _ => hg)))
    | tryCurrent | enterRuntime | spawnBlocking | buildRuntime | returned =>
      cases hw
      refine informed_call rfl ?_
      change Informed _ (ghosts.set i g)
      rw [set_self hi]
      exact hj.same rfl rfl rfl
    | shutdownWork | signal _ _ | pollInterval =>
      cases hw
      refine informed_call rfl ?_
      change Informed _ (ghosts.set i g)
      rw [set_self hi]
      exact hj
    | spawn task =>
      cases hw
      exact ⟨.idle,[.unsure],rfl,.cons (taskBody_knowledge c task Knowledge.noConfusion) .nil,
        hj.handOver hi hok⟩
    | readPidFile =>
      obtain rfl : g = .fresh := hok
      simp only [machine,answer] at hw
      split at hw
      · rename_i hfile
        cases hw
        exact informed_call rfl (hj.advance hi Knowledge.noConfusion (afterRead_holds hg hfile)
          hj.kept)
      · cases hw
    | probe pid =>
      obtain rfl : g = .watching pid := hok
      simp only [machine,answer] at hw
      split at hw
      · cases hw
      · rename_i hgone
        cases hw
        refine informed_call rfl (hj.advance hi Knowledge.noConfusion ?_ hj.kept)
        by_cases hr : r = .noSuchProcess
        · simp only [Knowledge.after,hr,if_true]
          refine probe_holds hg ?_
          simpa [hr] using hgone
        · simp only [Knowledge.after,hr,if_false]
          exact hg
    | postSigkillGrace =>
      obtain ⟨pid,rfl⟩ := hok
      cases hw
      refine informed_call rfl (hj.advance hi Knowledge.noConfusion ?_ hj.kept)
      by_cases hmode : c.cleanupMode = .none
      · simp only [Knowledge.after,hmode,if_true]
        exact hg
      · simp only [Knowledge.after,hmode,if_false]
        have hnone : s.world.server = none := by
          simpa [undisturbed,hmode] using hc
        refine ⟨hnone,?_⟩
        rw [hg.1]
        exact (Option.some_ne_none false).symm
  · intro s i ghosts _ hj
    have haborted : Informed ((machine c).aborted s.world) ghosts := hj.same rfl rfl rfl
    exact ⟨.idle,trivial,haborted.idle i⟩
  · intro s e w ghosts hc hw hj
    cases e with
    | serverExits =>
      cases hw
      exact hj.exits
    | serverStarts pid => cases hc

/-! ### Every run -/

theorem informed_begin (c : TestCluster) (ending : Ending) (pid : Pid) :
    Outlined (knowledge c) Informed (begin c ending pid) := by
  refine ⟨[.fresh],.cons (ending_knowledge c ending) .nil,?_⟩
  refine ⟨by decide,?_,?_⟩
  · intro g hg
    rw [List.mem_singleton.mp hg]
    rfl
  · intro event hevent
    cases hevent

def leakedCluster : TestCluster where
  isAsync := false
  isManagedViaWorker := false
  cleanupMode := .dataOnly
  settings := {
    dataDir := ⟨true,[.name "data".toList]⟩
    installationDir := ⟨true,[.name "install".toList]⟩
    passwordFile := ⟨true,[.name "install".toList,.name ".pgpass".toList]⟩ }

def leakedPid : Pid := ⟨4242,by decide,by decide⟩

def leakedPidFile : Bytes := ascii "4242\n/data\n"

/-- The exit hook up to its cleanup, with room for one poll. -/
def hookRun (exits : List Action) : List Action :=
  [.advance 0 .shutdownWork true,.advance 0 .readPidFile (.contents leakedPidFile),
    .advance 0 (.probe 4242) .running,.advance 0 (.signal 4242 .term) (),
    .advance 0 (.probe 4242) .running,.advance 0 .pollInterval (),
    .advance 0 (.probe 4242) .running,.advance 0 (.signal 4242 .kill) ()] ++ exits ++
  [.advance 0 .postSigkillGrace (),.advance 0 .releaseWatcher (),
    .advance 0 (.removeDirAll .data) ()]

end PgEmbedSetup.Cluster
