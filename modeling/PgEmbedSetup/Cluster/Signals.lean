import PgEmbedSetup.Cluster.StopOnce
import PgEmbedSetup.Prepare.Orphan

set_option autoImplicit false

/-!
Whom the exit hook signals. The hook runs among all processes of the host, which come and go
and pass their PIDs on, and probes a PID without asking who has it.
-/

namespace PgEmbedSetup.Cluster
open Library
open Prepare (Host Proc Serves loneServer)

/-- A signal that went to a process, and the host at that moment. -/
structure Sent where
  pid : Nat
  signal : Signal
  host : Host

/-- `checked` from a probe to the call that follows it: in between the table stays as it is. -/
structure HookWorld where
  host : Host
  checked : Bool
  sent : List Sent

def probeReply (h : Host) (pid : Nat) : ProbeReply :=
  match Prepare.probe h.table pid with
  | .ok () => .running
  | .error .esrch => .noSuchProcess
  | .error .eperm => .refused

/-- A read may fail at any time; what it returns is what the file holds. -/
def readsFile (h : Host) : FileRead → Bool
  | .missing => h.pidFile.isNone
  | .unreadable => true
  | .contents bytes => h.pidFile = some bytes

/-- The process a signal to this PID is sent to, a zombie included. -/
def target (h : Host) (pid : Nat) : Option Proc := (h.table.lookup pid).filter Proc.permitted

def deliver (h : Host) (pid : Nat) (s : Signal) : List Sent :=
  if (target h pid).isSome then [⟨pid,s,h⟩] else []

def hookAnswer (w : HookWorld) : (op : Op) → Reply op → Option HookWorld
  | .readPidFile, r => if readsFile w.host r then some { w with checked := false } else none
  | .probe pid, r => if r = probeReply w.host pid then some { w with checked := true } else none
  | .signal pid s, _ =>
    some { w with checked := false, sent := w.sent ++ deliver w.host pid s }
  | _, _ => some { w with checked := false }

/-- Processes end, start and write files as they like. -/
def hostChanges (w : HookWorld) (h : Host) : Option HookWorld :=
  if w.checked then none else some { w with host := h }

def hookMachine : Machine Op Reply HookWorld Host where
  answer := hookAnswer
  spawned _ := []
  env := hostChanges
  aborted w := w

abbrev HookState := Pool Op Reply HookWorld

abbrev HookAction := PoolAction Op Reply Host

/-- Every run of the exit hook of a registered cluster, on every host. -/
def exitHooks (c : TestCluster) (polls : Nat) : System HookState HookAction :=
  hookMachine.system (fun s => ∃ h, s = ⟨⟨h,false,[]⟩,[shutdownCallback c polls]⟩)

/-- Each signal went to a server of the registered data directory. -/
def OwnServerOnly (w : HookWorld) : Prop := ∀ e ∈ w.sent, ∃ p, Serves e.host e.pid p

/-- The process a signal to this PID would go to, if there is one, serves the directory. -/
def Owned (h : Host) (pid : Nat) : Prop := ∀ p, target h pid = some p → Serves h pid p

/-- A probe never meets a process that only has the recorded PID. -/
def ProbesOwn (s : HookState) : HookAction → Prop
  | .advance _ (.probe pid) _ => Owned s.world.host pid
  | _ => True

/-! ### What the hook knows of the PID it signals -/

/-- The PID the last call was a probe of, if that found it in use. -/
def checks : Outline Op Reply (Option Nat) where
  ok
    | g, .signal pid _ => g = some pid
    | _, _ => True
  next
    | _, .probe pid, r, g' => g' = if r = .noSuchProcess then none else some pid
    | _, _, _, g' => g' = none
  final _ := True

theorem checks_cleansUp : CleansUp checks none := by
  refine ⟨fun op hop => ?_,fun op r g' hop hn => ?_⟩
  · cases op <;> trivial
  · cases op <;> first | exact hn | cases hop

theorem isRunningForShutdown_checks {g : Option Nat} {pid : Nat} {post : Bool → Option Nat → Prop}
    (hrunning : post true (some pid)) (hgone : post false none) :
    checks.wp (isRunningForShutdown pid) post g := by
  refine wp_bind.mpr ⟨trivial,fun r g' hn => ?_⟩
  have hg : g' = if r = .noSuchProcess then none else some pid := hn
  subst hg
  cases r with
  | running => exact hrunning
  | noSuchProcess => exact hgone
  | refused => exact hrunning

/-- A wait that runs out has just seen the process in use. -/
theorem waitForExit_checks {pid polls : Nat} {g : Option Nat} {post : Bool → Option Nat → Prop}
    (hexited : post true none) (htimeout : post false (some pid)) :
    checks.wp (waitForExit pid polls) post g := by
  induction polls generalizing g with
  | zero => exact wp_bind.mpr (isRunningForShutdown_checks htimeout hexited)
  | succ polls ih =>
    refine wp_bind.mpr (isRunningForShutdown_checks ?_ hexited)
    refine wp_bind.mpr ⟨trivial,fun _ g' _ => ih⟩

theorem stopPostmaster_checks (pid polls : Nat) :
    checks.wp (stopPostmaster pid polls) (fun _ g => g = none) (some pid) := by
  refine wp_bind.mpr ⟨rfl,fun _ g' _ => wp_bind.mpr (waitForExit_checks rfl ?_)⟩
  refine wp_bind.mpr ⟨rfl,fun _ g' _ => ⟨trivial,fun _ g'' hn => hn⟩⟩

/-- What the hook does with what it makes of the PID file. -/
def shutdownOf (c : TestCluster) (polls : Nat) : Except Unit (Option Nat) → Code Unit
  | .error () => pure ()
  | .ok none => bestEffortCleanup c
  | .ok (some pid) => do
    if ← isRunningForShutdown pid then do
      stopPostmaster pid polls
      bestEffortCleanup c
    else bestEffortCleanup c

theorem shutdownCallback_eq (c : TestCluster) (polls : Nat) :
    shutdownCallback c polls = (do
      if ← call .shutdownWork then do
        let file ← call .readPidFile
        shutdownOf c polls (readPostmasterProcess file)
      else pure ()) := by
  rfl

theorem shutdownCallback_checks (c : TestCluster) (polls : Nat) :
    checks.Safe (shutdownCallback c polls) none := by
  have hclean : checks.wp (bestEffortCleanup c) (fun _ g => checks.final g) none :=
    cleanupInProcess_wp checks_cleansUp c trivial
  refine wp_bind.mpr ⟨trivial,fun granted g hg => ?_⟩
  cases granted with
  | false => trivial
  | true =>
    refine wp_bind.mpr ⟨trivial,fun file g hg => ?_⟩
    have hnone : g = none := hg
    subst hnone
    change checks.wp (shutdownOf c polls (readPostmasterProcess file)) _ none
    rcases readPostmasterProcess file with _ | _ | pid
    · trivial
    · exact hclean
    · refine wp_bind.mpr (isRunningForShutdown_checks ?_ hclean)
      refine wp_bind.mpr (wp_mono (stopPostmaster_checks pid polls) (fun _ g hnone => ?_))
      subst hnone
      exact hclean

/-! ### Every run -/

/-- A PID the hook has just probed stays with its server until the hook's next call. -/
def Vouched (w : HookWorld) (ghosts : List (Option Nat)) : Prop :=
  OwnServerOnly w ∧ ∃ g, ghosts = [g] ∧ ∀ pid ∈ g, w.checked = true ∧ Owned w.host pid

theorem ownServerOnly_signal {w : HookWorld} {pid : Nat} (h : OwnServerOnly w)
    (ho : Owned w.host pid) (s : Signal) :
    OwnServerOnly { w with checked := false, sent := w.sent ++ deliver w.host pid s } := by
  intro e he
  rcases List.mem_append.mp he with hold | hnew
  · exact h e hold
  · unfold deliver at hnew
    split at hnew
    · rename_i htarget
      obtain ⟨p,hp⟩ := Option.isSome_iff_exists.mp htarget
      rw [List.mem_singleton.mp hnew]
      exact ⟨p,ho p hp⟩
    · cases hnew

theorem checks_preserves : Preserves hookMachine checks Vouched ProbesOwn := by
  refine ⟨?_,?_,?_⟩
  · intro s i op r w ghosts g hc ha hj hg hok
    obtain ⟨hown,g₀,rfl,hvouch⟩ := hj
    obtain ⟨rfl,rfl⟩ : i = 0 ∧ g₀ = g := by
      cases i with
      | zero => exact ⟨rfl,Option.some.inj hg⟩
      | succ i => simp at hg
    cases op with
    | readPidFile =>
      simp only [hookMachine,hookAnswer,Option.ite_none_right_eq_some,Option.some.injEq] at ha
      rw [← ha.2]
      exact ⟨none,[],rfl,.nil,hown,none,rfl,fun _ h => by cases h⟩
    | probe pid =>
      simp only [hookMachine,hookAnswer,Option.ite_none_right_eq_some,Option.some.injEq] at ha
      rw [← ha.2]
      refine ⟨_,[],rfl,.nil,hown,_,rfl,fun p hp => ?_⟩
      split at hp
      · cases hp
      · rw [← Option.some.inj hp]
        exact ⟨rfl,hc⟩
    | signal pid sig =>
      rw [← Option.some.inj ha]
      have hpid := hvouch pid hok
      exact ⟨none,[],rfl,.nil,ownServerOnly_signal hown hpid.2 sig,none,rfl,
        fun _ h => by cases h⟩
    | _ =>
      have hw : w = { s.world with checked := false } := (Option.some.inj ha).symm
      subst hw
      exact ⟨none,[],rfl,.nil,hown,none,rfl,fun _ h => by cases h⟩
  · intro s i ghosts _ hj
    obtain ⟨hown,g,rfl,hvouch⟩ := hj
    refine ⟨g,trivial,hown,g,?_,hvouch⟩
    cases i <;> rfl
  · intro s h w ghosts _ hw hj
    obtain ⟨hown,g,rfl,hvouch⟩ := hj
    simp only [hookMachine,hostChanges] at hw
    split at hw
    · cases hw
    · rename_i hchecked
      rw [← Option.some.inj hw]
      refine ⟨hown,g,rfl,fun pid hp => ?_⟩
      exact absurd (hvouch pid hp).1 hchecked

/-! ### Whoever has the recorded PID -/

theorem probeReply_target {h : Host} {pid : Nat} (ht : (target h pid).isSome = true) :
    probeReply h pid = .running := by
  obtain ⟨p,hp⟩ := Option.isSome_iff_exists.mp ht
  obtain ⟨hlookup,hpermitted⟩ := Option.filter_eq_some_iff.mp hp
  simp [probeReply,Prepare.probe,hlookup,hpermitted]

/-- Up to its first signal, with a PID file that names a process in use. -/
theorem shutdownCallback_calls (c : TestCluster) (polls : Nat) {bytes : Bytes} {pid : Nat}
    (hpid : readPostmasterProcess (.contents bytes) = .ok (some pid)) :
    ∃ work file found term, shutdownCallback c polls = .call .shutdownWork work ∧
      work true = .call .readPidFile file ∧ file (.contents bytes) = .call (.probe pid) found ∧
      found .running = .call (.signal pid .term) term := by
  have hfound : ∀ read, read = .ok (some pid) → ∃ found term,
      shutdownOf c polls read = .call (.probe pid) found ∧
        found .running = .call (.signal pid .term) term := by
    rintro _ rfl
    exact ⟨_,_,rfl,rfl⟩
  obtain ⟨found,term,hprobe,hterm⟩ := hfound _ hpid
  exact ⟨_,_,found,term,shutdownCallback_eq c polls,rfl,hprobe,hterm⟩

/-- The hook reads the PID, finds it in use and asks its process to end. -/
theorem exitHooks_term (c : TestCluster) (polls : Nat) (host : Host) {bytes : Bytes} {pid : Nat}
    (hfile : host.pidFile = some bytes)
    (hpid : readPostmasterProcess (.contents bytes) = .ok (some pid))
    (htarget : (target host pid).isSome = true) {C : HookState → HookAction → Prop}
    (hC : ∀ s a, s.world.host = host → C s a) :
    ∃ s, ((exitHooks c polls).restrict C).Reachable s ∧ s.world.sent = [⟨pid,.term,host⟩] := by
  obtain ⟨work,file,found,term,hp,hwork,hread,hrunning⟩ := shutdownCallback_calls c polls hpid
  have hstep : ∀ (w : HookWorld) (op : Op) (next : Reply op → Code Unit) (r : Reply op)
      (t : HookWorld), w.host = host → hookAnswer w op r = some t →
      ((exitHooks c polls).restrict C).Reachable ⟨w,[.call op next]⟩ →
      ((exitHooks c polls).restrict C).Reachable ⟨t,[next r]⟩ := by
    intro w op next r t hw ha h
    exact System.reachable_step _ h ⟨hC _ _ hw,Machine.step_advance (i := 0) rfl ha⟩
  have hstart : ((exitHooks c polls).restrict C).Reachable
      ⟨⟨host,false,[]⟩,[shutdownCallback c polls]⟩ := System.reachable_init _ ⟨host,rfl⟩
  rw [hp] at hstart
  have hopened := hstep _ .shutdownWork _ true ⟨host,false,[]⟩ rfl rfl hstart
  rw [hwork] at hopened
  have hprobe := hstep _ .readPidFile _ (.contents bytes) ⟨host,false,[]⟩ rfl
    (by simp [hookAnswer,readsFile,hfile]) hopened
  rw [hread] at hprobe
  have hsignal := hstep _ (.probe pid) _ .running ⟨host,true,[]⟩ rfl
    (by simp [hookAnswer,probeReply_target htarget]) hprobe
  rw [hrunning] at hsignal
  have hsent := hstep _ (.signal pid .term) _ () ⟨host,false,[⟨pid,.term,host⟩]⟩ rfl
    (by simp [hookAnswer,deliver,htarget]) hsignal
  exact ⟨_,hsent,rfl⟩

/-- A registered directory whose stale PID file names another directory's server. -/
def neighbour : Host :=
  { loneServer .postmaster with realDir := some (ascii "/srv/data/other") }

theorem loneServer_recorded :
    readPostmasterProcess (.contents ((Prepare.recordedLine 4242 .postmaster).map asciiByte ++
      ascii "\n/srv/data/slot\n")) = .ok (some 4242) := by
  decide

/-- Every run of the exit hook signals servers of its own directory only, if the PID it
probes is never another process's. -/
theorem exitHook_signals_own_server (c : TestCluster) (polls : Nat) {s : HookState}
    (h : ((exitHooks c polls).restrict ProbesOwn).Reachable s) : OwnServerOnly s.world := by
  have hinit : ∀ s, (exitHooks c polls).init s → Outlined checks Vouched s := by
    rintro s ⟨host,rfl⟩
    refine ⟨[none],.cons (shutdownCallback_checks c polls) .nil,?_,none,rfl,?_⟩
    · exact fun e he => by cases he
    · exact fun pid hp => by cases hp
  obtain ⟨ghosts,_,hj⟩ := outlined_reachable checks_preserves hinit h
  exact hj.1

/-- The hook of a directory whose own server still has the PID. -/
theorem exitHook_signals_own_server_sent :
    ∃ s, ((exitHooks (sampleCluster false) 3).restrict ProbesOwn).Reachable s ∧
      s.world.sent = [⟨4242,.term,loneServer .postmaster⟩] ∧ OwnServerOnly s.world := by
  have howned : ∀ pid, Owned (loneServer .postmaster) pid := by
    intro pid p hp
    obtain ⟨hlookup,_⟩ := Option.filter_eq_some_iff.mp hp
    have hserves := Prepare.loneServer_present .postmaster (by decide)
    by_cases hpid : pid = 4242
    · subst hpid
      rwa [← Option.some.inj (hserves.present.symm.trans hlookup)]
    · simp [loneServer,hpid] at hlookup
  obtain ⟨s,hreach,hsent⟩ := exitHooks_term (sampleCluster false) 3 (loneServer .postmaster) rfl
    loneServer_recorded rfl (C := ProbesOwn) (by
      intro s a hs
      cases a with
      | advance i op r =>
        cases op with
        | probe pid =>
          change Owned s.world.host pid
          rw [hs]
          exact howned pid
        | _ => trivial
      | _ => trivial)
  exact ⟨s,hreach,hsent,exitHook_signals_own_server (sampleCluster false) 3 hreach⟩

/-- With a stale PID file the hook asks a server of another data directory to end. -/
theorem exitHook_signals_neighbour :
    ∃ s, (exitHooks (sampleCluster false) 3).Reachable s ∧
      s.world.sent = [⟨4242,.term,neighbour⟩] ∧ ¬ OwnServerOnly s.world := by
  obtain ⟨s,hreach,hsent⟩ := exitHooks_term (sampleCluster false) 3 neighbour rfl
    loneServer_recorded rfl (C := fun _ _ => True) (fun _ _ _ => trivial)
  refine ⟨s,System.reachable_of_restrict _ hreach,hsent,?_⟩
  intro hown
  obtain ⟨p,hserves⟩ := hown ⟨4242,.term,neighbour⟩ (by rw [hsent]; simp)
  have hp := hserves.present
  have hcwd := hserves.cwd
  rw [← Option.some.inj hp] at hcwd
  exact absurd hcwd (by decide)

end PgEmbedSetup.Cluster
