import PgEmbedSetup.TestSupport.Staging

set_option autoImplicit false

/-!
What a test that stages the worker calls, in which order, and what it may rely on meanwhile.
-/

namespace PgEmbedSetup.TestSupport.Staging
open Library

/-- How far a test has come. From `entered` on the directory is its user's own and open to all, from
`holding` to `ready` there is a temporary file, and `usable` and `published` are the two ways to
find the worker staged. -/
inductive Phase where
  | outside
  | validated
  | entered
  | usable
  | holding (temp : Ino)
  | opened (temp source : Ino)
  | copying (temp source : Ino) (offset : Nat)
  | copied (temp source : Ino)
  | ready (temp source : Ino)
  | published
  | ended

def Phase.temp : Phase → Option Ino
  | .holding temp | .opened temp _ | .copying temp _ _ | .copied temp _ | .ready temp _ => some temp
  | .outside | .validated | .entered | .usable | .published | .ended => none

/-- The source has not been opened yet. -/
def Phase.early : Phase → Bool
  | .outside | .validated | .entered | .usable | .holding _ => true
  | .opened _ _ | .copying _ _ _ | .copied _ _ | .ready _ _ | .published | .ended => false

structure Ghost where
  caller : Caller
  phase : Phase

def Ghost.allows (g : Ghost) : Op → Prop
  | .lstatDir => g.phase = .outside ∨ g.phase = .validated
  | .mkdir | .isDir => g.phase = .outside
  | .chmodDir mode => mode = 0o755 ∧ g.phase = .validated
  | .statStaged => g.phase = .entered
  | .statSource | .newTemp => g.phase = .entered ∨ g.phase = .usable
  | .openSource c => c = g.caller ∧ ∃ temp, g.phase = .holding temp
  | .openTemp temp _ => ∃ source, g.phase = .opened temp source
  | .copy temp source offset _ => g.phase = .copying temp source offset
  | .statTemp temp => ∃ source, g.phase = .copied temp source
  | .chmodTemp temp mode => mode = 0o755 ∧ ∃ source, g.phase = .copied temp source
  | .rename c temp => c = g.caller ∧ ∃ source, g.phase = .ready temp source
  | .removeTemp temp => g.phase.temp = some temp
  | .returned c r => c = g.caller ∧ g.phase.temp = none ∧
      (r = .ok () → g.phase = .usable ∨ g.phase = .published)

section Calls
variable (uid : Uid)

def Phase.after (p : Phase) : (op : Op) → Reply op → Phase
  | .lstatDir, node => if node.any (Node.own uid) then .validated else .outside
  | .chmodDir _, true => .entered
  | .statStaged, .found metadata => if isUsable metadata.mode then .usable else .entered
  | .newTemp, some temp => .holding temp
  | .openSource _, some (source,_) =>
    match p with
    | .holding temp => .opened temp source
    | _ => p
  | .openTemp _ _, true =>
    match p with
    | .opened temp source => .copying temp source 0
    | _ => p
  | .copy temp source _ none, true => .copied temp source
  | .copy temp source offset (some size), true => .copying temp source (offset+size)
  | .chmodTemp _ _, true =>
    match p with
    | .copied temp source => .ready temp source
    | _ => p
  | .rename _ _, true => .published
  | .removeTemp _, _ => .ended
  | _, _ => p

def outline : Outline Op Reply Ghost where
  ok := Ghost.allows
  next g op r g' := g' = ⟨g.caller,g.phase.after uid op r⟩
  final g := g.phase.temp = none

variable {uid} {c : Caller} {p : Phase}

theorem wp_call {op : Op} {α : Type} {f : Reply op → Code α} {post : α → Ghost → Prop}
    (hallows : (Ghost.mk c p).allows op)
    (hrest : ∀ r, (outline uid).wp (f r) post ⟨c,p.after uid op r⟩) :
    (outline uid).wp (call op >>= f) post ⟨c,p⟩ := by
  refine wp_perform_bind.mpr ⟨hallows,fun r g' hnext => ?_⟩
  cases hnext
  exact hrest r

theorem wp_last {op : Op} {post : Reply op → Ghost → Prop} (hallows : (Ghost.mk c p).allows op)
    (hpost : ∀ r, post r ⟨c,p.after uid op r⟩) : (outline uid).wp (call op) post ⟨c,p⟩ := by
  refine wp_perform.mpr ⟨hallows,fun r g' hnext => ?_⟩
  cases hnext
  exact hpost r

theorem createDirAll_outlined {post : Bool → Ghost → Prop} (hpost : ∀ b, post b ⟨c,.outside⟩) :
    (outline uid).wp createDirAll post ⟨c,.outside⟩ := by
  refine wp_call rfl fun made => ?_
  cases made with
  | true => exact hpost true
  | false => exact wp_last rfl fun b => hpost b

/-- What a test has in its hands when the directory has been dealt with. -/
def Phase.Arrives (r : Result) (p : Phase) : Prop :=
  p.temp = none ∧ (r = .ok () → p = .entered)

theorem revalidate_outlined (hp : p = .outside ∨ p = .validated) :
    (outline uid).wp (revalidate uid) (fun r g => g.caller = c ∧ g.phase.Arrives r) ⟨c,p⟩ := by
  refine wp_call hp fun node => ?_
  cases node with
  | none => exact ⟨rfl,rfl,fun h => nomatch h⟩
  | some node =>
    by_cases htype : node.fileType = .dir
    · by_cases huid : node.uid = uid
      · have hown : node.own uid = true := by simp [Node.own,htype,huid]
        simp only [htype,huid,ne_eq,not_true_eq_false,if_false]
        refine wp_call ⟨rfl,by simp [Phase.after,hown]⟩ fun done => ?_
        cases done with
        | true => exact ⟨rfl,rfl,fun _ => rfl⟩
        | false =>
          refine ⟨rfl,?_,fun h => nomatch h⟩
          simp [Phase.after,hown,Phase.temp]
      · simp only [htype,huid,ne_eq,not_true_eq_false,not_false_eq_true,if_false,if_true]
        have hother : node.own uid = false := by simp [Node.own,huid]
        exact ⟨rfl,by simp [Phase.after,hother,Phase.temp],fun h => nomatch h⟩
    · simp only [htype,ne_eq,not_false_eq_true,if_true]
      have hother : node.own uid = false := by simp [Node.own,htype]
      exact ⟨rfl,by simp [Phase.after,hother,Phase.temp],fun h => nomatch h⟩

theorem createStagingDirectorySecure_outlined :
    (outline uid).wp (createStagingDirectorySecure uid)
      (fun r g => g.caller = c ∧ g.phase.Arrives r) ⟨c,.outside⟩ := by
  refine wp_call (.inl rfl) fun node => ?_
  cases node with
  | none =>
    refine wp_bind.mpr (createDirAll_outlined fun made => ?_)
    cases made with
    | true => exact revalidate_outlined (.inl rfl)
    | false => exact ⟨rfl,rfl,fun h => nomatch h⟩
  | some node =>
    have hphase : Phase.outside.after uid .lstatDir (some node) = .outside ∨
        Phase.outside.after uid .lstatDir (some node) = .validated := by
      simp only [Phase.after]
      split
      · exact .inr rfl
      · exact .inl rfl
    have htemp : (Phase.outside.after uid .lstatDir (some node)).temp = none := by
      rcases hphase with h | h <;> rw [h] <;> rfl
    by_cases htype : node.fileType = .dir
    · by_cases huid : node.uid = uid
      · simp only [htype,huid,ne_eq,not_true_eq_false,if_false]
        exact revalidate_outlined hphase
      · simp only [htype,huid,ne_eq,not_true_eq_false,not_false_eq_true,if_false,if_true]
        exact ⟨rfl,htemp,fun h => nomatch h⟩
    · simp only [htype,ne_eq,not_false_eq_true,if_true]
      exact ⟨rfl,htemp,fun h => nomatch h⟩

/-- Nothing is restaged only where the staged file was found usable. -/
theorem shouldRestage_outlined :
    (outline uid).wp shouldRestage (fun r g => g.caller = c ∧
      (g.phase = .entered ∨ g.phase = .usable) ∧ (r = .ok false → g.phase = .usable))
      ⟨c,.entered⟩ := by
  refine wp_call rfl fun looked => ?_
  cases looked with
  | notFound => exact ⟨rfl,.inl rfl,fun h => nomatch h⟩
  | failed => exact ⟨rfl,.inl rfl,fun h => nomatch h⟩
  | found staged =>
    have hphase : Phase.entered.after uid .statStaged (.found staged) = .entered ∨
        Phase.entered.after uid .statStaged (.found staged) = .usable := by
      simp only [Phase.after]
      split
      · exact .inr rfl
      · exact .inl rfl
    refine wp_call hphase fun source => ?_
    cases source with
    | none => exact ⟨rfl,hphase,fun h => nomatch h⟩
    | some source =>
      refine ⟨rfl,hphase,fun h => ?_⟩
      have hcurrent : isOutdated source staged = false := Except.ok.inj h
      have husable : isUsable staged.mode = true := by simp_all [isOutdated]
      simp [Phase.after,husable]

theorem copyFrom_outlined {temp source : Ino} {offset : Nat} {sizes : List Nat} :
    (outline uid).wp (copyFrom temp source offset sizes) (fun done g => g.caller = c ∧
      g.phase.temp = some temp ∧ (done = true → g.phase = .copied temp source))
      ⟨c,.copying temp source offset⟩ := by
  induction sizes generalizing offset with
  | nil =>
    refine wp_last rfl fun done => ?_
    cases done with
    | true => exact ⟨rfl,rfl,fun _ => rfl⟩
    | false => exact ⟨rfl,rfl,fun h => nomatch h⟩
  | cons size sizes ih =>
    refine wp_call rfl fun done => ?_
    cases done with
    | true => exact ih
    | false => exact ⟨rfl,rfl,fun h => nomatch h⟩

theorem copyWorker_outlined {temp : Ino} {sizes : List Nat} :
    (outline uid).wp (copyWorker c temp sizes) (fun done g => g.caller = c ∧
      g.phase.temp = some temp ∧ (done = true → ∃ source, g.phase = .copied temp source))
      ⟨c,.holding temp⟩ := by
  refine wp_call ⟨rfl,temp,rfl⟩ fun opened => ?_
  cases opened with
  | none => exact ⟨rfl,rfl,fun h => nomatch h⟩
  | some opened =>
    refine wp_call ⟨opened.1,rfl⟩ fun truncated => ?_
    cases truncated with
    | false => exact ⟨rfl,rfl,fun h => nomatch h⟩
    | true =>
      exact wp_mono copyFrom_outlined fun done g h => ⟨h.1,h.2.1,fun hdone => ⟨_,h.2.2 hdone⟩⟩

theorem fillTemp_outlined {temp : Ino} {sizes : List Nat} :
    (outline uid).wp (fillTemp c temp sizes) (fun done g => g.caller = c ∧
      g.phase.temp = some temp ∧ (done = true → ∃ source, g.phase = .ready temp source))
      ⟨c,.holding temp⟩ := by
  refine wp_bind.mpr (wp_mono copyWorker_outlined fun copied g ⟨hcaller,htemp,hcopied⟩ => ?_)
  obtain ⟨_,phase⟩ := g
  cases hcaller
  cases copied with
  | false => exact ⟨rfl,htemp,fun h => nomatch h⟩
  | true =>
    obtain ⟨source,hsource⟩ := hcopied rfl
    cases hsource
    refine wp_call ⟨source,rfl⟩ fun mode => ?_
    cases mode with
    | none => exact ⟨rfl,rfl,fun h => nomatch h⟩
    | some mode =>
      refine wp_last ⟨rfl,source,rfl⟩ fun done => ?_
      cases done with
      | true => exact ⟨rfl,rfl,fun _ => ⟨source,rfl⟩⟩
      | false => exact ⟨rfl,rfl,fun h => nomatch h⟩

/-- A test that is through holds no temporary file, and with success the worker is staged. -/
def Phase.Ends (r : Result) (p : Phase) : Prop :=
  p.temp = none ∧ (r = .ok () → p = .usable ∨ p = .published)

theorem dropTemp_outlined {temp : Ino} (htemp : p.temp = some temp) :
    (outline uid).wp (dropTemp temp) (fun r g => g.caller = c ∧ g.phase.Ends r) ⟨c,p⟩ :=
  wp_call htemp fun _ => ⟨rfl,rfl,fun h => nomatch h⟩

theorem replaceStagedWorker_outlined {sizes : List Nat} (hp : p = .entered ∨ p = .usable) :
    (outline uid).wp (replaceStagedWorker c sizes) (fun r g => g.caller = c ∧ g.phase.Ends r)
      ⟨c,p⟩ := by
  refine wp_call hp fun temp => ?_
  cases temp with
  | none => rcases hp with rfl | rfl <;> exact ⟨rfl,rfl,fun h => nomatch h⟩
  | some temp =>
    refine wp_bind.mpr (wp_mono fillTemp_outlined fun filled g ⟨hcaller,htemp,hready⟩ => ?_)
    obtain ⟨_,phase⟩ := g
    cases hcaller
    cases filled with
    | false => exact dropTemp_outlined htemp
    | true =>
      obtain ⟨source,hsource⟩ := hready rfl
      cases hsource
      refine wp_call ⟨rfl,source,rfl⟩ fun renamed => ?_
      cases renamed with
      | true => exact ⟨rfl,rfl,fun _ => .inr rfl⟩
      | false => exact dropTemp_outlined rfl

theorem tryStageWorkerBinary_outlined {sizes : List Nat} :
    (outline uid).wp (tryStageWorkerBinary uid c sizes)
      (fun r g => g.caller = c ∧ g.phase.Ends r) ⟨c,.outside⟩ := by
  refine wp_bind.mpr (wp_mono createStagingDirectorySecure_outlined
    fun r g ⟨hcaller,htemp,hentered⟩ => ?_)
  obtain ⟨_,phase⟩ := g
  cases hcaller
  cases r with
  | error e => exact ⟨rfl,htemp,fun h => nomatch h⟩
  | ok u =>
    cases hentered rfl
    refine wp_bind.mpr (wp_mono shouldRestage_outlined fun r g ⟨hcaller,hphase,husable⟩ => ?_)
    obtain ⟨_,phase⟩ := g
    cases hcaller
    cases r with
    | error e => rcases hphase with h | h <;> cases h <;> exact ⟨rfl,rfl,fun h => nomatch h⟩
    | ok restage =>
      cases restage with
      | true => exact replaceStagedWorker_outlined hphase
      | false =>
        cases husable rfl
        exact ⟨rfl,rfl,fun _ => .inl rfl⟩

theorem stageWorkerBinary_outlined (c : Caller) (sizes : List Nat) :
    (outline uid).Safe (stageWorkerBinary uid c sizes) ⟨c,.outside⟩ := by
  refine wp_bind.mpr (wp_mono tryStageWorkerBinary_outlined fun r g ⟨hcaller,htemp,hok⟩ => ?_)
  obtain ⟨_,phase⟩ := g
  cases hcaller
  exact wp_last ⟨rfl,htemp,hok⟩ fun _ => htemp

end Calls

end PgEmbedSetup.TestSupport.Staging
