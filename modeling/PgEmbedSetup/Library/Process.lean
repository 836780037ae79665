import Mathlib.Data.List.Forall2
import PgEmbedSetup.Library.Transition

set_option autoImplicit false

/-!
Programs as trees of calls, pools of such programs that run interleaved over one world, and
a proof rule for pools: each program gets a piece of ghost state, and the world is tied to
all pieces together.
-/

namespace PgEmbedSetup.Library

variable {Op : Type} {Reply : Op → Type} {α β : Type}

/-- A program is its next call and how it goes on with each answer. -/
inductive Process (Op : Type) (Reply : Op → Type) (α : Type) where
  | pure (a : α)
  | call (op : Op) (next : Reply op → Process Op Reply α)

namespace Process

def bind : Process Op Reply α → (α → Process Op Reply β) → Process Op Reply β
  | .pure a, f => f a
  | .call op next, f => .call op (fun r => (next r).bind f)

instance : Monad (Process Op Reply) where
  pure := Process.pure
  bind := Process.bind

/-- One call, for its answer. -/
def perform (op : Op) : Process Op Reply (Reply op) := .call op .pure

/-- What is left of a program once its next call, which must be `op`, is answered. -/
def answered [DecidableEq Op] (p : Process Op Reply α) (op : Op) (r : Reply op) :
    Option (Process Op Reply α) :=
  match p with
  | .pure _ => none
  | .call op' next => if h : op = op' then some (next (h ▸ r)) else none

theorem answered_some [DecidableEq Op] {p q : Process Op Reply α} {op : Op} {r : Reply op}
    (h : p.answered op r = some q) : ∃ next, p = .call op next ∧ q = next r := by
  cases p with
  | pure a => simp [answered] at h
  | call op' next =>
    simp only [answered] at h
    split at h
    · rename_i heq
      subst heq
      simp only [Option.some.injEq] at h
      exact ⟨next,rfl,h.symm⟩
    · simp at h

/-- The call a program waits to be answered. -/
def nextCall : Process Op Reply α → Option Op
  | .pure _ => none
  | .call op _ => some op

/-- Whether a program has made its last call. -/
def isDone : Process Op Reply α → Bool
  | .pure _ => true
  | .call _ _ => false

end Process

/-! ### Proof outlines -/

/-- How a program's ghost state `A` may develop: which calls it allows, what an answer makes
of it, and what it may be at the end. -/
structure Outline (Op : Type) (Reply : Op → Type) (A : Type) where
  ok : A → Op → Prop
  next : A → (op : Op) → Reply op → A → Prop
  final : A → Prop

variable {A : Type}

/-- Whatever the answers, the program makes allowed calls only and ends in `post`. -/
def Outline.wp (O : Outline Op Reply A) : Process Op Reply α → (α → A → Prop) → A → Prop
  | .pure a, post, g => post a g
  | .call op next, post, g => O.ok g op ∧ ∀ r g', O.next g op r g' → O.wp (next r) post g'

def Outline.Safe (O : Outline Op Reply A) (p : Process Op Reply Unit) (g : A) : Prop :=
  O.wp p (fun _ g => O.final g) g

variable {O : Outline Op Reply A}

theorem wp_pure {a : α} {post : α → A → Prop} {g : A} :
    O.wp (pure a : Process Op Reply α) post g ↔ post a g := Iff.rfl

theorem wp_bind {p : Process Op Reply α} {f : α → Process Op Reply β} {post : β → A → Prop}
    {g : A} : O.wp (p >>= f) post g ↔ O.wp p (fun a g => O.wp (f a) post g) g := by
  change O.wp (p.bind f) post g ↔ _
  induction p generalizing g with
  | pure a => exact Iff.rfl
  | call op next ih =>
    simp only [Process.bind,Outline.wp]
    exact and_congr_right (fun _ => forall_congr' fun r => forall_congr' fun g' =>
      imp_congr_right (fun _ => ih r))

theorem wp_perform {op : Op} {post : Reply op → A → Prop} {g : A} :
    O.wp (Process.perform op) post g ↔ O.ok g op ∧ ∀ r g', O.next g op r g' → post r g' := Iff.rfl

/-- A program that begins with a call. -/
theorem wp_perform_bind {op : Op} {f : Reply op → Process Op Reply β} {post : β → A → Prop}
    {g : A} : O.wp (Process.perform op >>= f) post g ↔
      O.ok g op ∧ ∀ r g', O.next g op r g' → O.wp (f r) post g' := Iff.rfl

theorem wp_mono {p : Process Op Reply α} {post post' : α → A → Prop} {g : A}
    (h : O.wp p post g) (himp : ∀ a g, post a g → post' a g) : O.wp p post' g := by
  induction p generalizing g with
  | pure a => exact himp a g h
  | call op next ih => exact ⟨h.1,fun r g' hn => ih r (h.2 r g' hn)⟩

/-- An outline that allows more calls. -/
theorem wp_weaken {ok ok' : A → Op → Prop} {next : A → (op : Op) → Reply op → A → Prop}
    {final : A → Prop} (hok : ∀ g op, ok g op → ok' g op) {p : Process Op Reply α}
    {post : α → A → Prop} {g : A} (h : (Outline.mk ok next final).wp p post g) :
    (Outline.mk ok' next final).wp p post g := by
  induction p generalizing g with
  | pure a => exact h
  | call op rest ih => exact ⟨hok g op h.1,fun r g' hn => ih r (h.2 r g' hn)⟩

/-- One way a program may go, each call answered as the outline allows. -/
inductive Outline.Runs (O : Outline Op Reply A) : Process Op Reply α → A → α → A → Prop where
  | done (a : α) (g : A) : O.Runs (.pure a) g a g
  | call {op : Op} {next : Reply op → Process Op Reply α} {g g₁ g' : A} {a : α} (r : Reply op)
      (hnext : O.next g op r g₁) (hrest : O.Runs (next r) g₁ a g') : O.Runs (.call op next) g a g'

/-- Every way a program may go ends as its precondition promises. -/
theorem runs_of_wp {p : Process Op Reply α} {post : α → A → Prop} {g g' : A} {a : α}
    (h : O.wp p post g) (hrun : O.Runs p g a g') : post a g' := by
  induction hrun with
  | done a g => exact h
  | call r hnext _ ih => exact ih (h.2 r _ hnext)

theorem runs_bind {p : Process Op Reply α} {f : α → Process Op Reply β} {g g₁ g' : A} {a : α}
    {b : β} (hp : O.Runs p g a g₁) (hf : O.Runs (f a) g₁ b g') : O.Runs (p >>= f) g b g' := by
  induction hp with
  | done => exact hf
  | call r hnext _ ih => exact .call r hnext (ih hf)

theorem runs_perform_bind {op : Op} {f : Reply op → Process Op Reply β} {g g₁ g' : A} {b : β}
    (r : Reply op) (hnext : O.next g op r g₁) (hf : O.Runs (f r) g₁ b g') :
    O.Runs (Process.perform op >>= f) g b g' := .call r hnext hf

/-! ### Calls spelled out -/

variable {Op' : Type} {Reply' : Op' → Type} {A' : Type}

/-- A program each of whose calls is a program itself, which may be the end of both. -/
def Process.handle (h : (op : Op) → Process Op' Reply' (Option (Reply op))) :
    Process Op Reply Unit → Process Op' Reply' Unit
  | .pure _ => .pure ()
  | .call op next => (h op).bind fun
    | none => .pure ()
    | some r => (next r).handle h

theorem Process.handle_call {h : (op : Op) → Process Op' Reply' (Option (Reply op))} {op : Op}
    {next : Reply op → Process Op Reply Unit} :
    (Process.call op next).handle h = h op >>= fun
      | none => .pure ()
      | some r => (next r).handle h := by
  rw [Process.handle]
  rfl

/-- Whatever a call is spelled out as respects the finer outline. -/
theorem safe_handle {O' : Outline Op' Reply' A'} {h : (op : Op) → Process Op' Reply' (Option (Reply op))}
    {f : A → A'} {I : A → Prop} (hfinal : ∀ g, O.final g → O'.final (f g))
    (hcall : ∀ g op, I g → O.ok g op → O'.wp (h op) (fun r g' =>
      match r with
      | none => O'.final g'
      | some r => ∃ g₁, O.next g op r g₁ ∧ I g₁ ∧ g' = f g₁) (f g))
    {p : Process Op Reply Unit} {g : A} (hI : I g) (hp : O.Safe p g) :
    O'.Safe (p.handle h) (f g) := by
  induction p generalizing g with
  | pure a => exact hfinal g hp
  | call op next ih =>
    rw [Outline.Safe,Process.handle_call]
    refine wp_bind.mpr (wp_mono (hcall g op hI hp.1) (fun r g' hr => ?_))
    cases r with
    | none => exact hr
    | some r =>
      obtain ⟨g₁,hnext,hI₁,rfl⟩ := hr
      exact ih r hI₁ (hp.2 r g₁ hnext)

/-! ### Pools -/

/-- The world the programs run in. A call may start further programs. -/
structure Machine (Op : Type) (Reply : Op → Type) (σ ε : Type) where
  answer : σ → (op : Op) → Reply op → Option σ
  spawned : Op → List (Process Op Reply Unit)
  env : σ → ε → Option σ
  /-- What a program that is ended where it stands leaves behind. -/
  aborted : σ → σ

structure Pool (Op : Type) (Reply : Op → Type) (σ : Type) where
  world : σ
  threads : List (Process Op Reply Unit)

/-- No program has a call left. -/
def Pool.settled {σ : Type} (s : Pool Op Reply σ) : Bool := s.threads.all Process.isDone

theorem getElem?_set_some {xs : List α} {i j : Nat} {x y : α}
    (h : (xs.set i x)[j]? = some y) : j = i ∧ y = x ∨ j ≠ i ∧ xs[j]? = some y := by
  by_cases hji : j = i
  · subst hji
    obtain ⟨hlt,_⟩ := List.getElem?_eq_some_iff.mp h
    rw [List.getElem?_set_self (by simpa using hlt)] at h
    exact .inl ⟨rfl,(Option.some.inj h).symm⟩
  · rw [List.getElem?_set_ne (Ne.symm hji)] at h
    exact .inr ⟨hji,h⟩

/-- What holds of the new element and of all the old ones holds of each. -/
theorem forall_set {P : Nat → α → Prop} {xs : List α} {i : Nat} {x : α} (hx : P i x)
    (h : ∀ (j : Nat) y, xs[j]? = some y → P j y) (j : Nat) (y : α)
    (hy : (xs.set i x)[j]? = some y) : P j y := by
  rcases getElem?_set_some hy with ⟨rfl,rfl⟩ | ⟨_,hy⟩
  · exact hx
  · exact h j y hy

theorem getElem?_set_here {xs : List α} {i : Nat} {x y : α} (h : xs[i]? = some y) :
    (xs.set i x)[i]? = some x := by
  obtain ⟨hlt,_⟩ := List.getElem?_eq_some_iff.mp h
  exact List.getElem?_set_self hlt

theorem set_same {xs : List α} {i : Nat} {x : α} (h : xs[i]? = some x) : xs.set i x = xs := by
  obtain ⟨hlt,rfl⟩ := List.getElem?_eq_some_iff.mp h
  exact List.set_getElem_self hlt

theorem forall₂_set {R : α → β → Prop} {xs : List α} {ys : List β} (h : List.Forall₂ R xs ys)
    {x : α} {y : β} (hxy : R x y) (i : Nat) : List.Forall₂ R (xs.set i x) (ys.set i y) := by
  induction h generalizing i with
  | nil => exact .nil
  | cons hab htail ih =>
    cases i with
    | zero => exact .cons hxy htail
    | succ i => exact .cons hab (ih i)

theorem forall₂_getElem? {R : α → β → Prop} {xs : List α} {ys : List β}
    (h : List.Forall₂ R xs ys) {i : Nat} {x : α} (hx : xs[i]? = some x) :
    ∃ y, ys[i]? = some y ∧ R x y := by
  induction h generalizing i with
  | nil => simp at hx
  | cons hab htail ih =>
    cases i with
    | zero =>
      simp only [List.getElem?_cons_zero,Option.some.injEq] at hx
      exact ⟨_,rfl,hx ▸ hab⟩
    | succ i => exact ih hx

/-- Where every program has ended, every piece of ghost state is one to end with. -/
theorem settled_final {σ : Type} {s : Pool Op Reply σ} {ghosts : List A}
    (h : List.Forall₂ O.Safe s.threads ghosts) (hs : s.settled = true) :
    ∀ g ∈ ghosts, O.final g := by
  intro g hg
  obtain ⟨i,hi⟩ := List.mem_iff_getElem?.mp hg
  obtain ⟨p,hp,hsafe⟩ := forall₂_getElem? h.flip hi
  have hdone := List.all_eq_true.mp hs p (List.mem_of_getElem? hp)
  cases p with
  | pure a => exact hsafe
  | call op next => cases hdone

/-- A program's next call is one its ghost state allows. -/
theorem nextCall_ok {σ : Type} {s : Pool Op Reply σ} {ghosts : List A}
    (h : List.Forall₂ O.Safe s.threads ghosts) {i : Nat} {op : Op}
    (hop : (s.threads[i]?).bind Process.nextCall = some op) :
    ∃ g, ghosts[i]? = some g ∧ O.ok g op := by
  obtain ⟨p,hp,hcall⟩ := Option.bind_eq_some_iff.mp hop
  obtain ⟨g,hg,hsafe⟩ := forall₂_getElem? h hp
  cases p with
  | pure a => cases hcall
  | call op' next =>
    cases hcall
    exact ⟨g,hg,hsafe.1⟩

/-- A program whose ghost state is not one to end with has a call left. -/
theorem exists_nextCall {σ : Type} {s : Pool Op Reply σ} {ghosts : List A}
    (h : List.Forall₂ O.Safe s.threads ghosts) {i : Nat} {g : A} (hg : ghosts[i]? = some g)
    (hfinal : ¬ O.final g) :
    ∃ op, (s.threads[i]?).bind Process.nextCall = some op ∧ O.ok g op := by
  obtain ⟨p,hp,hsafe⟩ := forall₂_getElem? h.flip hg
  cases p with
  | pure a => exact absurd hsafe hfinal
  | call op next => exact ⟨op,by rw [hp]; rfl,hsafe.1⟩

inductive PoolAction (Op : Type) (Reply : Op → Type) (ε : Type) where
  | advance (i : Nat) (op : Op) (r : Reply op)
  /-- Ends a program other than the first one where it stands. -/
  | abort (i : Nat)
  | env (e : ε)

variable {σ ε : Type} [DecidableEq Op]

def Machine.step (m : Machine Op Reply σ ε) (s : Pool Op Reply σ) :
    PoolAction Op Reply ε → Option (Pool Op Reply σ)
  | .advance i op r =>
    match (s.threads[i]?).bind (fun p => p.answered op r), m.answer s.world op r with
    | some p, some w => some ⟨w,s.threads.set i p ++ m.spawned op⟩
    | _, _ => none
  | .abort i =>
    if 0 < i ∧ i < s.threads.length then
      some ⟨m.aborted s.world,s.threads.set i (.pure ())⟩
    else none
  | .env e => (m.env s.world e).map (fun w => ⟨w,s.threads⟩)

def Machine.system (m : Machine Op Reply σ ε) (init : Pool Op Reply σ → Prop) :
    System (Pool Op Reply σ) (PoolAction Op Reply ε) where
  init := init
  step s a t := m.step s a = some t

/-- A program whose call is answered goes on with the answer. -/
theorem Machine.step_advance {m : Machine Op Reply σ ε} {s : Pool Op Reply σ} {i : Nat} {op : Op}
    {next : Reply op → Process Op Reply Unit} {r : Reply op} {w : σ}
    (hthread : s.threads[i]? = some (.call op next)) (hworld : m.answer s.world op r = some w) :
    m.step s (.advance i op r) = some ⟨w,s.threads.set i (next r) ++ m.spawned op⟩ := by
  simp [Machine.step,hthread,hworld,Process.answered]

/-- The steps of a list one after the other, each allowed by `meets`. -/
def Machine.run (m : Machine Op Reply σ ε)
    (meets : Pool Op Reply σ → PoolAction Op Reply ε → Bool) :
    Pool Op Reply σ → List (PoolAction Op Reply ε) → Option (Pool Op Reply σ)
  | s, [] => some s
  | s, a :: rest =>
    if meets s a then (m.step s a).bind (fun t => m.run meets t rest) else none

theorem Machine.reachable_run {m : Machine Op Reply σ ε} {init : Pool Op Reply σ → Prop}
    {meets : Pool Op Reply σ → PoolAction Op Reply ε → Bool} {s t : Pool Op Reply σ}
    {as : List (PoolAction Op Reply ε)}
    (h : ((m.system init).restrict (fun s a => meets s a = true)).Reachable s)
    (hr : m.run meets s as = some t) :
    ((m.system init).restrict (fun s a => meets s a = true)).Reachable t := by
  induction as generalizing s with
  | nil =>
    cases hr
    exact h
  | cons a rest ih =>
    simp only [Machine.run] at hr
    split at hr
    · rename_i hmeets
      obtain ⟨u,hu,hrest⟩ := Option.bind_eq_some_iff.mp hr
      exact ih (System.reachable_step _ h ⟨hmeets,hu⟩) hrest
    · cases hr

/-- A run that ends as wanted and whose steps meet the condition shows a reachable state of that
kind. -/
theorem Machine.run_reaches (m : Machine Op Reply σ ε)
    {C : Pool Op Reply σ → PoolAction Op Reply ε → Prop}
    (meets : Pool Op Reply σ → PoolAction Op Reply ε → Bool)
    (hmeets : ∀ s a, meets s a = true → C s a) {init : Pool Op Reply σ → Prop}
    {s : Pool Op Reply σ} (hinit : init s) (as : List (PoolAction Op Reply ε))
    (wanted : Pool Op Reply σ → Bool) (h : (m.run meets s as).any wanted = true) :
    ∃ t, ((m.system init).restrict C).Reachable t ∧ wanted t = true := by
  cases hrun : m.run meets s as with
  | none => simp [hrun] at h
  | some t =>
    rw [hrun,Option.any_some] at h
    have hreach := Machine.reachable_run (System.reachable_init _ hinit) hrun
    exact ⟨t,System.reachable_mono _ hmeets hreach,h⟩

/-! ### A program alone -/

/-- What a program may come to when nobody else takes a step. -/
inductive Plays (answer : σ → (op : Op) → Reply op → Option σ) :
    σ → Process Op Reply α → α → σ → Prop where
  | done (w : σ) (a : α) : Plays answer w (.pure a) a w
  | call {w w₁ w' : σ} {op : Op} {next : Reply op → Process Op Reply α} {r : Reply op} {a : α} :
    answer w op r = some w₁ → Plays answer w₁ (next r) a w' → Plays answer w (.call op next) a w'

section Plays
omit [DecidableEq Op]
variable {answer : σ → (op : Op) → Reply op → Option σ} {w w₁ w' : σ} {a : α} {b : β}

theorem plays_bind {p : Process Op Reply α} {f : α → Process Op Reply β}
    (hp : Plays answer w p a w₁) (hf : Plays answer w₁ (f a) b w') :
    Plays answer w (p >>= f) b w' := by
  induction hp with
  | done => exact hf
  | call hanswer _ ih => exact .call hanswer (ih hf)

theorem plays_perform_bind {op : Op} {r : Reply op} {f : Reply op → Process Op Reply β}
    (hanswer : answer w op r = some w₁) (hf : Plays answer w₁ (f r) b w') :
    Plays answer w (Process.perform op >>= f) b w' := .call hanswer hf

end Plays

/-- A program of a pool may be played while the others stand. -/
theorem Machine.run_plays {m : Machine Op Reply σ ε} {init : Pool Op Reply σ → Prop}
    {C : Pool Op Reply σ → PoolAction Op Reply ε → Prop}
    (hC : ∀ s i op r, C s (.advance i op r)) (hspawned : ∀ op, m.spawned op = [])
    {w w' : σ} {p : Process Op Reply α} {a : α} (hp : Plays m.answer w p a w') {i : Nat}
    {f : α → Process Op Reply Unit} {threads : List (Process Op Reply Unit)}
    (hi : threads[i]? = some (p >>= f)) {s₀ : Pool Op Reply σ}
    {as : List (PoolAction Op Reply ε)}
    (hrun : ((m.system init).restrict C).Run s₀ as ⟨w,threads⟩) :
    ∃ as, ((m.system init).restrict C).Run s₀ as ⟨w',threads.set i (f a)⟩ := by
  induction hp generalizing threads as with
  | done w a =>
    have hnow : threads[i]? = some (f a) := hi
    rw [set_same hnow]
    exact ⟨as,hrun⟩
  | @call w w₁ w' op next r a hanswer _ ih =>
    have hstep := m.step_advance (s := ⟨w,threads⟩) hi hanswer
    rw [hspawned,List.append_nil] at hstep
    obtain ⟨bs,hbs⟩ := ih (getElem?_set_here hi) (hrun.snoc ⟨hC _ _ _ _,hstep⟩)
    rw [List.set_set] at hbs
    exact ⟨bs,hbs⟩

/-- Every program is safe with its ghost state, and `J` ties the world to all of them. -/
def Outlined (O : Outline Op Reply A) (J : σ → List A → Prop) (s : Pool Op Reply σ) : Prop :=
  ∃ ghosts, List.Forall₂ O.Safe s.threads ghosts ∧ J s.world ghosts

/-- What has to be shown of each single call, abort and step of the environment. -/
structure Preserves (m : Machine Op Reply σ ε) (O : Outline Op Reply A) (J : σ → List A → Prop)
    (C : Pool Op Reply σ → PoolAction Op Reply ε → Prop) : Prop where
  advance : ∀ s i op r w ghosts g, C s (.advance i op r) → m.answer s.world op r = some w →
    J s.world ghosts → ghosts[i]? = some g → O.ok g op →
      ∃ g' new, O.next g op r g' ∧ List.Forall₂ O.Safe (m.spawned op) new ∧
        J w (ghosts.set i g' ++ new)
  abort : ∀ s i ghosts, C s (.abort i) → J s.world ghosts →
    ∃ g, O.final g ∧ J (m.aborted s.world) (ghosts.set i g)
  env : ∀ s e w ghosts, C s (.env e) → m.env s.world e = some w → J s.world ghosts → J w ghosts

theorem Outlined.step {m : Machine Op Reply σ ε} {J : σ → List A → Prop}
    {C : Pool Op Reply σ → PoolAction Op Reply ε → Prop} (hp : Preserves m O J C)
    {s t : Pool Op Reply σ} {a : PoolAction Op Reply ε} (h : Outlined O J s) (hc : C s a)
    (hs : m.step s a = some t) : Outlined O J t := by
  obtain ⟨ghosts,hsafe,hj⟩ := h
  cases a with
  | advance i op r =>
    simp only [Machine.step] at hs
    split at hs
    · rename_i p w hthread hworld
      simp only [Option.some.injEq] at hs
      subst hs
      obtain ⟨q,hq,hanswered⟩ := Option.bind_eq_some_iff.mp hthread
      obtain ⟨next,rfl,rfl⟩ := Process.answered_some hanswered
      obtain ⟨g,hg,hcall⟩ := forall₂_getElem? hsafe hq
      obtain ⟨g',new,hnext,hnew,hj'⟩ := hp.advance s i op r w ghosts g hc hworld hj hg hcall.1
      exact ⟨_,List.rel_append (forall₂_set hsafe (hcall.2 r g' hnext) i) hnew,hj'⟩
    · simp at hs
  | abort i =>
    simp only [Machine.step] at hs
    split at hs
    · simp only [Option.some.injEq] at hs
      subst hs
      obtain ⟨g,hfinal,hj'⟩ := hp.abort s i ghosts hc hj
      have hdone : O.Safe (.pure ()) g := hfinal
      exact ⟨_,forall₂_set hsafe hdone i,hj'⟩
    · simp at hs
  | env e =>
    simp only [Machine.step,Option.map_eq_some_iff] at hs
    obtain ⟨w,hw,rfl⟩ := hs
    exact ⟨ghosts,hsafe,hp.env s e w ghosts hc hw hj⟩

/-- The rule for pools: a proof outline of the programs, tied to the world, holds along every
run whose steps meet the condition. -/
theorem outlined_reachable {m : Machine Op Reply σ ε} {J : σ → List A → Prop}
    {C : Pool Op Reply σ → PoolAction Op Reply ε → Prop} {init : Pool Op Reply σ → Prop}
    (hp : Preserves m O J C) (hinit : ∀ s, init s → Outlined O J s) {s : Pool Op Reply σ}
    (h : ((m.system init).restrict C).Reachable s) : Outlined O J s :=
  ((m.system init).restrict C).invariant hinit (fun _ _ _ ho hs => ho.step hp hs.1 hs.2) h

end PgEmbedSetup.Library
