import PgEmbedSetup.Library.PathWalk

set_option autoImplicit false

/-!
A handle on a directory, below which paths are found without leaving it, and where the whole path
leads.
-/

namespace PgEmbedSetup.Library

variable {ν : Type} {l : Layout ν} {r : WalkRules} {d : Place ν}

/-- What is below a directory, with the directory as its root. -/
def Layout.under (l : Layout ν) (d : Place ν) (hd : l.kind d = some .dir) : Layout ν where
  kind p := l.kind (p ++ d)
  root_dir := hd
  parent_dir n p k h := l.parent_dir n (p ++ d) k h

def Scan.below (d : Place ν) : Scan ν → Scan ν
  | .done p => .done (p ++ d)
  | .jump p target rest => .jump (p ++ d) target rest
  | .fail e => .fail e

theorem scan_under {hd : l.kind d = some .dir} {f : Bool} {p : Place ν} {ps : List (Part ν)}
    (hs : ∀ e, (l.under d hd).scan ⟨f,true⟩ p ps ≠ .fail e) :
    l.scan ⟨f,false⟩ (p ++ d) ps = ((l.under d hd).scan ⟨f,true⟩ p ps).below d := by
  induction ps generalizing p with
  | nil => rfl
  | cons part ps ih =>
    rw [scan_cons] at hs
    rw [scan_cons,scan_cons]
    have hkind : (l.under d hd).kind p = l.kind (p ++ d) := rfl
    rw [hkind] at hs ⊢
    cases hk : l.kind (p ++ d) with
    | none =>
      rw [hk] at hs
      exact absurd rfl (hs .notFound)
    | some k =>
      rw [hk] at hs
      cases k with
      | leaf => exact absurd rfl (hs .notDir)
      | link target => exact absurd rfl (hs .notDir)
      | dir =>
        cases part with
        | here => exact ih hs
        | up =>
          cases p with
          | nil => exact absurd rfl (hs .escapes)
          | cons m p => exact ih hs
        | name n =>
          have hname : (l.under d hd).kind (n :: p) = l.kind (n :: (p ++ d)) := rfl
          simp only [Layout.enter] at hs ⊢
          rw [hname] at hs ⊢
          cases hn : l.kind (n :: (p ++ d)) with
          | none =>
            rw [hn] at hs
            exact absurd rfl (hs .notFound)
          | some k =>
            rw [hn] at hs
            cases k with
            | dir => exact ih hs
            | leaf => exact ih hs
            | link target =>
              dsimp only
              split <;> rfl

/-- A walk that stays below the handle is one of the whole layout. -/
theorem walk_under {hd : l.kind d = some .dir} {f : Bool} {b : Nat} {p q : Place ν}
    {ps : List (Part ν)} (h : (l.under d hd).walk ⟨f,true⟩ b p ps = .ok q) :
    l.walk ⟨f,false⟩ b (p ++ d) ps = .ok (q ++ d) := by
  have hs : ∀ e, (l.under d hd).scan ⟨f,true⟩ p ps ≠ .fail e := by
    intro e he
    simp [walk_of_fail he] at h
  have hscan := scan_under hs
  induction b generalizing p ps with
  | zero =>
    simp only [Layout.walk,hscan] at h ⊢
    cases hu : (l.under d hd).scan ⟨f,true⟩ p ps with
    | done x =>
      rw [hu] at h
      cases h
      rfl
    | fail e => exact absurd hu (hs e)
    | jump x t rest =>
      rw [hu] at h
      cases h
  | succ b ih =>
    simp only [Layout.walk,hscan] at h ⊢
    cases hu : (l.under d hd).scan ⟨f,true⟩ p ps with
    | done x =>
      rw [hu] at h
      cases h
      rfl
    | fail e => exact absurd hu (hs e)
    | jump x t rest =>
      simp only [hu,Scan.below] at h ⊢
      split at h
      · simp at h
      · next ha =>
        rw [if_neg ha]
        have hs' : ∀ e, (l.under d hd).scan ⟨f,true⟩ x (t.parts ++ rest) ≠ .fail e := by
          intro e he
          simp [walk_of_fail he] at h
        exact ih h hs' (scan_under hs')

/-! ### Two parts of a path -/

theorem walk_of_scan {b : Nat} {p p' : Place ν} {ps ps' : List (Part ν)}
    (h : l.scan r p ps = l.scan r p' ps') : l.walk r b p ps = l.walk r b p' ps' := by
  cases b <;> simp only [Layout.walk,h]

/-- The second part is walked from where the first one leads, with the links that are left. -/
theorem walk_append (hr : r.follow = true) {b : Nat} {p q : Place ν} {ps qs : List (Part ν)}
    (h : l.walk r b p (ps ++ qs) = .ok q) (hd : l.walk r b p ps = .ok d) :
    ∃ b', l.walk r b' d qs = .ok q := by
  induction b generalizing p ps with
  | zero =>
    cases hs : l.scan r p ps with
    | done x =>
      rw [walk_of_done hs,Except.ok.injEq] at hd
      subst hd
      exact ⟨0,(walk_of_scan (by rw [scan_append hr,hs]; rfl)).trans h⟩
    | fail e => simp [walk_of_fail hs] at hd
    | jump x t rest => simp [Layout.walk,hs] at hd
  | succ b ih =>
    cases hs : l.scan r p ps with
    | done x =>
      rw [walk_of_done hs,Except.ok.injEq] at hd
      subst hd
      exact ⟨b+1,(walk_of_scan (by rw [scan_append hr,hs]; rfl)).trans h⟩
    | fail e => simp [walk_of_fail hs] at hd
    | jump x t rest =>
      have hsa : l.scan r p (ps ++ qs) = .jump x t (rest ++ qs) := by
        rw [scan_append hr,hs]
        rfl
      simp only [Layout.walk,hs,hsa] at h hd
      split at hd
      · next ha =>
        split at hd
        · cases hd
        · next hb =>
          rw [if_pos ha,if_neg hb,← List.append_assoc] at h
          exact ih h hd
      · next ha =>
        rw [if_neg ha,← List.append_assoc] at h
        exact ih h hd

/-- How many links may be followed decides whether a walk ends, but not where. -/
theorem walk_budget {b b' : Nat} {p q q' : Place ν} {ps : List (Part ν)}
    (h : l.walk r b p ps = .ok q) (h' : l.walk r b' p ps = .ok q') : q = q' := by
  induction b generalizing b' p ps with
  | zero =>
    cases hs : l.scan r p ps with
    | done x =>
      rw [walk_of_done hs] at h h'
      exact Except.ok.inj (h.symm.trans h')
    | fail e => simp [walk_of_fail hs] at h
    | jump x t rest => simp [Layout.walk,hs] at h
  | succ b ih =>
    cases hs : l.scan r p ps with
    | done x =>
      rw [walk_of_done hs] at h h'
      exact Except.ok.inj (h.symm.trans h')
    | fail e => simp [walk_of_fail hs] at h
    | jump x t rest =>
      cases b' with
      | zero => simp [Layout.walk,hs] at h'
      | succ b' =>
        simp only [Layout.walk,hs] at h h'
        split at h
        · next ha =>
          rw [if_pos ha] at h'
          split at h
          · cases h
          · next hb =>
            rw [if_neg hb] at h'
            exact ih h h'
        · next ha =>
          rw [if_neg ha] at h'
          exact ih h h'

/-- The rest of a path that a handle is asked for leads where the whole path does. -/
theorem walk_under_agrees {hd : l.kind d = some .dir} {b b' : Nat} {p q q' : Place ν}
    {ps qs : List (Part ν)} (h : l.walk ⟨true,false⟩ b p (ps ++ qs) = .ok q)
    (hdir : l.walk ⟨true,false⟩ b p ps = .ok d)
    (hunder : (l.under d hd).walk ⟨true,true⟩ b' [] qs = .ok q') : q = q' ++ d := by
  obtain ⟨b₁,hrest⟩ := walk_append rfl h hdir
  exact walk_budget hrest (walk_under hunder)

end PgEmbedSetup.Library
