import Mathlib.Data.Finset.Card
import Mathlib.Data.Finset.Range
import Mathlib.Data.Nat.Find
import Mathlib.Logic.Relation

set_option autoImplicit false

/-! The ancestors of a node where every node has at most one parent. -/

namespace PgEmbedSetup.Library
variable {ν : Type} (parent : ν → Option ν)

/-- The ancestor so many links up. -/
def above : Nat → ν → Option ν
  | 0,p => some p
  | n+1,p => (parent p).bind (above n)

/-- Some links up from the first node is the second; at least one. -/
def Ancestor (p root : ν) : Prop := Relation.TransGen (fun q r => parent q = some r) p root

variable {parent} {p root : ν}

theorem above_add (i k : Nat) :
    above parent (i + k) p = (above parent i p).bind (above parent k) := by
  induction i generalizing p with
  | zero => rw [Nat.zero_add]; rfl
  | succ i ih =>
    rw [Nat.add_right_comm]
    change (parent p).bind (above parent (i + k)) = ((parent p).bind (above parent i)).bind _
    rw [Option.bind_assoc]
    exact congrArg _ (funext fun q => ih)

theorem above_succ_eq_some {n : Nat} :
    above parent (n + 1) p = some root ↔ ∃ q, parent p = some q ∧ above parent n q = some root :=
  Option.bind_eq_some_iff

theorem ancestor_iff : Ancestor parent p root ↔ ∃ n, above parent (n + 1) p = some root := by
  constructor
  · intro h
    induction h using Relation.TransGen.head_induction_on with
    | single hlink => exact ⟨0,above_succ_eq_some.mpr ⟨root,hlink,rfl⟩⟩
    | head hlink _ ih =>
      obtain ⟨n,hn⟩ := ih
      exact ⟨n + 1,above_succ_eq_some.mpr ⟨_,hlink,hn⟩⟩
  · rintro ⟨n,hn⟩
    induction n generalizing p with
    | zero =>
      obtain ⟨q,hlink,hq⟩ := above_succ_eq_some.mp hn
      obtain rfl := Option.some.inj hq
      exact .single hlink
    | succ n ih =>
      obtain ⟨q,hlink,hq⟩ := above_succ_eq_some.mp hn
      exact .head hlink (ih hq)

/-- A node that is its own parent has no other ancestor. -/
theorem above_self (hself : parent p = some p) (n : Nat) : above parent n p = some p := by
  induction n with
  | zero => rfl
  | succ n ih => exact above_succ_eq_some.mpr ⟨p,hself,ih⟩

/-- Past a parent that is not the ancestor looked for, there is a link less to go. -/
theorem exists_above_link {q : ν} (hlink : parent p = some q) (hq : q ≠ root) {links : Nat} :
    (∃ n < links + 1, above parent (n + 1) p = some root) ↔
      ∃ n < links, above parent (n + 1) q = some root := by
  constructor
  · rintro ⟨n,hlt,hn⟩
    obtain ⟨r,hr,hn⟩ := above_succ_eq_some.mp hn
    rw [hlink] at hr
    obtain rfl := Option.some.inj hr
    cases n with
    | zero => exact absurd (Option.some.inj hn) hq
    | succ n => exact ⟨n,Nat.lt_of_succ_lt_succ hlt,hn⟩
  · rintro ⟨n,hlt,hn⟩
    exact ⟨n + 1,Nat.succ_lt_succ hlt,above_succ_eq_some.mpr ⟨q,hlink,hn⟩⟩

/-- What remains of the way to an ancestor, from a node on it. -/
theorem above_rest {m i : Nat} (h : above parent (m + 1) p = some root) (hi : i ≤ m) :
    (above parent i p).bind (above parent (m - i + 1)) = some root := by
  rw [← above_add,← h]
  congr 1
  omega

/-- The shortest way to an ancestor meets no node twice: that would give a shorter one. -/
theorem above_distinct {m : Nat} (h : above parent (m + 1) p = some root)
    (hmin : ∀ k < m, above parent (k + 1) p ≠ some root) {i j : Nat} (hij : i < j) (hj : j ≤ m) :
    above parent i p ≠ above parent j p := by
  intro heq
  refine hmin (m - j + i) (by omega) ?_
  rw [show m - j + i + 1 = i + (m - j + 1) by omega,above_add,heq]
  exact above_rest h hj

/-- The shortest way has no more links than there are nodes with a parent. -/
theorem exists_above_lt {n : Nat} (h : above parent (n + 1) p = some root) {nodes : Finset ν}
    (hnodes : ∀ q, (parent q).isSome → q ∈ nodes) :
    ∃ m < nodes.card, above parent (m + 1) p = some root := by
  classical
  have hex : ∃ n, above parent (n + 1) p = some root := ⟨n,h⟩
  obtain ⟨m,hm,hmin⟩ : ∃ m, above parent (m + 1) p = some root ∧
      ∀ k < m, above parent (k + 1) p ≠ some root :=
    ⟨Nat.find hex,Nat.find_spec hex,fun k hk => Nat.find_min hex hk⟩
  have hmaps : ∀ i ∈ Finset.range (m + 1), above parent i p ∈ nodes.image some := by
    intro i hi
    obtain ⟨q,hq,hrest⟩ := Option.bind_eq_some_iff.mp
      (above_rest hm (Nat.lt_succ_iff.mp (Finset.mem_range.mp hi)))
    obtain ⟨r,hlink,-⟩ := above_succ_eq_some.mp hrest
    exact Finset.mem_image.mpr ⟨q,hnodes q (by rw [hlink]; rfl),hq.symm⟩
  have hinj : ∀ i ∈ Finset.range (m + 1), ∀ j ∈ Finset.range (m + 1),
      above parent i p = above parent j p → i = j := by
    intro i hi j hj heq
    rw [Finset.mem_range] at hi hj
    rcases Nat.lt_trichotomy i j with hlt | rfl | hlt
    · exact absurd heq (above_distinct hm hmin hlt (by omega))
    · rfl
    · exact absurd heq.symm (above_distinct hm hmin hlt (by omega))
  have hcard := Finset.card_le_card_of_injOn _ hmaps fun i hi j hj => hinj i hi j hj
  rw [Finset.card_range,Finset.card_image_of_injective _ (Option.some_injective _)] at hcard
  exact ⟨m,by omega,hm⟩

end PgEmbedSetup.Library
