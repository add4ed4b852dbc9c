import Mathlib.Logic.Relation
import Mathlib.Order.Preorder.Finite
import Mathlib.Order.WithBot

/-! Ordered acquisition. If every process waits for a resource above all those
it holds, no chain of waiting processes closes, and of finitely many unfinished
processes one is not waiting. -/
namespace LockOrder

variable {P R : Type} [Preorder R]

structure Table (P R : Type) where
  holds : P → R → Prop
  wants : P → Option R

def Waits (t : Table P R) (i j : P) : Prop := ∃ r, t.wants i = some r ∧ t.holds j r ∧ i ≠ j

def Ascending (t : Table P R) : Prop := ∀ i r r', t.wants i = some r → t.holds i r' → r' < r

theorem chainAscends {t : Table P R} (ascending : Ascending t) {i j : P}
    (chain : Relation.TransGen (Waits t) i j) :
    ∃ r r', t.wants i = some r ∧ t.holds j r' ∧ r ≤ r' := by
  induction chain with
  | single h =>
    obtain ⟨r,want,held,_⟩ := h
    exact ⟨r,r,want,held,le_refl r⟩
  | tail before last ih =>
    obtain ⟨r,r',want,held,above⟩ := ih
    obtain ⟨next,wants,holder,_⟩ := last
    exact ⟨r,next,want,holder,le_trans above (ascending _ _ _ wants held).le⟩

theorem acyclic {t : Table P R} (ascending : Ascending t) (i : P) :
    ¬ Relation.TransGen (Waits t) i i := by
  intro cycle
  obtain ⟨r,r',want,held,above⟩ := chainAscends ascending cycle
  exact absurd above (not_le_of_gt (ascending i r r' want held))

theorem someFree {t : Table P R} (ascending : Ascending t) {unfinished : Set P}
    (finite : unfinished.Finite) (nonempty : unfinished.Nonempty)
    (inside : ∀ i ∈ unfinished, ∀ j, Waits t i j → j ∈ unfinished) :
    ∃ i ∈ unfinished, ∀ j, ¬ Waits t i j := by
  by_contra stuck
  have waiting : ∀ i ∈ unfinished, ∃ j, Waits t i j := by
    intro i hi
    by_contra free
    exact stuck ⟨i,hi,not_exists.mp free⟩
  -- whoever waits for the greatest resource waits for somebody who waits for a greater one
  let wanted : P → WithBot R := t.wants
  obtain ⟨i,hi,top⟩ := finite.exists_maximalFor wanted unfinished nonempty
  obtain ⟨j,wait⟩ := waiting i hi
  have hj := inside i hi j wait
  obtain ⟨k,r',want',_,_⟩ := waiting j hj
  obtain ⟨r,want,held,_⟩ := wait
  have above : r < r' := ascending j r' r want' held
  have low : wanted i = (r : WithBot R) := want
  have high : wanted j = (r' : WithBot R) := want'
  have down := top hj (by rw [low,high]; exact WithBot.coe_le_coe.mpr above.le)
  rw [low,high] at down
  exact absurd (WithBot.coe_le_coe.mp down) (not_le_of_gt above)

end LockOrder
