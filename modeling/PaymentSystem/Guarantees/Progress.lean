import PaymentSystem.System.Schedule
import PaymentSystem.Base.LockOrder

/-! Deadlock freedom. A call blocks on a lock of another request only, and what it
waits for lies above everything its own request holds. -/
namespace PaymentSystem
open Numerics (Decimal)
open Interleaving (Program)

instance : Preorder Resource := Preorder.lift Resource.rank

theorem rankLess {a b : Resource} (h : a.rank < b.rank) : a < b := h

def State.waitsFor (c : State) (pid : Nat) : Option Resource :=
  match c.running[pid]? with
  | some (.call op _) => op.wants.filter (fun r => c.shared.db.heldByOther pid r)
  | _ => none

def State.lockTable (c : State) : LockOrder.Table Nat Resource :=
  ⟨fun pid r => c.shared.db.locks r = some pid,c.waitsFor⟩

abbrev State.Waits (c : State) : Nat → Nat → Prop := LockOrder.Waits c.lockTable

def State.unfinished (c : State) : Set Nat := {pid | ∃ op next, c.running[pid]? = some (.call op next)}

theorem waitsForCases {c : State} {pid : Nat} {r : Resource} (h : c.waitsFor pid = some r) :
    ∃ op next, c.running[pid]? = some (.call op next) ∧ op.wants = some r ∧
      c.shared.db.heldByOther pid r = true := by
  simp only [State.waitsFor] at h
  split at h
  · rename_i op next here
    obtain ⟨wanted,held⟩ := Option.filter_eq_some_iff.mp h
    exact ⟨op,next,here,wanted,held⟩
  · contradiction

namespace Database
variable {db : Database} {pid : Nat}

theorem heldHolder {r : Resource} (h : db.heldByOther pid r = true) :
    ∃ holder, db.locks r = some holder ∧ holder ≠ pid := by
  simp only [heldByOther] at h
  split at h
  · contradiction
  · rename_i holder here
    exact ⟨holder,here,by simpa using h⟩

theorem uniqueCheckBlocks {primaryKey unique : Resource} {onPrimaryKey onUnique : Constraint}
    (h : db.uniqueCheck pid primaryKey unique onPrimaryKey onUnique = none) :
    db.heldByOther pid unique = true := by
  simp only [uniqueCheck] at h
  split at h
  · contradiction
  · split at h
    · assumption
    · split at h <;> contradiction

end Database

theorem performBlocks {pid : Nat} {s : Stores} {choice : Choice} {op : Op}
    (h : perform pid s choice op = none) : ∃ r, op.wants = some r ∧ s.db.heldByOther pid r = true := by
  cases op with
  | selectWalletForUpdate id =>
    refine ⟨_,rfl,?_⟩
    simp only [perform,writes,Option.map_eq_none_iff,Database.selectForUpdate] at h
    split at h
    · contradiction
    · split at h
      · assumption
      · contradiction
  | selectTransactionByKey | selectTransactionsOf | hashPassword => exact absurd h checkedAnswers
  | updateWallet id expected balance version =>
    refine ⟨_,rfl,?_⟩
    simp only [perform,writes,Database.updateWallet] at h
    split at h <;> try contradiction
    split at h <;> try contradiction
    split at h <;> try contradiction
    split at h
    · assumption
    · split at h <;> contradiction
  | flushWallet id balance =>
    refine ⟨_,rfl,?_⟩
    simp only [perform,writes,Database.flushWallet] at h
    split at h <;> try contradiction
    split at h <;> try contradiction
    split at h
    · assumption
    · split at h <;> contradiction
  | insertUser email passwordHash fullName =>
    refine ⟨_,rfl,?_⟩
    simp only [perform,writes,Database.insertUser] at h
    split at h <;> try contradiction
    split at h <;> try contradiction
    rename_i blocked
    exact Database.uniqueCheckBlocks blocked
  | insertWallet userId =>
    refine ⟨_,rfl,?_⟩
    simp only [perform,writes,Database.insertWallet] at h
    split at h <;> try contradiction
    split at h
    · rename_i blocked
      exact Database.uniqueCheckBlocks blocked
    · contradiction
    · split at h <;> contradiction
  | insertTransaction new =>
    refine ⟨_,rfl,?_⟩
    simp only [perform,writes,Database.insertTransaction] at h
    split at h <;> try contradiction
    split at h <;> try contradiction
    split at h <;> try contradiction
    split at h <;> try contradiction
    split at h
    · rename_i blocked
      exact Database.uniqueCheckBlocks blocked
    · contradiction
    · split at h
      · contradiction
      · split at h <;> contradiction
  | _ => contradiction

theorem attemptBlocks {pid : Nat} {s : Stores} {choice : Choice} {op : Op}
    (h : attempt pid s op choice = none) : ∃ r, op.wants = some r ∧ s.db.heldByOther pid r = true := by
  simp only [attempt] at h
  split at h
  · exact performBlocks h
  · contradiction
  · exact performBlocks (Option.map_eq_none_iff.mp h)

section
variable [Pydantic] {c : State}

theorem reachableAscending (reachable : Reachable c) : LockOrder.Ascending c.lockTable := by
  intro pid r r' wanted held
  obtain ⟨op,next,here,wants,other⟩ := waitsForCases wanted
  obtain ⟨ordered,_⟩ := reachableDue reachable here
  rcases ordered r wants with mine | below
  · obtain ⟨holder,same,apart⟩ := Database.heldHolder other
    exact absurd (Option.some.inj (same.symm.trans mine)) apart
  · exact rankLess (below r' held)

theorem holderRuns (reachable : Reachable c) {pid : Nat} {r : Resource} (held : c.shared.db.locks r = some pid) :
    pid ∈ c.unfinished := by
  have whole := heldReachable reachable
  by_cases started : pid < c.running.length
  · have here : c.running[pid]? = some c.running[pid] := List.getElem?_eq_getElem started
    cases p : c.running[pid] with
    | call op next => exact ⟨op,next,p ▸ here⟩
    | done outcome => exact absurd held ((whole.ended (p ▸ here)).locks r)
  · have unstarted := whole.inv.unstarted pid (by have := whole.counted; omega)
    exact absurd held (unstarted.2.1 r)

end

theorem deadlockFree [Pydantic] {c : State} (reachable : Reachable c) :
    (∀ pid, ¬ Relation.TransGen c.Waits pid pid) ∧
      (∀ pid choice, pid ∈ c.unfinished → machine.next c (.step pid choice) = none → ∃ other, c.Waits pid other) ∧
      (c.unfinished.Nonempty →
        ∃ pid ∈ c.unfinished, ∀ choice, ∃ c', machine.next c (.step pid choice) = some c') := by
  have ascending := reachableAscending reachable
  have blocked : ∀ pid choice, pid ∈ c.unfinished → machine.next c (.step pid choice) = none →
      ∃ other, c.Waits pid other := by
    rintro pid choice ⟨op,next,here⟩ stuck
    simp only [Interleaving.Machine.next,here,Option.map_eq_none_iff] at stuck
    obtain ⟨r,wanted,held⟩ := attemptBlocks (Option.map_eq_none_iff.mp stuck)
    obtain ⟨holder,same,apart⟩ := Database.heldHolder held
    refine ⟨holder,r,?_,same,Ne.symm apart⟩
    simp only [State.lockTable,State.waitsFor,here]
    exact Option.filter_eq_some_iff.mpr ⟨wanted,held⟩
  refine ⟨LockOrder.acyclic ascending,blocked,?_⟩
  intro nonempty
  have finite : c.unfinished.Finite := by
    refine (Set.finite_lt_nat c.running.length).subset ?_
    rintro pid ⟨op,next,here⟩
    exact (List.getElem?_eq_some_iff.mp here).1
  have inside : ∀ i ∈ c.unfinished, ∀ j, c.Waits i j → j ∈ c.unfinished := by
    rintro i _ j ⟨r,_,held,_⟩
    exact holderRuns reachable held
  obtain ⟨pid,running,free⟩ := LockOrder.someFree ascending finite nonempty inside
  refine ⟨pid,running,fun choice => ?_⟩
  cases moved : machine.next c (.step pid choice) with
  | some c' => exact ⟨c',rfl⟩
  | none =>
    obtain ⟨other,waits⟩ := blocked pid choice running moved
    exact absurd waits (free other)

def crossing : List Happening :=
  opening ++ (.start (.sendMoney 102 rent false) :: .start (.sendMoney 202
    (.to 102 tenDollars "back" (by decide)) false) :: (steps 3 4 400 ++ steps 4 3 500))

open JsonMode in
theorem deadlockFreeCrossing :
    (stateAfter crossing).waitsFor 4 = some (.wallet 103) ∧
      ∃ pid ∈ (stateAfter crossing).unfinished, ∀ choice,
        ∃ c', machine.next (stateAfter crossing) (.step pid choice) = some c' := by
  have waiting : (stateAfter crossing).waitsFor 4 = some (.wallet 103) := by decide +kernel
  obtain ⟨op,next,here,_⟩ := waitsForCases waiting
  exact ⟨waiting,(deadlockFree (stateReachable crossing (by decide +kernel))).2.2 ⟨4,op,next,here⟩⟩

end PaymentSystem
