import Mathlib.Algebra.BigOperators.Group.List.Basic
import Mathlib.Algebra.Order.Group.Defs
import Mathlib.Tactic.Abel

/-! Books of deposits and transfers over any accounts and amounts. The balance of an
account is what was deposited to it and received less what it sent; transfers
conserve the total; and where each transfer is covered no balance is negative. -/
namespace Bookkeeping

inductive Posting (A M : Type) where
  | deposit (account : A) (amount : M)
  | transfer (sender receiver : A) (amount : M)

variable {A M : Type} [DecidableEq A]

namespace Posting

def touches (a : A) : Posting A M → Bool
  | .deposit account _ => decide (account = a)
  | .transfer sender receiver _ => decide (sender = a) || decide (receiver = a)

section
variable [AddCommGroup M]

def deposited (a : A) : Posting A M → M
  | .deposit account amount => if account = a then amount else 0
  | .transfer _ _ _ => 0

def received (a : A) : Posting A M → M
  | .deposit _ _ => 0
  | .transfer _ receiver amount => if receiver = a then amount else 0

def sent (a : A) : Posting A M → M
  | .deposit _ _ => 0
  | .transfer sender _ amount => if sender = a then amount else 0

def change (a : A) (p : Posting A M) : M := p.deposited a + p.received a - p.sent a

def inflow : Posting A M → M
  | .deposit _ amount => amount
  | .transfer _ _ _ => 0

end

def Within (accounts : List A) : Posting A M → Prop
  | .deposit account _ => account ∈ accounts
  | .transfer sender receiver _ => sender ∈ accounts ∧ receiver ∈ accounts

end Posting

abbrev Book (A M : Type) := List (Posting A M)

namespace Book
variable {book : Book A M} {p : Posting A M} {a : A}

def changes (book : Book A M) (a : A) : Nat := book.countP (Posting.touches a)

theorem changesSnoc (book : Book A M) (p : Posting A M) (a : A) :
    changes (book ++ [p]) a = changes book a + if p.touches a then 1 else 0 := by
  simp only [changes,List.countP_append,List.countP_singleton]

section
variable [AddCommGroup M]

def deposits (book : Book A M) (a : A) : M := (book.map (Posting.deposited a)).sum
def receipts (book : Book A M) (a : A) : M := (book.map (Posting.received a)).sum
def payments (book : Book A M) (a : A) : M := (book.map (Posting.sent a)).sum
def balance (book : Book A M) (a : A) : M := (book.map (Posting.change a)).sum
def inflow (book : Book A M) : M := (book.map Posting.inflow).sum

theorem balanceSnoc (book : Book A M) (p : Posting A M) (a : A) :
    balance (book ++ [p]) a = balance book a + p.change a := by
  simp only [balance,List.map_append,List.sum_append,List.map_singleton,List.sum_singleton]

theorem balanceSplit (book : Book A M) (a : A) :
    balance book a = deposits book a + receipts book a - payments book a := by
  induction book with
  | nil => simp [balance,deposits,receipts,payments]
  | cons p rest ih =>
    simp only [balance,deposits,receipts,payments,List.map_cons,List.sum_cons] at ih ⊢
    rw [ih,Posting.change]
    abel

theorem balanceUntouched {p : Posting A M} (h : p.touches a = false) : p.change a = 0 := by
  cases p with
  | deposit account amount =>
    have other : account ≠ a := by simpa [Posting.touches] using h
    simp [Posting.change,Posting.deposited,Posting.received,Posting.sent,other]
  | transfer sender receiver amount =>
    have other : sender ≠ a ∧ receiver ≠ a := by simpa [Posting.touches] using h
    simp [Posting.change,Posting.deposited,Posting.received,Posting.sent,other.1,other.2]

theorem sumSingle {accounts : List A} (nodup : accounts.Nodup) (inside : a ∈ accounts) (amount : M) :
    (accounts.map (fun b => if a = b then amount else 0)).sum = amount := by
  induction accounts with
  | nil => simp at inside
  | cons b rest ih =>
    obtain ⟨fresh,nodup⟩ := List.nodup_cons.mp nodup
    simp only [List.map_cons,List.sum_cons]
    by_cases same : a = b
    · subst same
      have zero : (rest.map (fun c => if a = c then amount else 0)).sum = 0 := by
        apply List.sum_eq_zero
        intro x hx
        obtain ⟨c,hc,rfl⟩ := List.mem_map.mp hx
        rw [if_neg (fun (h : a = c) => fresh (h ▸ hc))]
      rw [if_pos rfl,zero,add_zero]
    · rw [if_neg same,zero_add]
      exact ih nodup ((List.mem_cons.mp inside).resolve_left same)

theorem changesTotal {accounts : List A} (nodup : accounts.Nodup) (within : p.Within accounts) :
    (accounts.map (fun a => p.change a)).sum = p.inflow := by
  cases p with
  | deposit account amount =>
    simpa [Posting.change,Posting.deposited,Posting.received,Posting.sent,Posting.inflow]
      using sumSingle nodup within amount
  | transfer sender receiver amount =>
    have split : (accounts.map (fun a => (Posting.transfer sender receiver amount).change a)).sum =
        (accounts.map (fun a => if receiver = a then amount else 0)).sum -
          (accounts.map (fun a => if sender = a then amount else 0)).sum := by
      generalize accounts = members
      induction members with
      | nil => simp
      | cons a rest ih =>
        rw [List.map_cons,List.sum_cons,ih]
        simp only [List.map_cons,List.sum_cons,Posting.change,Posting.deposited,Posting.received,
          Posting.sent]
        abel
    rw [split,sumSingle nodup within.2,sumSingle nodup within.1,sub_self,Posting.inflow]

theorem balancesTotal {accounts : List A} (nodup : accounts.Nodup)
    (within : ∀ p ∈ book, p.Within accounts) :
    (accounts.map (balance book)).sum = inflow book := by
  induction book with
  | nil =>
    apply List.sum_eq_zero
    intro x hx
    obtain ⟨a,_,rfl⟩ := List.mem_map.mp hx
    rfl
  | cons p rest ih =>
    have each : (accounts.map (balance (p :: rest))).sum =
        (accounts.map (fun a => p.change a)).sum + (accounts.map (balance rest)).sum := by
      rw [← List.sum_map_add]
      rfl
    rw [each,changesTotal nodup (within p (List.mem_cons_self ..)),
      ih (fun q hq => within q (List.mem_cons_of_mem _ hq))]
    rfl

end

section
variable [AddCommGroup M] [LinearOrder M] [IsOrderedAddMonoid M]

inductive Covered : Book A M → Prop where
  | nil : Covered []
  | deposit {book a m} (before : Covered book) (amount : 0 ≤ m) : Covered (book ++ [.deposit a m])
  | transfer {book a b m} (before : Covered book) (amount : 0 ≤ m) (covered : m ≤ balance book a) :
      Covered (book ++ [.transfer a b m])

theorem balanceNonneg (covered : Covered book) (a : A) : 0 ≤ balance book a := by
  induction covered with
  | nil => exact le_refl _
  | @deposit book account m before amount ih =>
    rw [balanceSnoc]
    refine add_nonneg ih ?_
    simp only [Posting.change,Posting.deposited,Posting.received,Posting.sent,add_zero,sub_zero]
    split
    · exact amount
    · exact le_refl _
  | @transfer book sender receiver m before amount enough ih =>
    rw [balanceSnoc]
    have gain : 0 ≤ (Posting.transfer sender receiver m).received a := by
      simp only [Posting.received]
      split
      · exact amount
      · exact le_refl _
    have rest : 0 ≤ balance book a - (Posting.transfer sender receiver m).sent a := by
      simp only [Posting.sent]
      split
      · rename_i same
        exact sub_nonneg.mpr (same ▸ enough)
      · simpa using ih
    have split : balance book a + (Posting.transfer sender receiver m).change a =
        (balance book a - (Posting.transfer sender receiver m).sent a) +
          (Posting.transfer sender receiver m).received a := by
      simp only [Posting.change,Posting.deposited]
      abel
    rw [split]
    exact add_nonneg rest gain

end
end Book
end Bookkeeping
