import Mathlib.Data.List.Chain
import Mathlib.Data.Finset.Card
import Mathlib.Order.Interval.Finset.Nat

/-! Counts that go up by one and start again at one, where the beginnings are at least `d`
apart. A span of length `d` sees at most one beginning, so that it holds at most `2 * m - 1`
counts of at most `m`: those after it, and those of an earlier count without its beginning. -/
namespace Restarts

variable {α : Type}

structure Counting (time value : α → Nat) (d : Nat) (counts : List α) : Prop where
  sorted : counts.Pairwise (fun x y => time x ≤ time y)
  ups : counts.IsChain (fun x y => value y = value x + 1 ∨ value y = 1)
  positive : ∀ x ∈ counts, 1 ≤ value x
  apart : counts.Pairwise (fun x y => value x = 1 → value y = 1 → time x + d ≤ time y)

def low (time value : α → Nat) (start d m : Nat) (counts : List α) : List α :=
  counts.filter (fun x => decide ((start ≤ time x ∧ time x < start + d) ∧ value x ≤ m))

variable {time value : α → Nat} {start d m : Nat} {counts : List α} {x : α}

theorem lowMem : x ∈ low time value start d m counts ↔
    x ∈ counts ∧ (start ≤ time x ∧ time x < start + d) ∧ value x ≤ m := by
  simp only [low,List.mem_filter,decide_eq_true_eq]

theorem risingLength {numbers : List Nat} {a b : Nat} (rising : numbers.Pairwise (· < ·))
    (bounds : ∀ n ∈ numbers, a ≤ n ∧ n ≤ b) : numbers.length ≤ b + 1 - a := by
  have nodup : numbers.Nodup := rising.imp (fun less => Nat.ne_of_lt less)
  have inside : numbers.toFinset ⊆ Finset.Icc a b := by
    intro n here
    exact Finset.mem_Icc.mpr (bounds n (List.mem_toFinset.mp here))
  rw [← List.toFinset_card_of_nodup nodup,← Nat.card_Icc]
  exact Finset.card_le_card inside

namespace Counting

theorem tail (h : Counting time value d (x :: counts)) : Counting time value d counts :=
  ⟨h.sorted.of_cons,h.ups.tail,fun y here => h.positive y (List.mem_cons_of_mem _ here),h.apart.of_cons⟩

theorem snoc (h : Counting time value d counts) {y : α} (late : ∀ x ∈ counts, time x ≤ time y)
    (up : ∀ x, counts.getLast? = some x → value y = value x + 1 ∨ value y = 1) (positive : 1 ≤ value y)
    (begins : value y = 1 → ∀ x ∈ counts, value x = 1 → time x + d ≤ time y) :
    Counting time value d (counts ++ [y]) where
  sorted := by
    refine List.pairwise_append.mpr ⟨h.sorted,List.pairwise_singleton ..,?_⟩
    intro x here z there
    exact List.mem_singleton.mp there ▸ late x here
  ups := by
    refine List.isChain_append.mpr ⟨h.ups,.singleton _,?_⟩
    intro x last z there
    cases there
    exact up x last
  positive := by
    intro x here
    rcases List.mem_append.mp here with old | added
    · exact h.positive x old
    · exact List.mem_singleton.mp added ▸ positive
  apart := by
    refine List.pairwise_append.mpr ⟨h.apart,List.pairwise_singleton ..,?_⟩
    intro x here z there begun one
    cases List.mem_singleton.mp there
    exact begins one x here begun

def Inner (time value : α → Nat) (start d : Nat) (counts : List α) : Prop :=
  ∀ y ∈ counts, start ≤ time y → time y < start + d → value y ≠ 1

theorem rises (h : Counting time value d (x :: counts)) (inner : Inner time value start d counts)
    (first : start ≤ time x) {y : α} (here : y ∈ counts) (last : time y < start + d) : value x < value y := by
  induction counts generalizing x with
  | nil => contradiction
  | cons z more ih =>
    have order := List.rel_of_pairwise_cons h.sorted (List.mem_cons_self ..)
    have early : time z ≤ time y := by
      rcases List.mem_cons.mp here with rfl | later
      · exact Nat.le_refl _
      · exact List.rel_of_pairwise_cons h.tail.sorted later
    -- within the span nothing begins again
    have up : value z = value x + 1 :=
      (List.isChain_cons_cons.mp h.ups).1.resolve_right
        (inner z (List.mem_cons_self ..) (first.trans order) (early.trans_lt last))
    rcases List.mem_cons.mp here with rfl | later
    · omega
    · have rest := ih h.tail (fun y here => inner y (List.mem_cons_of_mem _ here)) (first.trans order) later
      omega

theorem lowRising (h : Counting time value d counts) (inner : Inner time value start d counts) :
    ((low time value start d m counts).map value).Pairwise (· < ·) := by
  induction counts with
  | nil => exact .nil
  | cons x counts ih =>
    have rest := ih h.tail (fun y here => inner y (List.mem_cons_of_mem _ here))
    by_cases inside : (start ≤ time x ∧ time x < start + d) ∧ value x ≤ m
    · have split : low time value start d m (x :: counts) = x :: low time value start d m counts := by
        simp only [low,List.filter_cons,inside,and_self,decide_true,if_true]
      rw [split,List.map_cons,List.pairwise_cons]
      refine ⟨?_,rest⟩
      intro n there
      obtain ⟨y,kept,rfl⟩ := List.mem_map.mp there
      obtain ⟨here,⟨_,last⟩,_⟩ := lowMem.mp kept
      exact h.rises (fun y here => inner y (List.mem_cons_of_mem _ here)) inside.1.1 here last
    · have split : low time value start d m (x :: counts) = low time value start d m counts := by
        simp only [low,List.filter_cons,inside,decide_false,Bool.false_eq_true,if_false]
      rw [split]
      exact rest

theorem innerLow (h : Counting time value d counts) (inner : Inner time value start d counts) :
    (low time value start d m counts).length ≤ m - 1 := by
  rw [← List.length_map (f := value)]
  refine risingLength (a := 2) (b := m) (h.lowRising inner) ?_
  intro n there
  obtain ⟨y,kept,rfl⟩ := List.mem_map.mp there
  obtain ⟨here,⟨first,last⟩,few⟩ := lowMem.mp kept
  have begun := h.positive y here
  have other := inner y here first last
  omega

theorem atMostTwice (h : Counting time value d counts) : (low time value start d m counts).length ≤ 2 * m - 1 := by
  by_cases begins : ∃ o ∈ counts, start ≤ time o ∧ time o < start + d ∧ value o = 1
  · obtain ⟨o,here,first,last,one⟩ := begins
    obtain ⟨before,after,rfl⟩ := List.append_of_mem here
    obtain ⟨apartBefore,apartAfter,apartAcross⟩ := List.pairwise_append.mp h.apart
    obtain ⟨sortedBefore,sortedAfter,_⟩ := List.pairwise_append.mp h.sorted
    obtain ⟨upsBefore,upsAfter,_⟩ := List.isChain_append.mp h.ups
    have earlier : Counting time value d before :=
      ⟨sortedBefore,upsBefore,fun y inside => h.positive y (List.mem_append_left _ inside),apartBefore⟩
    have later : Counting time value d (o :: after) :=
      ⟨sortedAfter,upsAfter,fun y inside => h.positive y (List.mem_append_right _ inside),apartAfter⟩
    have few : (low time value start d m before).length ≤ m - 1 := by
      refine earlier.innerLow ?_
      intro y inside begun _ also
      have gap := apartAcross y inside o (List.mem_cons_self ..) also one
      omega
    have fewer : (low time value start d m after).length ≤ m - 1 := by
      refine later.tail.innerLow ?_
      intro y inside _ ended also
      have gap := List.rel_of_pairwise_cons apartAfter inside one also
      omega
    by_cases none : m = 0
    · have empty : low time value start d m (before ++ o :: after) = [] := by
        refine List.filter_eq_nil_iff.mpr ?_
        intro y inside
        have begun := h.positive y inside
        simp only [decide_eq_true_eq]
        omega
      rw [empty]
      exact Nat.zero_le _
    · have parts : (low time value start d m (before ++ o :: after)).length ≤
          (low time value start d m before).length + (1 + (low time value start d m after).length) := by
        simp only [low,List.filter_append,List.length_append,List.filter_cons]
        split
        · rw [List.length_cons]
          omega
        · omega
      omega
  · refine (h.innerLow ?_).trans (by omega)
    intro y here first last one
    exact begins ⟨y,here,first,last,one⟩

end Counting
end Restarts
