import Mathlib.Data.List.Basic
import Mathlib.Data.List.Perm.Basic

/-! Pages of rows by offset and limit, where each page is cut from an order of its own
among those that one key allows. The pages fit together exactly where no rows of one
key lie on both sides of a cut; nothing here names an application. -/
namespace Paging
variable {α : Type} {rank : α → Nat} {rows order a b : List α} {size p : Nat}

def page (order : List α) (size number : Nat) : List α := (order.drop (number * size)).take size

def pages (orders : Nat → List α) (size count : Nat) : List α :=
  (List.range count).flatMap (fun number => page (orders number) size number)

structure Falling (rank : α → Nat) (rows order : List α) : Prop where
  perm : order.Perm rows
  falls : order.Pairwise (fun x y => rank y ≤ rank x)

theorem pagesSucc (orders : Nat → List α) (size count : Nat) :
    pages orders size (count + 1) = pages orders size count ++ page (orders count) size count := by
  simp only [pages,List.range_succ,List.flatMap_append,List.flatMap_singleton]

theorem takePage (order : List α) (size count : Nat) :
    order.take ((count + 1) * size) = order.take (count * size) ++ page order size count := by
  rw [Nat.succ_mul,List.take_add]
  rfl

theorem pagesOne (order : List α) (size count : Nat) :
    pages (fun _ => order) size count = order.take (count * size) := by
  induction count with
  | zero => simp [pages]
  | succ count ih => rw [pagesSucc,takePage,ih]

theorem pagesTwo (size first more : Nat) :
    pages (fun number => if number < first then a else b) size (first + more) =
      a.take (first * size) ++ (b.drop (first * size)).take (more * size) := by
  induction more with
  | zero =>
    rw [Nat.add_zero,Nat.zero_mul,List.take_zero,List.append_nil,← pagesOne]
    refine List.flatMap_congr ?_
    intro number inside
    simp only [if_pos (List.mem_range.mp inside)]
  | succ more ih =>
    have later : ¬ first + more < first := by omega
    rw [← Nat.add_assoc,pagesSucc,ih,if_neg later,List.append_assoc,Nat.succ_mul,List.take_add,List.drop_drop,page,
      Nat.add_mul]

theorem pagesMap {β : Type} (f : α → β) (orders : Nat → List α) (size count : Nat) :
    (pages orders size count).map f = pages (fun number => (orders number).map f) size count := by
  simp only [pages,page,List.map_flatMap,List.map_take,List.map_drop]

theorem Falling.ranks (ha : Falling rank rows a) (hb : Falling rank rows b) : a.map rank = b.map rank := by
  have falls : ∀ order, Falling rank rows order → (order.map rank).Pairwise (fun r s => s ≤ r) :=
    fun order h => List.pairwise_map.mpr h.falls
  refine List.Perm.eq_of_pairwise ?_ (falls a ha) (falls b hb) ((ha.perm.trans hb.perm.symm).map rank)
  intro r s _ _ below above
  exact Nat.le_antisymm above below

def Clear (ranks : List Nat) (cut : Nat) : Prop :=
  ∃ least, (∀ r ∈ ranks.take cut, least ≤ r) ∧ ∀ r ∈ ranks.drop cut, r < least

theorem takeFilter {least : Nat} (before : ∀ x ∈ order.take p, least ≤ rank x)
    (behind : ∀ x ∈ order.drop p, rank x < least) : order.take p = order.filter (fun x => decide (least ≤ rank x)) := by
  have all : (order.take p).filter (fun x => decide (least ≤ rank x)) = order.take p :=
    List.filter_eq_self.mpr (fun x here => decide_eq_true (before x here))
  have noneBehind : (order.drop p).filter (fun x => decide (least ≤ rank x)) = [] := by
    refine List.filter_eq_nil_iff.mpr ?_
    intro x here
    simpa using behind x here
  calc order.take p = (order.take p ++ order.drop p).filter (fun x => decide (least ≤ rank x)) := by
        rw [List.filter_append,all,noneBehind,List.append_nil]
    _ = _ := by rw [List.take_append_drop]

theorem takePerm (ha : Falling rank rows a) (hb : Falling rank rows b) (clear : Clear (a.map rank) p) :
    (a.take p).Perm (b.take p) := by
  have split : ∀ order : List α, order.map rank = a.map rank → ∀ least,
      (∀ r ∈ (a.map rank).take p, least ≤ r) → (∀ r ∈ (a.map rank).drop p, r < least) →
      order.take p = order.filter (fun x => decide (least ≤ rank x)) := by
    intro order same least before behind
    refine takeFilter (fun x here => before _ ?_) (fun x here => behind _ ?_)
    · rw [← same,← List.map_take]
      exact List.mem_map_of_mem here
    · rw [← same,← List.map_drop]
      exact List.mem_map_of_mem here
  obtain ⟨least,before,behind⟩ := clear
  rw [split a rfl least before behind,split b (hb.ranks ha) least before behind]
  exact (ha.perm.trans hb.perm.symm).filter _

theorem pagePerm {number : Nat} (ha : Falling rank rows a) (hb : Falling rank rows b)
    (clear : Clear (a.map rank) (number * size)) (clear' : Clear (a.map rank) ((number + 1) * size)) :
    (page a size number).Perm (page b size number) := by
  have whole := takePerm ha hb clear'
  rw [takePage,takePage] at whole
  exact (List.perm_append_left_iff _).mp (whole.trans ((takePerm ha hb clear).symm.append_right _))

theorem pagesPerm {orders : Nat → List α} (falling : ∀ number, Falling rank rows (orders number))
    (ha : Falling rank rows a) (clear : ∀ number, Clear (a.map rank) (number * size)) (count : Nat) :
    (pages orders size count).Perm (a.take (count * size)) := by
  induction count with
  | zero => simp [pages]
  | succ count ih =>
    rw [pagesSucc,takePage]
    exact ih.append (pagePerm ha (falling count) (clear count) (clear (count + 1))).symm

theorem pagesFall {orders : Nat → List α} (falling : ∀ number, Falling rank rows (orders number)) (count : Nat) :
    (pages orders size count).Pairwise (fun x y => rank y ≤ rank x) := by
  have ranks : (pages orders size count).map rank = ((orders 0).map rank).take (count * size) := by
    rw [pagesMap,← pagesOne]
    refine List.flatMap_congr ?_
    intro number _
    simp only [(falling number).ranks (falling 0)]
  have fall : ((orders 0).map rank).Pairwise (fun r s => s ≤ r) := List.pairwise_map.mpr (falling 0).falls
  have fall' : ((pages orders size count).map rank).Pairwise (fun r s => s ≤ r) := by
    rw [ranks]
    exact fall.sublist (List.take_sublist ..)
  exact List.pairwise_map.mp fall'

/-! Where the cuts are clear. -/

def above (rank : α → Nat) (rows : List α) (x : α) : Nat := rows.countP (fun y => decide (rank x < rank y))

def notBelow (rank : α → Nat) (rows : List α) (x : α) : Nat := rows.countP (fun y => decide (rank x ≤ rank y))

def OnOnePage (rank : α → Nat) (rows : List α) (size : Nat) : Prop :=
  ∀ x ∈ rows, above rank rows x / size = (notBelow rank rows x - 1) / size

instance (rank : α → Nat) (rows : List α) (size : Nat) : Decidable (OnOnePage rank rows size) :=
  inferInstanceAs (Decidable (∀ x ∈ rows, _ = _))

theorem placed {before after : List α} {x : α} (h : Falling rank rows (before ++ x :: after)) :
    above rank rows x ≤ before.length ∧ before.length + 1 ≤ notBelow rank rows x := by
  obtain ⟨_,later,early⟩ := List.pairwise_append.mp h.falls
  obtain ⟨behind,_⟩ := List.pairwise_cons.mp later
  have noneBehind : (x :: after).countP (fun y => decide (rank x < rank y)) = 0 := by
    refine List.countP_eq_zero.mpr ?_
    intro y here
    rcases List.mem_cons.mp here with rfl | here
    · simp
    · simpa using behind y here
  have all : before.countP (fun y => decide (rank x ≤ rank y)) = before.length :=
    List.countP_eq_length.mpr (fun y here => decide_eq_true (early y here x (List.mem_cons_self ..)))
  constructor
  · rw [above,← h.perm.countP_eq,List.countP_append,noneBehind]
    exact List.countP_le_length
  · rw [notBelow,← h.perm.countP_eq,List.countP_append,all,List.countP_cons]
    simp

theorem clearFirst (h : Falling rank rows order) : Clear (order.map rank) 0 := by
  cases order with
  | nil => exact ⟨0,by simp,by simp⟩
  | cons x rest =>
    obtain ⟨behind,_⟩ := List.pairwise_cons.mp h.falls
    refine ⟨rank x + 1,by simp,?_⟩
    intro r here
    obtain ⟨y,inside,rfl⟩ := List.mem_map.mp here
    rcases List.mem_cons.mp inside with rfl | inside
    · exact Nat.lt_succ_self _
    · exact Nat.lt_succ_of_le (behind y inside)

theorem clearEnd {ranks : List Nat} {cut : Nat} (h : ranks.length ≤ cut) : Clear ranks cut :=
  ⟨0,fun _ _ => Nat.zero_le _,fun r here => by simp [List.drop_eq_nil_of_le h] at here⟩

theorem clearStep {before after : List α} {x y : α} (h : Falling rank rows (before ++ x :: y :: after))
    (step : rank y < rank x) : Clear ((before ++ x :: y :: after).map rank) (before.length + 1) := by
  obtain ⟨_,later,early⟩ := List.pairwise_append.mp h.falls
  obtain ⟨_,last⟩ := List.pairwise_cons.mp later
  obtain ⟨behind,_⟩ := List.pairwise_cons.mp last
  have split : (before ++ x :: y :: after).map rank = (before ++ [x]).map rank ++ (y :: after).map rank := by simp
  have length : ((before ++ [x]).map rank).length = before.length + 1 := by simp
  rw [split]
  refine ⟨rank x,?_,?_⟩
  · rw [List.take_left' length]
    intro r here
    obtain ⟨z,inside,rfl⟩ := List.mem_map.mp here
    rcases List.mem_append.mp inside with inside | inside
    · exact early z inside x (List.mem_cons_self ..)
    · exact List.mem_singleton.mp inside ▸ Nat.le_refl _
  · rw [List.drop_left' length]
    intro r here
    obtain ⟨z,inside,rfl⟩ := List.mem_map.mp here
    rcases List.mem_cons.mp inside with rfl | inside
    · exact step
    · exact Nat.lt_of_le_of_lt (behind z inside) step

theorem clearOr (h : Falling rank rows order) (cut : Nat) : Clear (order.map rank) cut ∨
    ∃ before x y after, order = before ++ x :: y :: after ∧ before.length + 1 = cut ∧ rank x = rank y := by
  cases cut with
  | zero => exact .inl (clearFirst h)
  | succ n =>
    by_cases inside : n + 1 < order.length
    · have split : order = order.take n ++ order[n] :: order[n + 1] :: order.drop (n + 2) := by
        rw [← List.drop_eq_getElem_cons inside,← List.drop_eq_getElem_cons (by omega),List.take_append_drop]
      have length : (order.take n).length = n := by
        rw [List.length_take]
        omega
      generalize order.take n = before at split length
      generalize order[n] = x at split
      generalize order[n + 1] = y at split
      generalize order.drop (n + 2) = after at split
      subst split
      obtain ⟨_,later,_⟩ := List.pairwise_append.mp h.falls
      have below : rank y ≤ rank x := (List.pairwise_cons.mp later).1 y (List.mem_cons_self ..)
      rcases Nat.lt_or_eq_of_le below with step | same
      · exact .inl (length ▸ clearStep h step)
      · exact .inr ⟨before,x,y,after,rfl,by rw [length],same.symm⟩
    · exact .inl (clearEnd (by simpa using inside))

theorem clearBeside {cut : Nat} (h : Falling rank rows order) (clear : Clear (order.map rank) cut)
    (fits : cut ≤ rows.length) (x : α) : notBelow rank rows x ≤ cut ∨ cut ≤ above rank rows x := by
  obtain ⟨least,before,behind⟩ := clear
  have before' : ∀ y ∈ order.take cut, least ≤ rank y := by
    intro y here
    refine before _ ?_
    rw [← List.map_take]
    exact List.mem_map_of_mem here
  have behind' : ∀ y ∈ order.drop cut, rank y < least := by
    intro y here
    refine behind _ ?_
    rw [← List.map_drop]
    exact List.mem_map_of_mem here
  have fits' : cut ≤ order.length := h.perm.length_eq ▸ fits
  by_cases high : least ≤ rank x
  · left
    have noneBehind : (order.drop cut).countP (fun y => decide (rank x ≤ rank y)) = 0 := by
      refine List.countP_eq_zero.mpr ?_
      intro y here
      have := behind' y here
      simp
      omega
    rw [notBelow,← h.perm.countP_eq,← List.take_append_drop cut order,List.countP_append,noneBehind]
    exact Nat.le_trans List.countP_le_length (List.length_take_le ..)
  · right
    have all : (order.take cut).countP (fun y => decide (rank x < rank y)) = cut := by
      have whole : (order.take cut).countP (fun y => decide (rank x < rank y)) = (order.take cut).length := by
        refine List.countP_eq_length.mpr ?_
        intro y here
        have := before' y here
        simp
        omega
      rw [whole,List.length_take,Nat.min_eq_left fits']
    rw [above,← h.perm.countP_eq,← List.take_append_drop cut order,List.countP_append,all]
    exact Nat.le_add_right ..

theorem clearIff (h : Falling rank rows order) (positive : 0 < size) :
    OnOnePage rank rows size ↔ ∀ number, Clear (order.map rank) (number * size) := by
  constructor
  · intro one number
    rcases clearOr h (number * size) with clear | ⟨before,x,y,after,rfl,cut,same⟩
    · exact clear
    · have first := (placed h).1
      have further : Falling rank rows ((before ++ [x]) ++ y :: after) := by simpa using h
      have second := (placed further).2
      have alike : notBelow rank rows x = notBelow rank rows y := by
        simp only [notBelow,same]
      have inside : x ∈ rows := h.perm.mem_iff.mp (by simp)
      have low : above rank rows x / size < number := (Nat.div_lt_iff_lt_mul positive).mpr (by omega)
      have high : number ≤ (notBelow rank rows x - 1) / size := by
        refine (Nat.le_div_iff_mul_le positive).mpr ?_
        rw [List.length_append,List.length_singleton] at second
        omega
      have := one x inside
      omega
  · intro clear x inside
    by_contra apart
    have self : above rank rows x ≤ notBelow rank rows x - 1 := by
      obtain ⟨before,after,split⟩ := List.append_of_mem (h.perm.mem_iff.mpr inside)
      subst split
      have := placed h
      omega
    have less : above rank rows x / size < (notBelow rank rows x - 1) / size :=
      Nat.lt_of_le_of_ne (Nat.div_le_div_right self) apart
    have low : above rank rows x < (notBelow rank rows x - 1) / size * size := (Nat.div_lt_iff_lt_mul positive).mp less
    have high : (notBelow rank rows x - 1) / size * size ≤ notBelow rank rows x - 1 := Nat.div_mul_le_self ..
    have fits : notBelow rank rows x ≤ rows.length := List.countP_le_length
    have beside := clearBeside h (clear ((notBelow rank rows x - 1) / size)) (by omega) x
    omega

theorem Falling.swap {before after : List α} {x y : α} (h : Falling rank rows (before ++ x :: y :: after))
    (same : rank x = rank y) : Falling rank rows (before ++ y :: x :: after) := by
  refine ⟨((List.Perm.swap ..).append_left before).trans h.perm,?_⟩
  have ranks : (before ++ y :: x :: after).map rank = (before ++ x :: y :: after).map rank := by simp [same]
  have falls : ((before ++ x :: y :: after).map rank).Pairwise (fun r s => s ≤ r) := List.pairwise_map.mpr h.falls
  rw [← ranks] at falls
  exact List.pairwise_map.mp falls

theorem pagesRepeat {before after : List α} {x y : α} {number count : Nat}
    (falling : Falling rank rows (before ++ x :: y :: after)) (distinct : rows.Nodup) (positive : 0 < size)
    (enough : rows.length ≤ count * size) (cut : before.length + 1 = number * size) :
    ¬ (pages (fun i => if i < number then before ++ x :: y :: after else before ++ y :: x :: after) size count).Perm
      rows := by
  intro once
  have length := falling.perm.length_eq
  rw [List.length_append,List.length_cons,List.length_cons] at length
  have less : number < count := by
    refine Nat.lt_of_mul_lt_mul_right (a := size) ?_
    omega
  obtain ⟨more,rfl⟩ := Nat.exists_eq_add_of_lt less
  have nodup := once.nodup_iff.mpr distinct
  rw [Nat.add_assoc,pagesTwo,← cut] at nodup
  have first : x ∈ (before ++ x :: y :: after).take (before.length + 1) := by
    simp [List.take_append]
  have second : x ∈ ((before ++ y :: x :: after).drop (before.length + 1)).take ((more + 1) * size) := by
    have behind : (before ++ y :: x :: after).drop (before.length + 1) = x :: after := by
      rw [List.append_cons before y]
      exact List.drop_left' (by simp)
    obtain ⟨n,successor⟩ := Nat.exists_eq_succ_of_ne_zero (Nat.ne_of_gt (Nat.mul_pos (Nat.succ_pos more) positive))
    rw [behind,successor,List.take_succ_cons]
    exact List.mem_cons_self ..
  exact (List.nodup_append.mp nodup).2.2 x first x second rfl

theorem pagesOnce {count : Nat} (h : Falling rank rows order) (distinct : rows.Nodup) (positive : 0 < size)
    (enough : rows.length ≤ count * size) : (∀ orders : Nat → List α, (∀ number, Falling rank rows (orders number)) →
      (pages orders size count).Perm rows) ↔ OnOnePage rank rows size := by
  rw [clearIff h positive]
  constructor
  · intro once number
    rcases clearOr h (number * size) with clear | ⟨before,x,y,after,rfl,cut,same⟩
    · exact clear
    · refine absurd (once _ ?_) (pagesRepeat h distinct positive enough cut)
      intro i
      -- one order up to the cut, and behind it the order with the two rows exchanged
      by_cases early : i < number
      · simp only [if_pos early]
        exact h
      · simp only [if_neg early]
        exact h.swap same
  · intro clear orders falling
    have whole := pagesPerm falling h clear count
    rw [List.take_of_length_le (by rw [h.perm.length_eq]; exact enough)] at whole
    exact whole.trans h.perm

/-! Pages of rows that become more from one page to the next. -/

theorem Falling.position {x : α} (h : Falling rank rows order) (distinct : rows.Nodup) (inside : x ∈ rows)
    (alone : ∀ y ∈ rows, rank y = rank x → y = x) : order[above rank rows x]? = some x := by
  obtain ⟨before,after,split⟩ := List.append_of_mem (h.perm.mem_iff.mpr inside)
  have alone' : ∀ y ∈ order, rank y = rank x → y = x := fun y here => alone y (h.perm.mem_iff.mp here)
  have distinct' := h.perm.nodup_iff.mpr distinct
  subst split
  have all : before.countP (fun y => decide (rank x < rank y)) = before.length := by
    refine List.countP_eq_length.mpr ?_
    intro y here
    have falls := (List.pairwise_append.mp h.falls).2.2 y here x (List.mem_cons_self ..)
    have apart : y ≠ x := fun same =>
      (List.nodup_append.mp distinct').2.2 y here x (List.mem_cons_self ..) same
    refine decide_eq_true (Nat.lt_of_le_of_ne falls ?_)
    exact fun same => apart (alone' y (List.mem_append_left _ here) same.symm)
  have here : above rank rows x = before.length := by
    refine Nat.le_antisymm (placed h).1 ?_
    rw [above,← h.perm.countP_eq,List.countP_append,all]
    exact Nat.le_add_right ..
  rw [here,List.getElem?_append_right (Nat.le_refl _),Nat.sub_self]
  rfl

theorem pageOfPosition {number i : Nat} {x : α} (found : order[i]? = some x) (first : number * size ≤ i)
    (last : i < (number + 1) * size) : x ∈ page order size number := by
  refine List.mem_of_getElem? (i := i - number * size) ?_
  rw [Nat.succ_mul] at last
  rw [page,List.getElem?_take_of_lt (by omega),List.getElem?_drop,Nat.add_sub_cancel' first]
  exact found

theorem positionOfPage {number i : Nat} {x : α} (distinct : order.Nodup) (found : order[i]? = some x)
    (here : x ∈ page order size number) : number * size ≤ i ∧ i < (number + 1) * size := by
  obtain ⟨j,inside,same⟩ := List.getElem_of_mem here
  have found' : (page order size number)[j]? = some x := List.getElem?_eq_some_iff.mpr ⟨inside,same⟩
  have short : j < size := Nat.lt_of_lt_of_le inside (List.length_take_le ..)
  rw [page,List.getElem?_take_of_lt short,List.getElem?_drop] at found'
  have one : i = number * size + j :=
    (List.getElem?_inj (List.getElem?_eq_some_iff.mp found).1 distinct).mp (found.trans found'.symm)
  rw [Nat.succ_mul]
  omega

theorem shortPage {number : Nat} (short : (page order size number).length < size) :
    order.length < (number + 1) * size := by
  rw [page,List.length_take,List.length_drop] at short
  rw [Nat.succ_mul]
  omega

section
variable {rowsAt orders : Nat → List α} {x : α} {last : Nat}

theorem growsTo (more : ∀ i < last, (rowsAt i).Sublist (rowsAt (i + 1))) {i j : Nat} (earlier : i ≤ j)
    (within : j ≤ last) : (rowsAt i).Sublist (rowsAt j) := by
  induction earlier with
  | refl => exact List.Sublist.refl _
  | step earlier ih => exact (ih (by omega)).trans (more _ (by omega))

theorem growingPages (falling : ∀ i ≤ last, Falling rank (rowsAt i) (orders i))
    (more : ∀ i < last, (rowsAt i).Sublist (rowsAt (i + 1))) (distinct : (rowsAt last).Nodup)
    (alone : ∀ y ∈ rowsAt last, rank y = rank x → y = x) (start : x ∈ rowsAt 0)
    (short : (page (orders last) size last).length < size) : ∃ i ≤ last, x ∈ page (orders i) size i := by
  by_contra missed
  have position : ∀ i ≤ last, (orders i)[above rank (rowsAt i) x]? = some x := by
    intro i within
    have part := growsTo more within (Nat.le_refl _)
    exact (falling i within).position (distinct.sublist part)
      ((growsTo more (Nat.zero_le i) within).subset start) (fun y here => alone y (part.subset here))
  -- a page that misses the row ends before it, and the next one finds no fewer rows above it
  have reach : ∀ i ≤ last, i * size ≤ above rank (rowsAt i) x := by
    intro i
    induction i with
    | zero => intro _; omega
    | succ i ih =>
      intro within
      have before := ih (by omega)
      have behind : (i + 1) * size ≤ above rank (rowsAt i) x := by
        by_contra inside
        exact missed ⟨i,by omega,pageOfPosition (position i (by omega)) before (by omega)⟩
      exact Nat.le_trans behind (more i within).countP_le
  have inside := (List.getElem?_eq_some_iff.mp (position last (Nat.le_refl _))).1
  have ending := shortPage short
  exact missed ⟨last,Nat.le_refl _,pageOfPosition (position last (Nat.le_refl _)) (reach last (Nat.le_refl _)) (by omega)⟩

theorem newAbove {fewer more : List α} (distinct : more.Nodup)
    (less : above rank fewer x < above rank more x) : ∃ y ∈ more, rank x < rank y ∧ y ∉ fewer := by
  by_contra old
  have part : more.filter (fun y => decide (rank x < rank y)) ⊆ fewer.filter (fun y => decide (rank x < rank y)) := by
    intro y here
    obtain ⟨inside,higher⟩ := List.mem_filter.mp here
    refine List.mem_filter.mpr ⟨?_,higher⟩
    by_contra new
    exact old ⟨y,inside,of_decide_eq_true higher,new⟩
  have count := (List.subperm_of_subset (distinct.filter _) part).length_le
  rw [← List.countP_eq_length_filter,← List.countP_eq_length_filter] at count
  exact absurd less (Nat.not_lt.mpr count)

theorem repeatedPages (falling : ∀ i ≤ last, Falling rank (rowsAt i) (orders i))
    (more : ∀ i < last, (rowsAt i).Sublist (rowsAt (i + 1))) (distinct : (rowsAt last).Nodup)
    (alone : ∀ y ∈ rowsAt last, rank y = rank x → y = x) {i j : Nat} (earlier : i < j) (within : j ≤ last)
    (first : x ∈ page (orders i) size i) (again : x ∈ page (orders j) size j) :
    above rank (rowsAt i) x < above rank (rowsAt j) x := by
  have position : ∀ k ≤ last, x ∈ page (orders k) size k →
      k * size ≤ above rank (rowsAt k) x ∧ above rank (rowsAt k) x < (k + 1) * size := by
    intro k within here
    have part := growsTo more within (Nat.le_refl _)
    have inside := (falling k within).perm.mem_iff.mp (List.mem_of_mem_drop (List.mem_of_mem_take here))
    exact positionOfPage ((falling k within).perm.nodup_iff.mpr (distinct.sublist part))
      ((falling k within).position (distinct.sublist part) inside (fun y here => alone y (part.subset here))) here
  have before := (position i (by omega) first).2
  have after := (position j within again).1
  exact Nat.lt_of_lt_of_le before (Nat.le_trans (Nat.mul_le_mul_right size earlier) after)

end

end Paging
