import Mathlib.Data.List.Nodup
import Mathlib.Data.List.Range
import Mathlib.Tactic.Ring

/-! Linearization points. An object does its operations at once; a system whose log has
at most one point for each of its operations, the object's state changing at points only,
does what the object does when the operations are put in the order of their points. -/
namespace Linearization
variable {State Request Reply Id : Type}

structure Object (State Request Reply : Type) where
  first : State
  does : State → Request → Reply → State → Prop

inductive Object.Runs (o : Object State Request Reply) : List (Request × Reply) → State → Prop where
  | nil : o.Runs [] o.first
  | snoc {history s request reply s'} (before : o.Runs history s) (next : o.does s request reply s') :
      o.Runs (history ++ [(request,reply)]) s'

structure Operation (Id Request Reply : Type) where
  id : Id
  request : Request
  reply : Reply

structure Points (o : Object State Request Reply) (length : Nat) (states : Nat → State)
    (point : Nat → Option (Operation Id Request Reply)) : Prop where
  first : states 0 = o.first
  takes : ∀ i x, i < length → point i = some x → o.does (states i) x.request x.reply (states (i + 1))
  idle : ∀ i, i < length → point i = none → states (i + 1) = states i

def order (length : Nat) (point : Nat → Option (Operation Id Request Reply)) : List (Operation Id Request Reply) :=
  (List.range length).filterMap point

section
variable {o : Object State Request Reply} {length : Nat} {states : Nat → State}
  {point : Nat → Option (Operation Id Request Reply)}

theorem orderSucc : order (length + 1) point = order length point ++ (point length).toList := by
  rw [order,List.range_succ,List.filterMap_append,order]
  cases known : point length <;> simp [known]

theorem orderMem {x : Operation Id Request Reply} :
    x ∈ order length point ↔ ∃ i, i < length ∧ point i = some x := by
  simp [order]

theorem Points.runs (points : Points o length states point) :
    o.Runs ((order length point).map (fun x => (x.request,x.reply))) (states length) := by
  have upTo : ∀ n, n ≤ length → o.Runs ((order n point).map (fun x => (x.request,x.reply))) (states n) := by
    intro n
    induction n with
    | zero => exact fun _ => points.first ▸ .nil
    | succ n ih =>
      intro within
      have before := ih (by omega)
      rw [orderSucc]
      cases known : point n with
      | none =>
        rw [points.idle n within known,Option.toList_none,List.append_nil]
        exact before
      | some x =>
        rw [Option.toList_some,List.map_append,List.map_singleton]
        exact before.snoc (points.takes n x within known)
  exact upTo length (Nat.le_refl _)

theorem orderNodup (once : ∀ i j x y, point i = some x → point j = some y → x.id = y.id → i = j) :
    ((order length point).map Operation.id).Nodup := by
  induction length with
  | zero => exact List.nodup_nil
  | succ n ih =>
    rw [orderSucc,List.map_append]
    cases known : point n with
    | none => simpa using ih
    | some x =>
      rw [Option.toList_some,List.map_singleton,List.nodup_append]
      refine ⟨ih,List.nodup_singleton _,?_⟩
      rintro a ha b hb rfl
      obtain ⟨y,hy,same⟩ := List.mem_map.mp ha
      obtain ⟨i,before,stands⟩ := orderMem.mp hy
      have here := once i n y x stands known (same.trans (List.mem_singleton.mp hb))
      omega

theorem orderBefore {i j : Nat} {x y : Operation Id Request Reply} (before : i < j) (within : j < length)
    (first : point i = some x) (second : point j = some y) : [x,y].Sublist (order length point) := by
  induction length with
  | zero => omega
  | succ n ih =>
    rw [orderSucc]
    by_cases last : j = n
    · subst last
      rw [second,Option.toList_some]
      exact (List.singleton_sublist.mpr (orderMem.mpr ⟨i,before,first⟩)).append (List.Sublist.refl [y])
    · exact (ih (by omega)).trans (List.sublist_append_left _ _)

end

/-! Points in rounds: some that change nothing at places of their own, then at most one
that may change the state. -/

def place (width round offset : Nat) : Nat := round * (width + 1) + offset

section
variable {width round offset : Nat}

theorem placeRound (within : offset ≤ width) : place width round offset / (width + 1) = round := by
  rw [place,Nat.mul_comm,Nat.mul_add_div (Nat.succ_pos width),Nat.div_eq_of_lt (by omega),Nat.add_zero]

theorem placeAt (within : offset ≤ width) : place width round offset % (width + 1) = offset := by
  rw [place,Nat.mul_comm,Nat.mul_add_mod,Nat.mod_eq_of_lt (by omega)]

theorem placeBefore {round' at' : Nat} (within : offset ≤ width)
    (before : round < round' ∨ (round = round' ∧ offset < at')) : place width round offset < place width round' at' := by
  simp only [place]
  rcases before with earlier | ⟨rfl,earlier⟩
  · have rounds : (round + 1) * (width + 1) ≤ round' * (width + 1) := Nat.mul_le_mul_right _ earlier
    rw [Nat.add_mul] at rounds
    omega
  · omega

theorem placeWithin {rounds : Nat} (earlier : round < rounds) (within : offset ≤ width) :
    place width round offset < rounds * (width + 1) := by
  have fits : (round + 1) * (width + 1) ≤ rounds * (width + 1) := Nat.mul_le_mul_right _ earlier
  rw [Nat.add_mul] at fits
  simp only [place]
  omega

theorem roundWithin {rounds : Nat} (within : offset ≤ width) (inside : place width round offset < rounds * (width + 1)) :
    round < rounds := by
  have known := (Nat.div_lt_iff_lt_mul (Nat.succ_pos width)).mpr inside
  rwa [placeRound within] at known

theorem placeOf (width i : Nat) : i = place width (i / (width + 1)) (i % (width + 1)) := by
  rw [place,Nat.mul_comm]
  exact (Nat.div_add_mod i (width + 1)).symm

end

def inRounds (width : Nat) (reads : Nat → Nat → Option (Operation Id Request Reply))
    (changes : Nat → Option (Operation Id Request Reply)) (i : Nat) : Option (Operation Id Request Reply) :=
  if i % (width + 1) < width then reads (i / (width + 1)) (i % (width + 1)) else changes (i / (width + 1))

structure Rounds (o : Object State Request Reply) (rounds width : Nat) (states : Nat → State)
    (reads : Nat → Nat → Option (Operation Id Request Reply)) (changes : Nat → Option (Operation Id Request Reply)) :
    Prop where
  first : states 0 = o.first
  looks : ∀ n p x, n < rounds → reads n p = some x → o.does (states n) x.request x.reply (states n)
  takes : ∀ n x, n < rounds → changes n = some x → o.does (states n) x.request x.reply (states (n + 1))
  idle : ∀ n, n < rounds → changes n = none → states (n + 1) = states n

section
variable {o : Object State Request Reply} {rounds width n p : Nat} {states : Nat → State}
  {reads : Nat → Nat → Option (Operation Id Request Reply)} {changes : Nat → Option (Operation Id Request Reply)}

theorem inRoundsRead (within : p < width) : inRounds width reads changes (place width n p) = reads n p := by
  rw [inRounds,placeRound (by omega),placeAt (by omega),if_pos within]

theorem inRoundsChange : inRounds width reads changes (place width n width) = changes n := by
  rw [inRounds,placeRound (Nat.le_refl _),placeAt (Nat.le_refl _),if_neg (Nat.lt_irrefl _)]

theorem inRoundsCases {i : Nat} {x : Operation Id Request Reply} (here : inRounds width reads changes i = some x) :
    (∃ n p, p < width ∧ i = place width n p ∧ reads n p = some x) ∨
      ∃ n, i = place width n width ∧ changes n = some x := by
  have inRound : i % (width + 1) < width + 1 := Nat.mod_lt _ (Nat.succ_pos width)
  simp only [inRounds] at here
  split at here
  · rename_i within
    exact .inl ⟨_,_,within,placeOf width i,here⟩
  · have last : i % (width + 1) = width := by omega
    refine .inr ⟨i / (width + 1),?_,here⟩
    have split := placeOf width i
    rwa [last] at split

theorem Rounds.points (h : Rounds o rounds width states reads changes) :
    Points o (rounds * (width + 1)) (fun i => states (i / (width + 1))) (inRounds width reads changes) where
  first := by
    simp only [Nat.zero_div]
    exact h.first
  takes := by
    intro i x inside here
    rcases inRoundsCases here with ⟨n,p,within,rfl,read⟩ | ⟨n,rfl,change⟩
    · have round : n < rounds := roundWithin (Nat.le_of_lt within) inside
      have next : place width n p + 1 = place width n (p + 1) := rfl
      simp only [next,placeRound within,placeRound (Nat.le_of_lt within)]
      exact h.looks n p x round read
    · have round : n < rounds := roundWithin (Nat.le_refl width) inside
      have next : place width n width + 1 = place width (n + 1) 0 := by
        simp only [place]
        ring
      simp only [next,placeRound (Nat.zero_le width),placeRound (Nat.le_refl width)]
      exact h.takes n x round change
  idle := by
    intro i inside here
    have split := placeOf width i
    have round : i / (width + 1) < rounds := (Nat.div_lt_iff_lt_mul (Nat.succ_pos width)).mpr inside
    have inRound : i % (width + 1) < width + 1 := Nat.mod_lt _ (Nat.succ_pos width)
    by_cases last : i % (width + 1) = width
    · have silent : changes (i / (width + 1)) = none := by
        rwa [split,last,inRoundsChange] at here
      have next : i + 1 = place width (i / (width + 1) + 1) 0 := by
        rw [last] at split
        have more : place width (i / (width + 1)) width + 1 = place width (i / (width + 1) + 1) 0 := by
          simp only [place]
          ring
        omega
      simp only [next,placeRound (Nat.zero_le width)]
      exact h.idle _ round silent
    · have next : i + 1 = place width (i / (width + 1)) (i % (width + 1) + 1) := by
        simp only [place] at split ⊢
        omega
      simp only [next,placeRound (show i % (width + 1) + 1 ≤ width by omega)]

end
end Linearization
