import Mathlib.Data.List.NodupEquivFin
import Mathlib.Data.List.Chain
import Mathlib.Order.Interval.Set.Basic

/-! Points in time, in order, and how many of them a span of time can hold. No span of
length `d` holds more than `m` points exactly if every point comes at least `d` after the
one `m` places before it; and in points that come in blocks of at most `m`, of which only
successive ones are close, it is enough to look at two successive blocks. -/
namespace Density

def Spaced (m d : Nat) (points : List Nat) : Prop :=
  ∀ i u v, points[i]? = some u → points[i + m]? = some v → u + d ≤ v

def within (start d : Nat) (points : List Nat) : Nat :=
  (points.filter (fun t => decide (start ≤ t ∧ t < start + d))).length

variable {m d : Nat} {points : List Nat} {blocks : List (List Nat)}

theorem sortedGet (sorted : points.Pairwise (· ≤ ·)) {i j u v : Nat} (order : i ≤ j) (hi : points[i]? = some u)
    (hj : points[j]? = some v) : u ≤ v := by
  rcases Nat.eq_or_lt_of_le order with rfl | less
  · exact Nat.le_of_eq (Option.some.inj (hi.symm.trans hj))
  · obtain ⟨inside,rfl⟩ := List.getElem?_eq_some_iff.mp hi
    obtain ⟨inside',rfl⟩ := List.getElem?_eq_some_iff.mp hj
    exact List.pairwise_iff_getElem.mp sorted i j inside inside' less

theorem spacedOfSparse (sorted : points.Pairwise (· ≤ ·)) (sparse : ∀ start, within start d points ≤ m) :
    Spaced m d points := by
  intro i u v first last
  by_contra close
  -- m + 1 points one after the other, all in the span that begins with the first of them
  have run : ∀ t ∈ (points.drop i).take (m + 1), decide (u ≤ t ∧ t < u + d) = true := by
    intro t here
    obtain ⟨k,placed⟩ := List.mem_iff_getElem?.mp here
    rw [List.getElem?_take] at placed
    split at placed <;> try contradiction
    rename_i short
    rw [List.getElem?_drop] at placed
    have above := sortedGet sorted (by omega) first placed
    have below := sortedGet sorted (show i + k ≤ i + m by omega) placed last
    exact decide_eq_true ⟨above,by omega⟩
  have kept : ((points.drop i).take (m + 1)).Sublist (points.filter (fun t => decide (u ≤ t ∧ t < u + d))) := by
    rw [← List.filter_eq_self.mpr run]
    exact ((List.take_sublist _ _).trans (List.drop_sublist _ _)).filter _
  have long : ((points.drop i).take (m + 1)).length = m + 1 := by
    have inside := (List.getElem?_eq_some_iff.mp last).1
    rw [List.length_take,List.length_drop]
    omega
  have few := sparse u
  have many := kept.length_le
  rw [within] at few
  omega

theorem sparseOfSpaced (sorted : points.Pairwise (· ≤ ·)) (spaced : Spaced m d points) (start : Nat) :
    within start d points ≤ m := by
  by_contra many
  rw [within,not_le] at many
  -- the points of the span have increasing places, so the last of them is m places on at least
  obtain ⟨place,places⟩ := List.sublist_iff_exists_orderEmbedding_getElem?_eq.mp
    (List.filter_sublist (p := fun t => decide (start ≤ t ∧ t < start + d)) (l := points))
  have first := List.getElem?_eq_getElem (l := points.filter (fun t => decide (start ≤ t ∧ t < start + d)))
    (i := 0) (by omega)
  have last := List.getElem?_eq_getElem many
  have lower := List.of_mem_filter (List.mem_of_getElem? first)
  have upper := List.of_mem_filter (List.mem_of_getElem? last)
  simp only [decide_eq_true_eq] at lower upper
  rw [places] at first last
  have apart : place 0 + m ≤ place m := by
    have mono : ∀ k, place 0 + k ≤ place k := by
      intro k
      induction k with
      | zero => exact Nat.le_refl _
      | succ k ih =>
        have more : place k < place (k + 1) := place.strictMono (Nat.lt_succ_self k)
        omega
    exact mono m
  have inside := (List.getElem?_eq_some_iff.mp last).1
  have middle := List.getElem?_eq_getElem (l := points) (i := place 0 + m) (by omega)
  have far := spaced _ _ _ first middle
  have order := sortedGet sorted apart middle last
  omega

theorem sparseIffSpaced (sorted : points.Pairwise (· ≤ ·)) :
    (∀ start, within start d points ≤ m) ↔ Spaced m d points :=
  ⟨spacedOfSparse sorted,sparseOfSpaced sorted⟩

def Far (d : Nat) (blocks : List (List Nat)) : Prop :=
  ∀ a b rest, (a :: b :: rest) <:+ blocks → ∀ u ∈ a, ∀ v ∈ rest.flatten, u + d ≤ v

theorem Spaced.part {inner : List Nat} (spaced : Spaced m d points) (inside : inner <:+: points) :
    Spaced m d inner := by
  obtain ⟨before,after,rfl⟩ := inside
  intro i u v first last
  have shift : ∀ k t, inner[k]? = some t → (before ++ inner ++ after)[before.length + k]? = some t := by
    intro k t here
    have short := (List.getElem?_eq_some_iff.mp here).1
    rw [List.append_assoc,List.getElem?_append_right (by omega),Nat.add_sub_cancel_left,
      List.getElem?_append_left short]
    exact here
  exact spaced (before.length + i) u v (shift i u first) (Nat.add_assoc .. ▸ shift (i + m) v last)

theorem Far.tail {a : List Nat} (far : Far d (a :: blocks)) : Far d blocks :=
  fun b c rest inside => far b c rest (inside.trans (List.suffix_cons ..))

theorem spacedBlocks (short : ∀ b ∈ blocks, b.length ≤ m) (far : Far d blocks) :
    Spaced m d blocks.flatten ↔ blocks.IsChain (fun a b => Spaced m d (a ++ b)) := by
  constructor
  · intro spaced
    induction blocks with
    | nil => exact .nil
    | cons a blocks ih =>
      have later := ih (fun b hb => short b (List.mem_cons_of_mem _ hb)) far.tail
        (spaced.part (List.suffix_append ..).isInfix)
      cases blocks with
      | nil => exact .singleton a
      | cons b rest =>
        refine .cons_cons (spaced.part ?_) later
        exact ⟨[],rest.flatten,by simp⟩
  · intro chain
    induction blocks with
    | nil =>
      intro i u v first
      contradiction
    | cons a blocks ih =>
      intro i u v first last
      have later := ih (fun b hb => short b (List.mem_cons_of_mem _ hb)) far.tail chain.tail
      rw [List.flatten_cons] at first last
      by_cases inside : i < a.length
      · have width := short a (List.mem_cons_self ..)
        rw [List.getElem?_append_left inside] at first
        cases blocks with
        | nil =>
          rw [List.flatten_nil,List.append_nil,List.getElem?_eq_none (by omega)] at last
          contradiction
        | cons b rest =>
          rw [List.flatten_cons,← List.append_assoc] at last
          -- no block is longer than m, so the later point is in this block, in the next, or far away
          by_cases near : i + m < (a ++ b).length
          · rw [List.getElem?_append_left near] at last
            have pair := (List.isChain_cons_cons.mp chain).1
            refine pair i u v ?_ last
            rw [List.getElem?_append_left inside]
            exact first
          · rw [List.getElem?_append_right (by omega)] at last
            exact far a b rest (List.suffix_refl _) u (List.mem_of_getElem? first) v (List.mem_of_getElem? last)
      · rw [List.getElem?_append_right (by omega)] at first last
        refine later (i - a.length) u v first ?_
        rw [← last]
        congr 1
        omega

theorem beginnings : ((blocks.map (List.take m)).flatten).Sublist blocks.flatten := by
  induction blocks with
  | nil => exact .slnil
  | cons a blocks ih => exact (List.take_sublist m a).append ih

theorem Far.beginnings (far : Far d blocks) : Far d (blocks.map (List.take m)) := by
  rintro a b rest ⟨before,same⟩ u hu v hv
  obtain ⟨front,back,rfl,_,cut⟩ := List.map_eq_append_iff.mp same.symm
  obtain ⟨a',more,rfl,rfl,next⟩ := List.map_eq_cons_iff.mp cut
  obtain ⟨b',rest',rfl,_,rfl⟩ := List.map_eq_cons_iff.mp next
  exact far a' b' rest' (List.suffix_append ..) u (List.mem_of_mem_take hu) v (Density.beginnings.subset hv)

end Density
