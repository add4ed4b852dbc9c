import Mathlib.Data.List.Basic
import Mathlib.Logic.Function.Basic

/-! A store in which every operation uses one key only. What the operations under one
key are answered depends on these operations alone, in the order in which they come. -/
namespace Buckets

variable {Key Value Item Content Answer : Type} [DecidableEq Key]

def step (key : Item → Key) (content : Item → Content) (f : Content → Option Value → Answer × Option Value)
    (store : Key → Option Value) (a : Item) : Answer × (Key → Option Value) :=
  let out := f (content a) (store (key a))
  (out.1,Function.update store (key a) out.2)

def run (key : Item → Key) (content : Item → Content) (f : Content → Option Value → Answer × Option Value) :
    List Item → (Key → Option Value) → List (Item × Answer)
  | [], _ => []
  | a :: rest, store =>
      let out := step key content f store a
      (a,out.1) :: run key content f rest out.2

def alone (f : Content → Option Value → Answer × Option Value) : List Content → Option Value → List Answer
  | [], _ => []
  | c :: rest, held => (f c held).1 :: alone f rest (f c held).2

variable {key : Item → Key} {content : Item → Content} {f : Content → Option Value → Answer × Option Value}
  {items : List Item} {store : Key → Option Value}

theorem mapAgain {α β γ δ : Type} {g : α → β} {g' : γ → β} {h : α → δ} {h' : γ → δ} {xs : List α} {ys : List γ}
    (same : xs.map g = ys.map g') (decides : ∀ x ∈ xs, ∀ y ∈ ys, g x = g' y → h x = h' y) :
    xs.map h = ys.map h' := by
  induction xs generalizing ys with
  | nil =>
    cases ys with
    | nil => rfl
    | cons y ys => cases same
  | cons x xs ih =>
    cases ys with
    | nil => cases same
    | cons y ys =>
      obtain ⟨here,later⟩ := List.cons_eq_cons.mp same
      have rest := ih later (fun a ha b hb => decides a (List.mem_cons_of_mem _ ha) b (List.mem_cons_of_mem _ hb))
      simp only [List.map_cons,rest,decides x (List.mem_cons_self ..) y (List.mem_cons_self ..) here]

theorem stepSelf {a : Item} : (step key content f store a).2 (key a) = (f (content a) (store (key a))).2 :=
  Function.update_self ..

theorem stepOther {a : Item} {k : Key} (other : k ≠ key a) : (step key content f store a).2 k = store k :=
  Function.update_of_ne other ..

theorem runItems : (run key content f items store).map Prod.fst = items := by
  induction items generalizing store with
  | nil => rfl
  | cons a rest ih => simp only [run,List.map_cons,ih]

theorem runPairs : (run key content f items store).map Prod.snd =
    (run Prod.fst Prod.snd f (items.map (fun a => (key a,content a))) store).map Prod.snd := by
  induction items generalizing store with
  | nil => rfl
  | cons a rest ih =>
    simp only [run,List.map_cons,ih]
    rfl

theorem runWithin {p : Key → Bool} {store' : Key → Option Value} (same : ∀ k, p k = true → store k = store' k) :
    (run key content f items store).filter (fun x => p (key x.1)) =
      run key content f (items.filter (fun a => p (key a))) store' := by
  induction items generalizing store store' with
  | nil => rfl
  | cons a rest ih =>
    cases here : p (key a) with
    | true =>
      have answer : (step key content f store a).1 = (step key content f store' a).1 := by
        simp only [step,same _ here]
      have still : ∀ k, p k = true → (step key content f store a).2 k = (step key content f store' a).2 k := by
        intro k inside
        by_cases own : k = key a
        · subst own
          rw [stepSelf,stepSelf,same _ here]
        · rw [stepOther own,stepOther own,same _ inside]
      simp only [run,List.filter_cons,here,if_true,ih still,answer]
    | false =>
      have still : ∀ k, p k = true → (step key content f store a).2 k = store' k := by
        intro k inside
        have other : k ≠ key a := by
          rintro rfl
          exact absurd inside (by simp only [here,Bool.false_eq_true,not_false_iff])
        rw [stepOther other,same _ inside]
      simp only [run,List.filter_cons,here,Bool.false_eq_true,if_false,ih still]

theorem runSame {k : Key} (same : ∀ a ∈ items, key a = k) :
    run key content f items store = items.zip (alone f (items.map content) (store k)) := by
  induction items generalizing store with
  | nil => rfl
  | cons a rest ih =>
    have here := same a (List.mem_cons_self ..)
    rw [run,ih (fun b hb => same b (List.mem_cons_of_mem _ hb)),← here,stepSelf]
    rfl

end Buckets
