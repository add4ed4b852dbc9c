import PaymentSystem.Base.Program

/-! One program for itself: the calls it makes and the replies it gets, in order. What
holds of all traces of the program holds of the trace it has made in any interleaving,
since the others can only choose among the replies. -/
namespace Interleaving

structure Exchange (Op : Type) (Res : Op → Type) where
  op : Op
  reply : Res op

variable {Op : Type} {Res : Op → Type} {α : Type}

inductive Leads (first : Program Op Res α) : List (Exchange Op Res) → Program Op Res α → Prop where
  | refl : Leads first [] first
  | next {trace op next reply} (before : Leads first trace (.call op next)) :
      Leads first (trace ++ [⟨op,reply⟩]) (next reply)

def tracer [DecidableEq Op] :
    Machine Op Res (List (Exchange Op Res)) (Exchange Op Res) Empty Empty Unit where
  exec := fun _ trace op x => if same : x.op = op then some (same ▸ x.reply,trace ++ [x]) else none
  start := fun trace _ => trace
  program := fun job => job.elim
  stop := fun _ trace => trace
  stopped := ()
  drift := fun _ trace => some trace

def tracing (possible : Exchange Op Res → Prop) (due : List (Exchange Op Res) → Op → Prop) :
    Outline Op (List (Exchange Op Res)) (Exchange Op Res) where
  Inv := fun _ => True
  Rely := fun _ before after => before = after
  Allowed := fun _ _ _ x => possible x
  Pre := fun _ trace op => due trace op

section
variable [DecidableEq Op] {possible : Exchange Op Res → Prop} {due : List (Exchange Op Res) → Op → Prop}
  {post : α → List (Exchange Op Res) → Prop} {p : Program Op Res α} {trace : List (Exchange Op Res)}

abbrev Traces (possible : Exchange Op Res → Prop) (due : List (Exchange Op Res) → Op → Prop)
    (post : α → List (Exchange Op Res) → Prop) (p : Program Op Res α) (trace : List (Exchange Op Res)) : Prop :=
  Safe tracer (tracing possible due) 0 post p trace

theorem tracesCall {op : Op} {next : Res op → Program Op Res α} (here : due trace op)
    (rest : ∀ r, possible ⟨op,r⟩ → Traces possible due post (next r) (trace ++ [⟨op,r⟩])) :
    Traces possible due post (.call op next) trace := by
  rintro trace rfl _
  refine ⟨here,?_⟩
  rintro ⟨op',r'⟩ r after chosen ran _
  simp only [tracer] at ran
  split at ran
  · rename_i same
    subst same
    cases Option.some.inj ran
    exact rest r' chosen
  · contradiction

theorem Traces.reply {op : Op} {next : Res op → Program Op Res α} {r : Res op}
    (h : Traces possible due post (.call op next) trace) (chosen : possible ⟨op,r⟩) :
    Traces possible due post (next r) (trace ++ [⟨op,r⟩]) := by
  refine (h trace rfl trivial).2 ⟨op,r⟩ r _ chosen ?_ trivial
  simp [tracer]

theorem tracesDue {op : Op} {next : Res op → Program Op Res α}
    (h : Traces possible due post (.call op next) trace) : due trace op := (h trace rfl trivial).1

theorem Traces.leads {q : Program Op Res α} (h : Traces possible due post p []) (leads : Leads p trace q)
    (all : ∀ x ∈ trace, possible x) : Traces possible due post q trace := by
  induction leads with
  | refl => exact h
  | next before ih =>
    exact (ih (fun x here => all x (List.mem_append_left _ here))).reply
      (all _ (List.mem_append_right _ (List.mem_singleton_self _)))

theorem leadsDue {q : Program Op Res α} (leads : Leads p trace q) (h : Traces possible due post p [])
    (all : ∀ x ∈ trace, possible x) {before after : List (Exchange Op Res)} {x : Exchange Op Res}
    (split : trace = before ++ x :: after) : due before x.op := by
  induction leads generalizing after with
  | refl => simp at split
  | @next trace op next reply leads ih =>
    have earlier : ∀ y ∈ trace, possible y := fun y here => all y (List.mem_append_left _ here)
    rcases List.eq_nil_or_concat after with rfl | ⟨middle,last,rfl⟩
    · obtain ⟨rfl,rfl⟩ := List.append_singleton_inj.mp split
      exact tracesDue (h.leads leads earlier)
    · rw [List.concat_eq_append,← List.cons_append,← List.append_assoc] at split
      exact ih earlier (List.append_singleton_inj.mp split).1

end

namespace Task
variable {Val : Op → Type} {σ ε : Type} [DecidableEq Op]
  {possible : Exchange Op (fun op => Except ε (Val op)) → Prop}
  {due : List (Exchange Op (fun op => Except ε (Val op))) → Op → Prop}
  {trace : List (Exchange Op (fun op => Except ε (Val op)))} {l : σ}

theorem endsTraced {op : Op} {goal : Except ε (Val op) → σ → List (Exchange Op (fun op => Except ε (Val op))) → Prop}
    (here : due trace op) (rest : ∀ r, possible ⟨op,r⟩ → goal r l (trace ++ [⟨op,r⟩])) :
    Ends tracer (tracing possible due) 0 (await op) l trace goal :=
  tracesCall here rest

end Task
end Interleaving
