import Mathlib.Data.List.Basic

/-! Programs over atomic calls, and any number of them interleaved call by call.
A program is the tree of its calls and of what it does with each reply, so the
remainder of a request in flight is again a program. The scheduler, the replies,
the arrival of jobs, their abandonment and the drift of the environment are all
nondeterministic; nothing here names an application. -/
namespace Interleaving

inductive Program (Op : Type) (Res : Op → Type) (α : Type) where
  | done (value : α)
  | call (op : Op) (next : Res op → Program Op Res α)

namespace Program
variable {Op : Type} {Res : Op → Type} {α β γ : Type}

def bind : Program Op Res α → (α → Program Op Res β) → Program Op Res β
  | .done a, f => f a
  | .call op next, f => .call op (fun r => (next r).bind f)

@[simp] theorem doneBind (a : α) (f : α → Program Op Res β) : (done a).bind f = f a := rfl

@[simp] theorem callBind (op : Op) (next : Res op → Program Op Res α) (f : α → Program Op Res β) :
    (call op next).bind f = .call op (fun r => (next r).bind f) := rfl

def alone {S : Type} (exec : S → (op : Op) → Option (Res op × S)) : Program Op Res α → S → Option (α × S)
  | .done a, s => some (a,s)
  | .call op next, s => (exec s op).bind (fun out => (next out.1).alone exec out.2)

theorem aloneBind {S : Type} (exec : S → (op : Op) → Option (Res op × S))
    (p : Program Op Res α) (f : α → Program Op Res β) (s : S) :
    (p.bind f).alone exec s = (p.alone exec s).bind (fun out => (f out.1).alone exec out.2) := by
  induction p generalizing s with
  | done a => rfl
  | call op next ih =>
    simp only [callBind,alone,Option.bind_assoc]
    congr 1
    funext out
    exact ih out.1 out.2

def finished : Program Op Res α → Option α
  | .done a => some a
  | .call _ _ => none

theorem finishedEq {p : Program Op Res α} {a} (h : p.finished = some a) : p = .done a := by
  cases p with
  | done b => rw [Option.some.inj h]
  | call op next => contradiction

def awaited : Program Op Res α → Option Op
  | .done _ => none
  | .call op _ => some op

theorem awaitedEq {p : Program Op Res α} {op} (h : p.awaited = some op) : ∃ next, p = .call op next := by
  cases p with
  | done a => contradiction
  | call op' next =>
    cases Option.some.inj h
    exact ⟨next,rfl⟩

end Program

def Task (Op : Type) (Val : Op → Type) (σ ε α : Type) :=
  σ → Program Op (fun op => Except ε (Val op)) (Except ε α × σ)

namespace Task
variable {Op : Type} {Val : Op → Type} {σ ε α β : Type}

def ret (a : α) : Task Op Val σ ε α := fun l => .done (.ok a,l)

def raise (e : ε) : Task Op Val σ ε α := fun l => .done (.error e,l)

def andThen (t : Task Op Val σ ε α) (f : α → Task Op Val σ ε β) : Task Op Val σ ε β := fun l =>
  (t l).bind (fun out => match out with
    | (.ok a,after) => f a after
    | (.error e,after) => .done (.error e,after))

def handle (t : Task Op Val σ ε α) (f : ε → Task Op Val σ ε α) : Task Op Val σ ε α := fun l =>
  (t l).bind (fun out => match out with
    | (.ok a,after) => .done (.ok a,after)
    | (.error e,after) => f e after)

/-- One atomic call, the only point at which other tasks may run. -/
def await (op : Op) : Task Op Val σ ε (Val op) := fun l => .call op (fun r => .done (r,l))

def read : Task Op Val σ ε σ := fun l => .done (.ok l,l)

def change (f : σ → σ) : Task Op Val σ ε Unit := fun l => .done (.ok (),f l)

instance : Monad (Task Op Val σ ε) where
  pure := ret
  bind := andThen

instance : MonadExcept ε (Task Op Val σ ε) where
  throw := raise
  tryCatch := handle

theorem bindAndThen (t : Task Op Val σ ε α) (f : α → Task Op Val σ ε β) : (t >>= f) = t.andThen f := rfl
theorem tryHandle (t : Task Op Val σ ε α) (f : ε → Task Op Val σ ε α) : tryCatch t f = t.handle f := rfl

end Task

section System

variable {Op : Type} {Res : Op → Type} {S Choice Job Env α : Type}

structure Machine (Op : Type) (Res : Op → Type) (S Choice Job Env α : Type) where
  exec : Nat → S → (op : Op) → Choice → Option (Res op × S)
  start : S → Job → S
  program : Job → Program Op Res α
  stop : Nat → S → S
  stopped : α
  drift : Env → S → Option S

inductive Event (Choice Job Env : Type) where
  | start (job : Job)
  | step (pid : Nat) (choice : Choice)
  | stop (pid : Nat)
  | drift (env : Env)

structure Config (Op : Type) (Res : Op → Type) (S α : Type) where
  shared : S
  running : List (Program Op Res α)

def Machine.next (m : Machine Op Res S Choice Job Env α) (c : Config Op Res S α) :
    Event Choice Job Env → Option (Config Op Res S α)
  | .start job => some ⟨m.start c.shared job,c.running ++ [m.program job]⟩
  | .step pid choice =>
      match c.running[pid]? with
      | some (.call op next) =>
          (m.exec pid c.shared op choice).map (fun out => ⟨out.2,c.running.set pid (next out.1)⟩)
      | _ => none
  | .stop pid =>
      match c.running[pid]? with
      | some (.call _ _) => some ⟨m.stop pid c.shared,c.running.set pid (.done m.stopped)⟩
      | _ => none
  | .drift env => (m.drift env c.shared).map (fun s => ⟨s,c.running⟩)

def Machine.run (m : Machine Op Res S Choice Job Env α) :
    List (Event Choice Job Env) → Config Op Res S α → Option (Config Op Res S α)
  | [], c => some c
  | e :: rest, c => (m.next c e).bind (m.run rest)

theorem runAppend {m : Machine Op Res S Choice Job Env α} {c : Config Op Res S α}
    (xs ys : List (Event Choice Job Env)) : m.run (xs ++ ys) c = (m.run xs c).bind (fun c' => m.run ys c') := by
  induction xs generalizing c with
  | nil => rfl
  | cons e rest ih =>
    have later : m.run (rest ++ ys) = fun c₁ => (m.run rest c₁).bind (fun c' => m.run ys c') := funext (fun _ => ih)
    simp only [List.cons_append,Machine.run,Option.bind_assoc,later]

inductive Reach (m : Machine Op Res S Choice Job Env α)
    (meets : Config Op Res S α → Event Choice Job Env → Prop) (first : Config Op Res S α) :
    Config Op Res S α → Prop where
  | refl : Reach m meets first first
  | next {c c' e} (before : Reach m meets first c) (ok : meets c e) (step : m.next c e = some c') :
      Reach m meets first c'

theorem Reach.weaken {m : Machine Op Res S Choice Job Env α} {meets meets' first c}
    (h : Reach m meets first c) (imp : ∀ c e, meets c e → meets' c e) : Reach m meets' first c := by
  induction h with
  | refl => exact .refl
  | next before ok step ih => exact .next ih (imp _ _ ok) step

theorem Reach.trans {m : Machine Op Res S Choice Job Env α} {meets first c c'}
    (h : Reach m meets first c) (later : Reach m meets c c') : Reach m meets first c' := by
  induction later with
  | refl => exact h
  | next before ok step ih => exact .next ih ok step

theorem Reach.head {m : Machine Op Res S Choice Job Env α} {meets first c c' e}
    (ok : meets first e) (step : m.next first e = some c) (later : Reach m meets c c') :
    Reach m meets first c' :=
  Reach.trans (.next .refl ok step) later

def Machine.passes (m : Machine Op Res S Choice Job Env α)
    (test : Config Op Res S α → Event Choice Job Env → Bool) :
    List (Event Choice Job Env) → Config Op Res S α → Bool
  | [], _ => true
  | e :: rest, c => test c e && (match m.next c e with
      | some c' => m.passes test rest c'
      | none => true)

theorem reachOfPasses {m : Machine Op Res S Choice Job Env α} {meets test events first c}
    (sure : ∀ c e, test c e = true → meets c e) (pass : m.passes test events first = true)
    (h : m.run events first = some c) : Reach m meets first c := by
  induction events generalizing first with
  | nil => cases Option.some.inj h; exact .refl
  | cons e rest ih =>
    obtain ⟨c',step,later⟩ := Option.bind_eq_some_iff.mp h
    simp only [Machine.passes,step,Bool.and_eq_true] at pass
    exact Reach.head (sure _ _ pass.1) step (ih pass.2 later)

theorem reachOfRun {m : Machine Op Res S Choice Job Env α} {events first c}
    (h : m.run events first = some c) : Reach m (fun _ _ => True) first c := by
  induction events generalizing first with
  | nil => cases Option.some.inj h; exact .refl
  | cons e rest ih =>
    obtain ⟨c',step,later⟩ := Option.bind_eq_some_iff.mp h
    exact Reach.head trivial step (ih later)

/-- What a proof about one job may rely on and has to establish: the invariant of
the shared state, what the steps of all others may change, which steps of the job
itself are considered, what must hold when it makes a call and when it ends. -/
structure Outline (Op S Choice : Type) where
  Inv : S → Prop
  Rely : Nat → S → S → Prop
  Allowed : Nat → S → Op → Choice → Prop
  Pre : Nat → S → Op → Prop

def Safe (m : Machine Op Res S Choice Job Env α) (o : Outline Op S Choice) (pid : Nat) {β : Type}
    (post : β → S → Prop) : Program Op Res β → S → Prop
  | .done b, s => post b s
  | .call op next, s => ∀ s₁, o.Rely pid s s₁ → o.Inv s₁ → o.Pre pid s₁ op ∧
      ∀ choice r s₂, o.Allowed pid s₁ op choice → m.exec pid s₁ op choice = some (r,s₂) →
        o.Inv s₂ → Safe m o pid post (next r) s₂

/-- The obligations under which safe programs stay safe in every interleaving. -/
structure Sound (m : Machine Op Res S Choice Job Env α) (o : Outline Op S Choice)
    (meets : Config Op Res S α → Event Choice Job Env → Prop) (count : S → Nat)
    (post : Nat → α → S → Prop) : Prop where
  relyRefl : ∀ pid s, o.Rely pid s s
  relyTrans : ∀ pid a b c, o.Rely pid a b → o.Rely pid b c → o.Rely pid a c
  stable : ∀ pid a s s', o.Inv s → o.Rely pid s s' → o.Inv s' → post pid a s → post pid a s'
  allowed : ∀ c pid op next choice, c.running[pid]? = some (.call op next) →
    meets c (.step pid choice) → o.Allowed pid c.shared op choice
  exec : ∀ pid s op choice r s', o.Inv s → o.Pre pid s op → o.Allowed pid s op choice →
    m.exec pid s op choice = some (r,s') →
    o.Inv s' ∧ count s' = count s ∧ ∀ other, other ≠ pid → o.Rely other s s'
  start : ∀ c job, o.Inv c.shared → meets c (.start job) →
    o.Inv (m.start c.shared job) ∧ count (m.start c.shared job) = count c.shared + 1 ∧
    (∀ pid, pid < count c.shared → o.Rely pid c.shared (m.start c.shared job)) ∧
    Safe m o (count c.shared) (post (count c.shared)) (m.program job) (m.start c.shared job)
  stop : ∀ c pid, pid < count c.shared → o.Inv c.shared → meets c (.stop pid) →
    o.Inv (m.stop pid c.shared) ∧ count (m.stop pid c.shared) = count c.shared ∧
    (∀ other, other ≠ pid → o.Rely other c.shared (m.stop pid c.shared)) ∧
    Safe m o pid (post pid) (.done m.stopped) (m.stop pid c.shared)
  drift : ∀ c env s', o.Inv c.shared → meets c (.drift env) → m.drift env c.shared = some s' →
    o.Inv s' ∧ count s' = count c.shared ∧ ∀ pid, o.Rely pid c.shared s'

structure Held (m : Machine Op Res S Choice Job Env α) (o : Outline Op S Choice) (count : S → Nat)
    (post : Nat → α → S → Prop) (c : Config Op Res S α) : Prop where
  inv : o.Inv c.shared
  counted : c.running.length = count c.shared
  safe : ∀ pid p, c.running[pid]? = some p → Safe m o pid (post pid) p c.shared

section Rule
variable {m : Machine Op Res S Choice Job Env α} {o : Outline Op S Choice}
  {meets : Config Op Res S α → Event Choice Job Env → Prop} {count : S → Nat}
  {post : Nat → α → S → Prop}

theorem safeLater {β : Type} {pid} {goal : β → S → Prop} {p : Program Op Res β} {s s'}
    (trans : ∀ pid a b c, o.Rely pid a b → o.Rely pid b c → o.Rely pid a c)
    (stable : ∀ b, goal b s → goal b s')
    (safe : Safe m o pid goal p s) (rely : o.Rely pid s s') : Safe m o pid goal p s' := by
  cases p with
  | done b => exact stable b safe
  | call op next => exact fun s₁ hr hi => safe s₁ (trans _ _ _ _ rely hr) hi

theorem safeMono {β : Type} {pid} {goal goal' : β → S → Prop} {p : Program Op Res β} {s}
    (safe : Safe m o pid goal p s) (inv : o.Inv s)
    (imp : ∀ b s', o.Inv s' → goal b s' → goal' b s') : Safe m o pid goal' p s := by
  induction p generalizing s with
  | done b => exact imp b s inv safe
  | call op next ih =>
    intro s₁ hr hi
    obtain ⟨pre,later⟩ := safe s₁ hr hi
    exact ⟨pre,fun choice r s₂ ha he hi₂ => ih r (later choice r s₂ ha he hi₂) hi₂⟩

theorem safeBind {β γ : Type} {pid} {middle : β → S → Prop} {goal : γ → S → Prop}
    {p : Program Op Res β} {f : β → Program Op Res γ} {s}
    (safe : Safe m o pid middle p s) (inv : o.Inv s)
    (rest : ∀ b s', o.Inv s' → middle b s' → Safe m o pid goal (f b) s') :
    Safe m o pid goal (p.bind f) s := by
  induction p generalizing s with
  | done b => exact rest b s inv safe
  | call op next ih =>
    intro s₁ hr hi
    obtain ⟨pre,later⟩ := safe s₁ hr hi
    exact ⟨pre,fun choice r s₂ ha he hi₂ => ih r (later choice r s₂ ha he hi₂) hi₂⟩

theorem safeBoth {β : Type} {pid} {goal goal' : β → S → Prop} {p : Program Op Res β} {s}
    (safe : Safe m o pid goal p s) (safe' : Safe m o pid goal' p s) :
    Safe m o pid (fun b s' => goal b s' ∧ goal' b s') p s := by
  induction p generalizing s with
  | done b => exact ⟨safe,safe'⟩
  | call op next ih =>
    intro s₁ hr hi
    obtain ⟨pre,later⟩ := safe s₁ hr hi
    obtain ⟨_,later'⟩ := safe' s₁ hr hi
    exact ⟨pre,fun choice r s₂ ha he hi₂ => ih r (later choice r s₂ ha he hi₂) (later' choice r s₂ ha he hi₂)⟩

theorem safeFrame {β : Type} {pid} {goal : β → S → Prop} {fact : S → Prop} {p : Program Op Res β} {s}
    (relied : ∀ a b, o.Rely pid a b → fact a → fact b)
    (kept : ∀ a op choice r b, m.exec pid a op choice = some (r,b) → fact a → fact b)
    (safe : Safe m o pid goal p s) (here : fact s) :
    Safe m o pid (fun b s' => goal b s' ∧ fact s') p s := by
  induction p generalizing s with
  | done b => exact ⟨safe,here⟩
  | call op next ih =>
    intro s₁ hr hi
    obtain ⟨pre,later⟩ := safe s₁ hr hi
    refine ⟨pre,fun choice r s₂ ha he hi₂ => ih r (later choice r s₂ ha he hi₂) ?_⟩
    exact kept _ op choice r s₂ he (relied _ _ hr here)

theorem heldSet {c : Config Op Res S α} {pid p s'} (held : Held m o count post c)
    (trans : ∀ pid a b c, o.Rely pid a b → o.Rely pid b c → o.Rely pid a c)
    (stable : ∀ pid a s s', o.Inv s → o.Rely pid s s' → o.Inv s' → post pid a s → post pid a s')
    (inv : o.Inv s') (counted : count s' = count c.shared)
    (rely : ∀ other, other ≠ pid → o.Rely other c.shared s')
    (safe : Safe m o pid (post pid) p s') : Held m o count post ⟨s',c.running.set pid p⟩ := by
  refine ⟨inv,by simpa [counted] using held.counted,?_⟩
  intro j q hq
  rw [List.getElem?_set] at hq
  by_cases same : pid = j
  · subst same
    rw [if_pos rfl] at hq
    split at hq
    · cases hq; exact safe
    · contradiction
  · rw [if_neg same] at hq
    have later := rely j (Ne.symm same)
    exact safeLater trans (fun a h => stable j a _ _ held.inv later inv h) (held.safe j q hq) later

theorem heldNext (sound : Sound m o meets count post) {c c' : Config Op Res S α} {e}
    (held : Held m o count post c) (ok : meets c e) (step : m.next c e = some c') :
    Held m o count post c' := by
  cases e with
  | start job =>
    obtain ⟨inv,counted,rely,safe⟩ := sound.start c job held.inv ok
    cases Option.some.inj step
    refine ⟨inv,by simp [held.counted,counted],?_⟩
    intro pid p hp
    rw [List.getElem?_append] at hp
    split at hp
    · rename_i inside
      have later := rely pid (held.counted ▸ inside)
      exact safeLater sound.relyTrans (fun a h => sound.stable pid a _ _ held.inv later inv h)
        (held.safe pid p hp) later
    · rename_i outside
      rw [List.getElem?_singleton] at hp
      split at hp <;> cases hp
      have last : pid = count c.shared := by have := held.counted; omega
      exact last ▸ safe
  | step pid choice =>
    simp only [Machine.next] at step
    split at step <;> try contradiction
    rename_i op next here
    obtain ⟨⟨r,s'⟩,ran,rfl⟩ := Option.map_eq_some_iff.mp step
    have allowed := sound.allowed c pid op next choice here ok
    obtain ⟨pre,later⟩ := held.safe pid _ here c.shared (sound.relyRefl _ _) held.inv
    obtain ⟨inv,counted,rely⟩ := sound.exec pid c.shared op choice r s' held.inv pre allowed ran
    exact heldSet held sound.relyTrans sound.stable inv counted rely (later choice r s' allowed ran inv)
  | stop pid =>
    simp only [Machine.next] at step
    split at step <;> try contradiction
    rename_i here
    cases Option.some.inj step
    have started := held.counted ▸ (List.getElem?_eq_some_iff.mp here).1
    obtain ⟨inv,counted,rely,safe⟩ := sound.stop c pid started held.inv ok
    exact heldSet held sound.relyTrans sound.stable inv counted rely safe
  | drift env =>
    obtain ⟨s',moved,rfl⟩ := Option.map_eq_some_iff.mp step
    obtain ⟨inv,counted,rely⟩ := sound.drift c env s' held.inv ok moved
    exact ⟨inv,by rw [held.counted,counted],
      fun pid p hp => safeLater sound.relyTrans (fun a h => sound.stable pid a _ _ held.inv (rely pid) inv h)
        (held.safe pid p hp) (rely pid)⟩

theorem heldReach (sound : Sound m o meets count post) {first c : Config Op Res S α}
    (held : Held m o count post first) (h : Reach m meets first c) : Held m o count post c := by
  induction h with
  | refl => exact held
  | next before ok step ih => exact heldNext sound ih ok step

theorem Held.nextCall (sound : Sound m o meets count post) {c : Config Op Res S α} {pid op next}
    (held : Held m o count post c) (here : c.running[pid]? = some (.call op next)) :
    o.Pre pid c.shared op :=
  (held.safe pid _ here c.shared (sound.relyRefl _ _) held.inv).1

theorem Held.ended {c : Config Op Res S α} {pid a}
    (held : Held m o count post c) (here : c.running[pid]? = some (.done a)) : post pid a c.shared :=
  held.safe pid _ here

end Rule
end System

/-! The rules for tasks: what is known when a task ends, by a value or by an
exception, from what is known when it begins. -/
namespace Task
variable {Op : Type} {Val : Op → Type} {σ ε α β S Choice Job Env ω : Type}
  {m : Machine Op (fun op => Except ε (Val op)) S Choice Job Env ω} {o : Outline Op S Choice}
  {pid : Nat} {t : Task Op Val σ ε α} {l : σ} {s : S}

abbrev Ends (m : Machine Op (fun op => Except ε (Val op)) S Choice Job Env ω) (o : Outline Op S Choice)
    (pid : Nat) (t : Task Op Val σ ε α) (l : σ) (s : S) (goal : Except ε α → σ → S → Prop) : Prop :=
  Safe m o pid (fun out s' => goal out.1 out.2 s') (t l) s

theorem endsPure {goal : Except ε α → σ → S → Prop} {a : α} (h : goal (.ok a) l s) :
    Ends m o pid (pure a) l s goal := h

theorem endsThrow {goal : Except ε α → σ → S → Prop} {e : ε} (h : goal (.error e) l s) :
    Ends m o pid (throw e) l s goal := h

theorem endsMono {goal goal' : Except ε α → σ → S → Prop} (h : Ends m o pid t l s goal) (inv : o.Inv s)
    (imp : ∀ r l' s', o.Inv s' → goal r l' s' → goal' r l' s') : Ends m o pid t l s goal' :=
  safeMono h inv (fun out s' hi hg => imp out.1 out.2 s' hi hg)

theorem endsBind {f : α → Task Op Val σ ε β} {middle : Except ε α → σ → S → Prop}
    {goal : Except ε β → σ → S → Prop} (first : Ends m o pid t l s middle) (inv : o.Inv s)
    (rest : ∀ a l' s', o.Inv s' → middle (.ok a) l' s' → Ends m o pid (f a) l' s' goal)
    (failed : ∀ e l' s', o.Inv s' → middle (.error e) l' s' → goal (.error e) l' s') :
    Ends m o pid (t >>= f) l s goal := by
  apply safeBind first inv
  rintro ⟨r,l'⟩ s' hi hm
  cases r with
  | ok a => exact rest a l' s' hi hm
  | error e => exact failed e l' s' hi hm

theorem endsThen {f : α → Task Op Val σ ε β} {goal : Except ε β → σ → S → Prop} (inv : o.Inv s)
    (first : Ends m o pid t l s (fun r l' s' => match r with
      | .ok a => Ends m o pid (f a) l' s' goal
      | .error e => goal (.error e) l' s')) : Ends m o pid (t >>= f) l s goal :=
  endsBind first inv (fun _ _ _ _ h => h) (fun _ _ _ _ h => h)

theorem endsCatch {f : ε → Task Op Val σ ε α} {goal : Except ε α → σ → S → Prop} (inv : o.Inv s)
    (first : Ends m o pid t l s (fun r l' s' => match r with
      | .ok a => goal (.ok a) l' s'
      | .error e => Ends m o pid (f e) l' s' goal)) : Ends m o pid (tryCatch t f) l s goal := by
  apply safeBind first inv
  rintro ⟨r,l'⟩ s' hi hm
  cases r with
  | ok a => exact hm
  | error e => exact hm

theorem endsLocal {f : α → Task Op Val σ ε β} {a : α} {l' : σ} {goal : Except ε β → σ → S → Prop}
    (immediate : t l = .done (.ok a,l')) (rest : Ends m o pid (f a) l' s goal) :
    Ends m o pid (t >>= f) l s goal := by
  rw [bindAndThen]
  simp only [Ends,andThen,immediate,Program.doneBind]
  exact rest

theorem endsRaised {f : α → Task Op Val σ ε β} {e : ε} {l' : σ} {goal : Except ε β → σ → S → Prop}
    (immediate : t l = .done (.error e,l')) (failed : goal (.error e) l' s) :
    Ends m o pid (t >>= f) l s goal := by
  rw [bindAndThen]
  simp only [Ends,andThen,immediate,Program.doneBind]
  exact failed

theorem endsAwait {op : Op} {goal : Except ε (Val op) → σ → S → Prop}
    (h : ∀ s₁, o.Rely pid s s₁ → o.Inv s₁ → o.Pre pid s₁ op ∧
      ∀ choice r s₂, o.Allowed pid s₁ op choice → m.exec pid s₁ op choice = some (r,s₂) →
        o.Inv s₂ → goal r l s₂) :
    Ends m o pid (await op) l s goal := h

/-! The rules for a task alone. -/

section Alone
variable {exec : S → (op : Op) → Option (Except ε (Val op) × S)} {l l' : σ} {s s' : S}

theorem aloneAwait {op : Op} {r : Except ε (Val op)} (h : exec s op = some (r,s')) :
    (await op l : Program Op (fun op => Except ε (Val op)) (Except ε (Val op) × σ)).alone exec s =
      some ((r,l),s') := by
  simp only [await,Program.alone,h,Option.bind_some]

theorem aloneThen {t : Task Op Val σ ε α} {f : α → Task Op Val σ ε β} {a : α}
    (h : (t l).alone exec s = some ((.ok a,l'),s')) : ((t >>= f) l).alone exec s = (f a l').alone exec s' := by
  rw [bindAndThen,andThen,Program.aloneBind,h,Option.bind_some]

theorem aloneRaised {t : Task Op Val σ ε α} {f : α → Task Op Val σ ε β} {e : ε}
    (h : (t l).alone exec s = some ((.error e,l'),s')) :
    ((t >>= f) l).alone exec s = some ((.error e,l'),s') := by
  rw [bindAndThen,andThen,Program.aloneBind,h,Option.bind_some,Program.alone]

theorem aloneCatch {t : Task Op Val σ ε α} {f : ε → Task Op Val σ ε α} {a : α}
    (h : (t l).alone exec s = some ((.ok a,l'),s')) :
    ((tryCatch t f : Task Op Val σ ε α) l).alone exec s = some ((.ok a,l'),s') := by
  rw [tryHandle,handle,Program.aloneBind,h,Option.bind_some,Program.alone]

theorem aloneHandled {t : Task Op Val σ ε α} {f : ε → Task Op Val σ ε α} {e : ε}
    (h : (t l).alone exec s = some ((.error e,l'),s')) :
    ((tryCatch t f : Task Op Val σ ε α) l).alone exec s = (f e l').alone exec s' := by
  rw [tryHandle,handle,Program.aloneBind,h,Option.bind_some]

end Alone

end Task
end Interleaving
