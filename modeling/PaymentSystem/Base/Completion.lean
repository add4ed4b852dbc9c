import PaymentSystem.Base.Trace

/-! Running all jobs to their ends. A scheduler that is never idle while a job is
unfinished finishes every job, whatever the replies, once each step uses up some of
what is left; what one program may use is a bound on the length of its traces. -/
namespace Interleaving
variable {Op : Type} {Res : Op → Type} {S Choice Job Env α : Type}

def Config.over (c : Config Op Res S α) : Prop :=
  ∀ (pid : Nat) (op : Op) (next : Res op → Program Op Res α), c.running[pid]? ≠ some (.call op next)

def Machine.drive (m : Machine Op Res S Choice Job Env α) (pick : Config Op Res S α → Nat × Choice) :
    Nat → Config Op Res S α → Config Op Res S α
  | 0, c => c
  | n + 1, c => match m.next c (.step (pick c).1 (pick c).2) with
    | some c' => m.drive pick n c'
    | none => c

section
variable {m : Machine Op Res S Choice Job Env α} {inv : Config Op Res S α → Prop}
  {left : Config Op Res S α → Nat} {pick : Config Op Res S α → Nat × Choice}

structure Spending (m : Machine Op Res S Choice Job Env α) (inv : Config Op Res S α → Prop)
    (left : Config Op Res S α → Nat) : Prop where
  kept : ∀ c pid choice c', inv c → m.next c (.step pid choice) = some c' → inv c'
  spends : ∀ c pid choice c', inv c → m.next c (.step pid choice) = some c' → left c' < left c

def Tireless (m : Machine Op Res S Choice Job Env α) (inv : Config Op Res S α → Prop)
    (pick : Config Op Res S α → Nat × Choice) : Prop :=
  ∀ c, inv c → ¬ c.over → ∃ c', m.next c (.step (pick c).1 (pick c).2) = some c'

theorem drivesOut (spending : Spending m inv left) (tireless : Tireless m inv pick) {n : Nat}
    {c : Config Op Res S α} (here : inv c) (enough : left c ≤ n) : (m.drive pick n c).over := by
  induction n generalizing c with
  | zero =>
    by_contra unfinished
    obtain ⟨c',step⟩ := tireless c here unfinished
    have less := spending.spends c _ _ c' here step
    omega
  | succ n ih =>
    by_cases allOver : c.over
    -- all are over, so the scheduler has nothing to run
    · have stuck : m.next c (.step (pick c).1 (pick c).2) = none := by
        simp only [Machine.next]
        split
        · rename_i op next running
          exact absurd running (allOver _ op next)
        · rfl
      simp only [Machine.drive,stuck]
      exact allOver
    · obtain ⟨c',step⟩ := tireless c here allOver
      simp only [Machine.drive,step]
      have less := spending.spends c _ _ c' here step
      exact ih (spending.kept c _ _ c' here step) (by omega)

end

/-! The calls of one program. -/

section
variable [DecidableEq Op] {possible : Exchange Op Res → Prop} {post : α → List (Exchange Op Res) → Prop}
  {p q : Program Op Res α} {trace : List (Exchange Op Res)} {bound : Nat}

abbrev Rationed (bound : Nat) (trace : List (Exchange Op Res)) (_ : Op) : Prop := trace.length < bound

theorem leadsWithin (leads : Leads p trace q) (rationed : Traces possible (Rationed bound) post p [])
    (all : ∀ x ∈ trace, possible x) : trace.length ≤ bound := by
  rcases List.eq_nil_or_concat trace with rfl | ⟨before,last,rfl⟩
  · exact Nat.zero_le _
  · rw [List.concat_eq_append] at *
    have room : before.length < bound := leadsDue leads rationed all rfl
    rw [List.length_append,List.length_singleton]
    exact room

end

namespace Task
variable [DecidableEq Op] {Val : Op → Type} {σ ε β : Type}

def Takes (fit : σ → Prop) (n : Nat) (t : Task Op Val σ ε α) : Prop :=
  ∀ bound l trace, fit l → trace.length + n ≤ bound →
    Ends tracer (tracing (fun _ => True) (Rationed bound)) 0 t l trace (fun _ l' trace' =>
      fit l' ∧ trace'.length ≤ trace.length + n)

variable {fit : σ → Prop} {a b n : Nat} {t : Task Op Val σ ε α}

theorem takesPure (x : α) : Takes fit 0 (pure x : Task Op Val σ ε α) := fun _ _ _ here _ => ⟨here,Nat.le_refl _⟩

theorem takesThrow (e : ε) : Takes fit 0 (throw e : Task Op Val σ ε α) := fun _ _ _ here _ => ⟨here,Nat.le_refl _⟩

theorem takesRead : Takes fit 0 (read : Task Op Val σ ε σ) := fun _ _ _ here _ => ⟨here,Nat.le_refl _⟩

theorem takesChange {f : σ → σ} (kept : ∀ l, fit l → fit (f l)) :
    Takes fit 0 (change f : Task Op Val σ ε Unit) :=
  fun _ l _ here _ => ⟨kept l here,Nat.le_refl _⟩

theorem takesAwait (op : Op) : Takes fit 1 (await op : Task Op Val σ ε (Val op)) := by
  intro bound l trace here room
  have due : Rationed bound trace op := show trace.length < bound by omega
  apply endsTraced due
  intro r _
  exact ⟨here,by simp⟩

theorem takesMore (h : Takes fit n t) (more : n ≤ b) : Takes fit b t := by
  intro bound l trace here room
  refine endsMono (h bound l trace here (by omega)) trivial ?_
  rintro r l' trace' _ ⟨fit',short⟩
  exact ⟨fit',by omega⟩

theorem takesThen {f : α → Task Op Val σ ε β} (first : Takes fit a t) (rest : ∀ x, Takes fit b (f x)) :
    Takes fit (a + b) (t >>= f) := by
  intro bound l trace here room
  apply endsThen trivial
  refine endsMono (first bound l trace here (by omega)) trivial ?_
  rintro (e | x) l' trace' _ ⟨fit',short⟩
  · exact ⟨fit',by omega⟩
  · refine endsMono (rest x bound l' trace' fit' (by omega)) trivial ?_
    rintro r l'' trace'' _ ⟨fit'',short'⟩
    exact ⟨fit'',by omega⟩

theorem takesCatch {f : ε → Task Op Val σ ε α} (first : Takes fit a t) (rest : ∀ e, Takes fit b (f e)) :
    Takes fit (a + b) (tryCatch t f) := by
  intro bound l trace here room
  apply endsCatch trivial
  refine endsMono (first bound l trace here (by omega)) trivial ?_
  rintro (e | x) l' trace' _ ⟨fit',short⟩
  · refine endsMono (rest e bound l' trace' fit' (by omega)) trivial ?_
    rintro r l'' trace'' _ ⟨fit'',short'⟩
    exact ⟨fit'',by omega⟩
  · exact ⟨fit',by omega⟩

def Lasts (fit : σ → Prop) (n : Nat) (t : Task Op Val σ ε α) : Prop :=
  ∀ bound l trace, fit l → trace.length + n ≤ bound →
    Ends tracer (tracing (fun _ => True) (Rationed bound)) 0 t l trace (fun _ _ trace' =>
      trace'.length ≤ trace.length + n)

theorem takesLasts (h : Takes fit n t) (more : n ≤ b) : Lasts fit b t :=
  fun bound l trace here room => endsMono (takesMore h more bound l trace here room) trivial (fun _ _ _ _ k => k.2)

theorem lastsThen {f : α → Task Op Val σ ε β} (first : Takes fit a t) (rest : ∀ x, Lasts fit b (f x)) :
    Lasts fit (a + b) (t >>= f) := by
  intro bound l trace here room
  apply endsThen trivial
  refine endsMono (first bound l trace here (by omega)) trivial ?_
  rintro (e | x) l' trace' _ ⟨fit',short⟩
  · omega
  · exact endsMono (rest x bound l' trace' fit' (by omega)) trivial (fun _ _ _ _ _ => by omega)

theorem lastsReturn {g : α → β} (h : Lasts fit n t) : Lasts fit n (do return g (← t)) := by
  intro bound l trace here room
  apply endsThen trivial
  refine endsMono (h bound l trace here room) trivial ?_
  rintro (e | x) l' trace' _ short
  · exact short
  · exact short

theorem lastsChange {g : σ → σ} {t : Task Op Val σ ε α} (rest : Lasts (fun _ => True) n t) :
    Lasts fit n (change g >>= fun _ => t) :=
  fun bound l trace _ room => rest bound (g l) trace trivial room

end Task
end Interleaving
