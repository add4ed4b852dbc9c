import PaymentSystem.Base.Trace

/-! How far a task had come when it ended in a certain way. A stage is a property of the
calls made so far, say that none of them stores anything; the results of some mark are
reached within the stage only, and once it may be left no such result is left either. -/
namespace Interleaving.Task
variable {Op : Type} {Val : Op → Type} {σ ε α β : Type} [DecidableEq Op]
  {possible : Exchange Op (fun op => Except ε (Val op)) → Prop} {fit after middle : σ → Prop}
  {stage : List (Exchange Op (fun op => Except ε (Val op))) → Prop}

abbrev Traced (possible : Exchange Op (fun op => Except ε (Val op)) → Prop) (t : Task Op Val σ ε α) (l : σ)
    (trace : List (Exchange Op (fun op => Except ε (Val op))))
    (goal : Except ε α → σ → List (Exchange Op (fun op => Except ε (Val op))) → Prop) : Prop :=
  Ends tracer (tracing possible (fun _ _ => True)) 0 t l trace goal

def Heeds (possible : Exchange Op (fun op => Except ε (Val op)) → Prop) (fit after : σ → Prop)
    (stage : List (Exchange Op (fun op => Except ε (Val op))) → Prop) (marks : Except ε α → Prop)
    (t : Task Op Val σ ε α) : Prop :=
  ∀ l trace, fit l → stage trace → Traced possible t l trace (fun r l' trace' =>
    after l' ∧ (marks r → stage trace'))

def Never (possible : Exchange Op (fun op => Except ε (Val op)) → Prop) (fit after : σ → Prop)
    (marks : Except ε α → Prop) (t : Task Op Val σ ε α) : Prop :=
  ∀ l trace, fit l → Traced possible t l trace (fun r l' _ => after l' ∧ ¬ marks r)

abbrev Stays (possible : Exchange Op (fun op => Except ε (Val op)) → Prop) (fit after : σ → Prop)
    (stage : List (Exchange Op (fun op => Except ε (Val op))) → Prop) (t : Task Op Val σ ε α) : Prop :=
  Heeds possible fit after stage (fun _ => True) t

def raised (marks : Except ε α → Prop) {β : Type} : Except ε β → Prop
  | .error e => marks (.error e)
  | .ok _ => False

def returned (marks : Except ε α → Prop) : Except ε α → Prop
  | .error _ => False
  | .ok a => marks (.ok a)

variable {marks marks' : Except ε α → Prop} {t : Task Op Val σ ε α}

theorem heedsOfNever (h : Never possible fit after marks t) : Heeds possible fit after stage marks t :=
  fun l trace here _ => endsMono (h l trace here) trivial (fun _ _ _ _ known =>
    ⟨known.1,fun marked => absurd marked known.2⟩)

theorem heedsWeaken (h : Heeds possible fit after stage marks t) (less : ∀ r, marks' r → marks r) :
    Heeds possible fit after stage marks' t :=
  fun l trace here staged => endsMono (h l trace here staged) trivial (fun r _ _ _ known =>
    ⟨known.1,fun marked => known.2 (less r marked)⟩)

theorem heedsPure (a : α) : Heeds possible fit fit stage marks (pure a : Task Op Val σ ε α) :=
  fun _ _ here staged => ⟨here,fun _ => staged⟩

theorem heedsThrow (e : ε) : Heeds possible fit fit stage marks (throw e : Task Op Val σ ε α) :=
  fun _ _ here staged => ⟨here,fun _ => staged⟩

theorem heedsRead {marks : Except ε σ → Prop} :
    Heeds possible fit fit stage marks (read : Task Op Val σ ε σ) :=
  fun _ _ here staged => ⟨here,fun _ => staged⟩

theorem heedsChange {marks : Except ε Unit → Prop} {f : σ → σ} (kept : ∀ l, fit l → after (f l)) :
    Heeds possible fit after stage marks (change f : Task Op Val σ ε Unit) :=
  fun l _ here staged => ⟨kept l here,fun _ => staged⟩

theorem staysAwait {op : Op} (within : ∀ trace r, stage trace → stage (trace ++ [⟨op,r⟩])) :
    Stays possible fit fit stage (await op : Task Op Val σ ε (Val op)) :=
  fun _ trace here staged => endsTraced trivial (fun r _ => ⟨here,fun _ => within trace r staged⟩)

theorem heedsThen {f : α → Task Op Val σ ε β} {marks : Except ε β → Prop}
    (first : Stays possible fit fit stage t) (rest : ∀ a, Heeds possible fit fit stage marks (f a)) :
    Heeds possible fit fit stage marks (t >>= f) := by
  intro l trace here staged
  apply endsThen trivial
  refine endsMono (first l trace here staged) trivial ?_
  rintro (e | a) l' trace' _ ⟨here',staged'⟩
  · exact ⟨here',fun _ => staged' trivial⟩
  · exact rest a l' trace' here' (staged' trivial)

theorem heedsLast {f : α → Task Op Val σ ε β} {marks : Except ε β → Prop}
    (first : Stays possible fit fit stage t) (rest : ∀ a, Heeds possible fit (fun _ => True) stage marks (f a)) :
    Heeds possible fit (fun _ => True) stage marks (t >>= f) := by
  intro l trace here staged
  apply endsThen trivial
  refine endsMono (first l trace here staged) trivial ?_
  rintro (e | a) l' trace' _ ⟨here',staged'⟩
  · exact ⟨trivial,fun _ => staged' trivial⟩
  · exact rest a l' trace' here' (staged' trivial)

theorem heedsAfterChange {g : σ → σ} {marks : Except ε α → Prop}
    (rest : Heeds possible (fun _ => True) (fun _ => True) stage marks t) :
    Heeds possible fit (fun _ => True) stage marks (change g >>= fun _ => t) :=
  fun l trace _ staged => rest (g l) trace trivial staged

theorem heedsLoose (h : Heeds possible fit after stage marks t) : Heeds possible fit (fun _ => True) stage marks t :=
  fun l trace here staged => endsMono (h l trace here staged) trivial (fun _ _ _ _ known => ⟨trivial,known.2⟩)

theorem heedsBind {f : α → Task Op Val σ ε β} {marks : Except ε α → Prop} {marks' : Except ε β → Prop}
    (first : Heeds possible fit fit stage marks t)
    (marked : ∀ a, marks (.ok a) → Heeds possible fit fit stage marks' (f a))
    (left : ∀ a, ¬ marks (.ok a) → Never possible fit fit marks' (f a))
    (errors : ∀ e, marks' (.error e) → marks (.error e)) : Heeds possible fit fit stage marks' (t >>= f) := by
  intro l trace here staged
  apply endsThen trivial
  refine endsMono (first l trace here staged) trivial ?_
  rintro (e | a) l' trace' _ ⟨here',staged'⟩
  · exact ⟨here',fun isMarked => staged' (errors e isMarked)⟩
  · by_cases isMarked : marks (.ok a)
    · exact marked a isMarked l' trace' here' (staged' isMarked)
    · exact endsMono (left a isMarked l' trace' here') trivial (fun _ _ _ _ known =>
        ⟨known.1,fun again => absurd again known.2⟩)

theorem heedsCatch {f : ε → Task Op Val σ ε α} {marks marks' : Except ε α → Prop}
    (first : Heeds possible fit fit stage marks t)
    (marked : ∀ e, marks (.error e) → Heeds possible fit fit stage marks' (f e))
    (left : ∀ e, ¬ marks (.error e) → Never possible fit fit marks' (f e))
    (values : ∀ a, marks' (.ok a) → marks (.ok a)) :
    Heeds possible fit fit stage marks' (tryCatch t f) := by
  intro l trace here staged
  apply endsCatch trivial
  refine endsMono (first l trace here staged) trivial ?_
  rintro (e | a) l' trace' _ ⟨here',staged'⟩
  · by_cases isMarked : marks (.error e)
    · exact marked e isMarked l' trace' here' (staged' isMarked)
    · exact endsMono (left e isMarked l' trace' here') trivial (fun _ _ _ _ known =>
        ⟨known.1,fun again => absurd again known.2⟩)
  · exact ⟨here',fun isMarked => staged' (values a isMarked)⟩

/-! What never ends in a marked result. -/

theorem neverWeaken {β : Type} {t : Task Op Val σ ε β} {marks marks' : Except ε β → Prop}
    (h : Never possible fit after marks t) (less : ∀ r, marks' r → marks r) : Never possible fit after marks' t :=
  fun l trace here => endsMono (h l trace here) trivial (fun r _ _ _ known =>
    ⟨known.1,fun marked => known.2 (less r marked)⟩)

theorem neverPure {a : α} (not : ¬ marks (.ok a)) : Never possible fit fit marks (pure a : Task Op Val σ ε α) :=
  fun _ _ here => ⟨here,not⟩

theorem neverThrow {e : ε} (not : ¬ marks (.error e)) : Never possible fit fit marks (throw e : Task Op Val σ ε α) :=
  fun _ _ here => ⟨here,not⟩

theorem neverRead {marks : Except ε σ → Prop} (not : ∀ l, ¬ marks (.ok l)) :
    Never possible fit fit marks (read : Task Op Val σ ε σ) :=
  fun l _ here => ⟨here,not l⟩

theorem neverChange {marks : Except ε Unit → Prop} {f : σ → σ} (kept : ∀ l, fit l → after (f l))
    (not : ¬ marks (.ok ())) : Never possible fit after marks (change f : Task Op Val σ ε Unit) :=
  fun l _ here => ⟨kept l here,not⟩

theorem neverAwait {op : Op} {marks : Except ε (Val op) → Prop} (not : ∀ r, possible ⟨op,r⟩ → ¬ marks r) :
    Never possible fit fit marks (await op : Task Op Val σ ε (Val op)) :=
  fun _ _ here => endsTraced trivial (fun r usual => ⟨here,not r usual⟩)

theorem neverThen {f : α → Task Op Val σ ε β} {marks : Except ε β → Prop}
    (first : Never possible fit fit (raised marks) t) (rest : ∀ a, Never possible fit fit marks (f a)) :
    Never possible fit fit marks (t >>= f) := by
  intro l trace here
  apply endsThen trivial
  refine endsMono (first l trace here) trivial ?_
  rintro (e | a) l' trace' _ ⟨here',not⟩
  · exact ⟨here',not⟩
  · exact rest a l' trace' here'

theorem neverCatch {f : ε → Task Op Val σ ε α} (first : Never possible fit fit (returned marks) t)
    (rest : ∀ e, Never possible fit fit marks (f e)) : Never possible fit fit marks (tryCatch t f) := by
  intro l trace here
  apply endsCatch trivial
  refine endsMono (first l trace here) trivial ?_
  rintro (e | a) l' trace' _ ⟨here',not⟩
  · exact rest e l' trace' here'
  · exact ⟨here',not⟩

end Interleaving.Task
