import PaymentSystem.Base.Program

/-! One job left out of a run. If the shared state without the job is changed by the
steps of the others as it would be had the job never been, and by its own steps not at
all, the run without its events is a run too, in which every other job is where it was. -/
namespace Interleaving

variable {Op : Type} {Res : Op → Type} {S Choice Job Env α : Type}

def lowered (pid other : Nat) : Nat := if other < pid then other else other - 1

def raised (pid number : Nat) : Nat := if number < pid then number else number + 1

theorem raisedLowered {pid other : Nat} (apart : other ≠ pid) : raised pid (lowered pid other) = other := by
  unfold raised lowered
  split_ifs <;> omega

theorem loweredRaised {pid number : Nat} : lowered pid (raised pid number) = number := by
  unfold raised lowered
  split_ifs <;> omega

theorem raisedApart {pid number : Nat} : raised pid number ≠ pid := by
  simp only [raised]
  split <;> omega

theorem loweredInjective {pid a b : Nat} (ha : a ≠ pid) (hb : b ≠ pid) (same : lowered pid a = lowered pid b) :
    a = b := by
  rw [← raisedLowered ha,same,raisedLowered hb]

theorem getLowered {β : Type} {l : List β} {pid other : Nat} (apart : other ≠ pid) :
    (l.eraseIdx pid)[lowered pid other]? = l[other]? := by
  simp only [lowered]
  split
  · exact List.getElem?_eraseIdx_of_lt ‹_›
  · rw [List.getElem?_eraseIdx_of_ge (by omega)]
    congr 1
    omega

theorem setLowered {β : Type} {l : List β} {pid other : Nat} {b : β} (apart : other ≠ pid) :
    (l.set other b).eraseIdx pid = (l.eraseIdx pid).set (lowered pid other) b := by
  simp only [lowered]
  split
  · exact List.eraseIdx_set_gt ‹_›
  · exact List.eraseIdx_set_lt (by omega)

theorem eraseLast {β : Type} {l : List β} {pid : Nat} {b : β} (last : l.length = pid) :
    (l ++ [b]).eraseIdx pid = l.eraseIdx pid := by
  rw [← last,List.eraseIdx_append_of_length_le (Nat.le_refl _),Nat.sub_self,List.eraseIdx_zero,List.tail_cons,
    List.append_nil,List.eraseIdx_of_length_le (Nat.le_refl _)]

theorem eraseEarlier {β : Type} {l : List β} {pid : Nat} {b : β} (earlier : l.length ≠ pid) :
    (l ++ [b]).eraseIdx pid = l.eraseIdx pid ++ [b] := by
  rcases Nat.lt_or_gt_of_ne earlier with short | long
  · have whole : (l ++ [b]).length ≤ pid := by
      rw [List.length_append,List.length_singleton]
      omega
    rw [List.eraseIdx_of_length_le whole,List.eraseIdx_of_length_le (by omega)]
  · exact List.eraseIdx_append_of_lt_length long _

def Event.without (pid jobs : Nat) : Event Choice Job Env → Option (Event Choice Job Env)
  | .start job => if jobs = pid then none else some (.start job)
  | .step other choice => if other = pid then none else some (.step (lowered pid other) choice)
  | .stop other => if other = pid then none else some (.stop (lowered pid other))
  | .drift env => some (.drift env)

def Event.jobs (jobs : Nat) : Event Choice Job Env → Nat
  | .start _ => jobs + 1
  | _ => jobs

def eventsWithout (pid : Nat) : Nat → List (Event Choice Job Env) → List (Event Choice Job Env)
  | _, [] => []
  | jobs, e :: rest => (e.without pid jobs).toList ++ eventsWithout pid (e.jobs jobs) rest

def Config.without (pid : Nat) (erase : S → S) (c : Config Op Res S α) : Config Op Res S α :=
  ⟨erase c.shared,c.running.eraseIdx pid⟩

/-- What the job leaves out, and the obligations under which it can be left out. The
conditions on a step of its own may look at the state after it, as a history does. -/
structure Erasable (m : Machine Op Res S Choice Job Env α) (pid : Nat) (count : S → Nat) (erase : S → S)
    (Inv Quiet : S → Prop) : Prop where
  quiet : ∀ c e c', m.next c e = some c' → Quiet c'.shared → Quiet c.shared
  own : ∀ s op choice r s', Inv s → m.exec pid s op choice = some (r,s') → Quiet s' →
    Inv s' ∧ count s' = count s ∧ erase s' = erase s
  other : ∀ other s op choice r s', other ≠ pid → Inv s → m.exec other s op choice = some (r,s') →
    Inv s' ∧ count s' = count s ∧ m.exec (lowered pid other) (erase s) op choice = some (r,erase s')
  start : ∀ s job, Inv s → Inv (m.start s job) ∧ count (m.start s job) = count s + 1 ∧
    erase (m.start s job) = if count s = pid then erase s else m.start (erase s) job
  stopOwn : ∀ s, Inv s → Inv (m.stop pid s) ∧ count (m.stop pid s) = count s ∧ erase (m.stop pid s) = erase s
  stopOther : ∀ other s, other ≠ pid → Inv s → Inv (m.stop other s) ∧ count (m.stop other s) = count s ∧
    erase (m.stop other s) = m.stop (lowered pid other) (erase s)
  drift : ∀ env s s', Inv s → m.drift env s = some s' →
    Inv s' ∧ count s' = count s ∧ m.drift env (erase s) = some (erase s')

structure Tallied (count : S → Nat) (Inv : S → Prop) (c : Config Op Res S α) : Prop where
  inv : Inv c.shared
  counted : c.running.length = count c.shared

section
variable {m : Machine Op Res S Choice Job Env α} {pid : Nat} {count : S → Nat} {erase : S → S}
  {Inv Quiet : S → Prop} {c c' : Config Op Res S α}

theorem nextWithout (erasable : Erasable m pid count erase Inv Quiet) (tallied : Tallied count Inv c)
    {e : Event Choice Job Env} (h : m.next c e = some c') (quiet : Quiet c'.shared) :
    Tallied count Inv c' ∧ c'.running.length = e.jobs c.running.length ∧
      m.run (e.without pid c.running.length).toList (c.without pid erase) = some (c'.without pid erase) := by
  obtain ⟨inv,counted⟩ := tallied
  cases e with
  | start job =>
    cases Option.some.inj h
    obtain ⟨inv',count',erased⟩ := erasable.start c.shared job inv
    refine ⟨⟨inv',by simp [counted,count']⟩,by simp [Event.jobs],?_⟩
    by_cases last : count c.shared = pid
    · simp only [Config.without,erased,Event.without,counted,last,if_true,eraseLast (counted.trans last)]
      rfl
    · have earlier : c.running.length ≠ pid := fun same => last (counted.symm.trans same)
      simp only [Config.without,erased,Event.without,counted,if_neg last,eraseEarlier earlier]
      rfl
  | step other choice =>
    simp only [Machine.next] at h
    split at h <;> try contradiction
    rename_i op next here
    obtain ⟨⟨r,s'⟩,ran,rfl⟩ := Option.map_eq_some_iff.mp h
    by_cases same : other = pid
    · subst same
      obtain ⟨inv',count',erased⟩ := erasable.own _ _ _ _ _ inv ran quiet
      refine ⟨⟨inv',by simp [counted,count']⟩,by simp [Event.jobs],?_⟩
      simp only [Config.without,Event.without,if_true,erased,List.eraseIdx_set_eq]
      rfl
    · obtain ⟨inv',count',erased⟩ := erasable.other _ _ _ _ _ _ same inv ran
      refine ⟨⟨inv',by simp [counted,count']⟩,by simp [Event.jobs],?_⟩
      simp only [Config.without,Event.without,if_neg same,setLowered same]
      simp only [Option.toList_some,Machine.run,Machine.next,getLowered same,here,erased]
      rfl
  | stop other =>
    simp only [Machine.next] at h
    split at h <;> try contradiction
    rename_i op next here
    cases Option.some.inj h
    by_cases same : other = pid
    · subst same
      obtain ⟨inv',count',erased⟩ := erasable.stopOwn _ inv
      refine ⟨⟨inv',by simp [counted,count']⟩,by simp [Event.jobs],?_⟩
      simp only [Config.without,Event.without,if_true,erased,List.eraseIdx_set_eq]
      rfl
    · obtain ⟨inv',count',erased⟩ := erasable.stopOther _ _ same inv
      refine ⟨⟨inv',by simp [counted,count']⟩,by simp [Event.jobs],?_⟩
      simp only [Config.without,Event.without,if_neg same,setLowered same,erased]
      simp only [Option.toList_some,Machine.run,Machine.next,getLowered same,here]
      rfl
  | drift env =>
    obtain ⟨s',drifted,rfl⟩ := Option.map_eq_some_iff.mp h
    obtain ⟨inv',count',erased⟩ := erasable.drift _ _ _ inv drifted
    refine ⟨⟨inv',by simp [counted,count']⟩,by simp [Event.jobs],?_⟩
    simp only [Config.without,Event.without,Option.toList_some,Machine.run,Machine.next,erased]
    rfl

theorem quietBefore (erasable : Erasable m pid count erase Inv Quiet) {events : List (Event Choice Job Env)}
    (h : m.run events c = some c') (quiet : Quiet c'.shared) : Quiet c.shared := by
  induction events generalizing c with
  | nil =>
    cases Option.some.inj h
    exact quiet
  | cons e rest ih =>
    obtain ⟨c₁,step,later⟩ := Option.bind_eq_some_iff.mp h
    exact erasable.quiet _ _ _ step (ih later)

theorem runWithout (erasable : Erasable m pid count erase Inv Quiet) {events : List (Event Choice Job Env)}
    (tallied : Tallied count Inv c) (h : m.run events c = some c') (quiet : Quiet c'.shared) :
    Tallied count Inv c' ∧
      m.run (eventsWithout pid c.running.length events) (c.without pid erase) = some (c'.without pid erase) := by
  induction events generalizing c with
  | nil =>
    cases Option.some.inj h
    exact ⟨tallied,rfl⟩
  | cons e rest ih =>
    obtain ⟨c₁,step,later⟩ := Option.bind_eq_some_iff.mp h
    -- what is quiet at the end has been quiet at every step
    obtain ⟨tallied₁,jobs,first⟩ := nextWithout erasable tallied step (quietBefore erasable later quiet)
    obtain ⟨tallied',rest'⟩ := ih tallied₁ later
    refine ⟨tallied',?_⟩
    rw [eventsWithout,runAppend,first,← jobs]
    exact rest'

end
end Interleaving
