import PaymentSystem.Guarantees.Contention
import PaymentSystem.System.Erasure

/-! Rejected payments. A payment request that ends in an exception of the payment rules
has called nothing that stores anything, so the run without it is a run too, and every
other request is answered in it as before. -/
namespace PaymentSystem
open Interleaving (eventsWithout lowered runAppend runWithout)

def State.without (pid : Nat) (c : State) : State := Interleaving.Config.without pid (World.without pid) c

section
variable {pid other : Nat}

theorem talkWithout (apart : other ≠ pid) {rec : Record} (foreign : rec.pid ≠ pid) :
    (rec.without pid).talk (lowered pid other) = rec.talk other := by
  cases rec with
  | called caller op fault r commits =>
    simp only [Record.without,Record.talk]
    by_cases same : caller = other
    · rw [if_pos same,if_pos (congrArg (lowered pid) same)]
    · rw [if_neg same,if_neg (fun h => same (Interleaving.loweredInjective foreign apart h))]
  | stopped caller commits => rfl

theorem talksWithout (apart : other ≠ pid) (w : World) : (w.without pid).talks (lowered pid other) = w.talks other := by
  simp only [World.talks,World.without]
  induction w.log with
  | nil => rfl
  | cons rec rest ih =>
    by_cases own : rec.pid = pid
    · have silent : rec.talk other = none := talkOther (fun same => apart (same.symm.trans own))
      rw [List.filter_cons_of_neg (by simp [own]),ih,List.filterMap_cons_none silent]
    · rw [List.filter_cons_of_pos (by simp [own]),List.map_cons,List.filterMap_cons,List.filterMap_cons,ih,
        talkWithout apart own]

end

section
variable [Pydantic] {c : State} {pid : Nat} {userId : UUID} {request : PaymentRequest} {redisClient : Bool} {e : Exn}

theorem rejectedQuiet (reachable : Reachable c)
    (called : c.shared.calls[pid]? = some (.sendMoney userId request redisClient))
    (ended : c.outcome pid = some (.error e)) (rejects : e.rejects = true) : World.Quiet pid c.shared := by
  rintro rec here own other op fault r commits rfl
  obtain ⟨q,leads,running⟩ := reachLeads reachable called
  rw [outcomeDone ended] at running
  rcases running with same | same
  · cases same
    have said : Said (.error e) (c.shared.talks pid) :=
      (saysSendMoney userId request redisClient).leads leads (talksUsual reachable)
    exact said.revocable e rfl rejects ⟨op,r⟩ (talksOfMem here (if_pos own))
  · cases same
    contradiction

omit [Pydantic] in
theorem emptyWithout : initial.without pid = initial := by
  rw [State.without,Interleaving.Config.without,initial,World.without,List.eraseIdx_nil]
  rfl

omit [Pydantic] in
theorem revocableKeeps {w w' : World} {op : Op} {choice : Choice} {r : Res op} (revocable : op.revocable = true)
    (ran : World.exec pid w op choice = some (r,w')) :
    w'.tables = w.tables ∧ w'.wal = w.wal ∧ w'.redis = w.redis := by
  obtain ⟨s',attempted,rfl⟩ := execCases ran
  rcases attemptRevocable revocable attempted with rfl | rfl | ⟨id,_,_,rfl | ⟨balance,version,rfl⟩⟩ <;>
    exact ⟨rfl,rfl,rfl⟩

end

structure NoTrace [Pydantic] (pid : Nat) (events : List Happening) (c : State) : Prop where
  stores : ∀ before choice after c₁ c₂, events = before ++ .step pid choice :: after →
    machine.run before initial = some c₁ → machine.next c₁ (.step pid choice) = some c₂ →
    c₂.shared.tables = c₁.shared.tables ∧ c₂.shared.wal = c₁.shared.wal ∧ c₂.shared.redis = c₁.shared.redis
  locks : ∀ r, c.shared.db.locks r ≠ some pid
  pending : c.shared.db.pending pid = []
  erased : machine.run (eventsWithout pid 0 events) initial = some (c.without pid)
  others : ∀ other, other ≠ pid →
    (c.without pid).shared.calls[lowered pid other]? = c.shared.calls[other]? ∧
    (c.without pid).shared.talks (lowered pid other) = c.shared.talks other ∧
    (c.without pid).outcome (lowered pid other) = c.outcome other

theorem rejectedLeavesNoTrace [Pydantic] {events : List Happening} {c : State} {pid : Nat} {userId : UUID}
    {request : PaymentRequest} {redisClient : Bool} {e : Exn} (ran : machine.run events initial = some c)
    (called : c.shared.calls[pid]? = some (.sendMoney userId request redisClient))
    (ended : c.outcome pid = some (.error e)) (rejects : e.rejects = true) : NoTrace pid events c := by
  have reachable : Reachable c := runReachable ran
  have quiet := rejectedQuiet reachable called ended rejects
  have report := reachableReport reachable ended
  have tallied : Interleaving.Tallied (fun w : World => w.calls.length)
      (fun w => Database.Faint pid w.db) initial := {
    inv := ⟨fun _ here => by contradiction,fun _ here => by contradiction⟩
    counted := rfl }
  obtain ⟨_,erased⟩ := runWithout erasable tallied ran quiet
  refine ⟨?_,report.locks,report.pending,?_,?_⟩
  · rintro before choice after c₁ c₂ rfl ran₁ step
    rw [runAppend,ran₁,Option.bind_some] at ran
    obtain ⟨c₂',step',later⟩ := Option.bind_eq_some_iff.mp ran
    cases Option.some.inj (step.symm.trans step')
    have quiet₂ := Interleaving.quietBefore erasable later quiet
    obtain ⟨op,next,r,s',_,attempted,rfl⟩ := nextStep step
    have revocable : op.revocable = true :=
      quiet₂ _ (List.mem_append_right _ (List.mem_singleton_self _)) rfl _ _ _ _ _ rfl
    have made : World.exec pid c₁.shared op choice = some (r,c₁.shared.called pid op choice.fault r s') := by
      rw [World.exec,attempted]
      rfl
    exact revocableKeeps revocable made
  · have first : Interleaving.Config.without pid (World.without pid) initial = (initial : State) := emptyWithout
    rw [first] at erased
    exact erased
  · intro other apart
    refine ⟨Interleaving.getLowered apart,talksWithout apart c.shared,?_⟩
    have same := Interleaving.getLowered (l := c.running) apart
    exact congrArg (fun p : Option (Interleaving.Program Op Res Outcome) => p.bind Interleaving.Program.finished) same

section
open JsonMode

def overdrawing : PaymentRequest := .to 202 (.ofCents 50000 (by decide)) "car" (by decide)

def overdrawn : Run opened.last where
  events := .start (.sendMoney 102 overdrawing false) :: (steps 3 3 400 ++
    (serve (topUpSecond fiveDollars) 4 5 500 ++ steps 3 4 410))
  possible := by decide +kernel

theorem rejectedLeavesNoTraceOverdrawn : NoTrace 3 (opened.events ++ overdrawn.events) overdrawn.last := by
  have called : overdrawn.last.shared.calls[3]? = some (.sendMoney 102 overdrawing false) := by decide +kernel
  have ended : overdrawn.last.outcome 3 = some (.error (.insufficientBalance "100.00" "500.00")) := by
    decide +kernel
  exact rejectedLeavesNoTrace (opened.together overdrawn) called ended (by decide)

end
end PaymentSystem
