import PaymentSystem.Behaviour.Refusals
import PaymentSystem.Guarantees.Rejections
import PaymentSystem.Guarantees.RacingRegistrations

/-! What the status code of an answer tells. A client error means that no step of the
request has changed anything; success of a request that moves money or registers means
that its effect is committed. -/
namespace PaymentSystem
open Interleaving (Leads Traces runAppend)
open Interleaving.Task (Heeds Traced heedsThen heedsLast heedsPure heedsLoose heedsWeaken endsMono)

def Heeded (outcome : Outcome) (trace : List Talk) : Prop :=
  ∀ e, outcome = .error e → e.refuses = true → Untouched trace

section
variable [Pydantic]

omit [Pydantic] in
theorem refusalDecides {α : Type} (r : Except Exn α) (refuses : Refuses r) : EndsIn Exn.decides r := by
  cases r with
  | ok a => exact refuses
  | error e =>
    simp only [EndsIn] at refuses ⊢
    simp [Exn.decides,refuses]

omit [Pydantic] in
theorem heedsRespond {α : Type} {t : Py α} {f : α → Response}
    (careful : Heeds Credible (fun l : Session => l.dirty = []) (fun _ => True) Untouched Refuses t) :
    Heeds Credible (fun l : Session => l.dirty = []) (fun _ => True) Untouched Refuses (do return f (← t)) := by
  intro l trace clean untouched
  apply Interleaving.Task.endsThen trivial
  refine endsMono (careful l trace clean untouched) trivial ?_
  rintro (e | a) l' trace' _ known
  · exact known
  · exact ⟨trivial,fun refuses => refuses.elim⟩

theorem carefulService (call : Call) :
    Heeds Credible (fun l : Session => l.dirty = []) (fun _ => True) Untouched Refuses call.service := by
  cases call with
  | register data => exact heedsRespond (heedsLoose (heedsWeaken (carefulRegister data) refusalDecides))
  | topUp userId amount redisClient =>
    exact heedsRespond (heedsLoose (heedsWeaken (carefulTopUpAttempts _ _ _ _) refusalDecides))
  | sendMoney userId request redisClient => exact heedsRespond (heedsLoose (carefulSendMoney _ _ _))
  | getWallet userId redisClient => exact heedsRespond (heedsWeaken (carefulGetWallet _ _) refusalDecides)
  | getBalanceFast userId redisClient =>
    exact heedsRespond (heedsLoose (heedsWeaken (carefulGetBalanceFast _ _) refusalDecides))
  | getTransactionHistory userId page pageSize status =>
    exact heedsRespond (heedsLoose (carefulOf (mildHistory _ _ _ _)))
  | getTransaction userId transactionId => exact heedsRespond (heedsLoose (carefulOf (mildGetTransaction _ _)))

theorem heededProgram (call : Call) : Traces Credible (fun _ _ => True) Heeded call.program [] := by
  refine Interleaving.safeBind (carefulService call Session.new [] rfl (by simp [Untouched])) trivial ?_
  rintro ⟨r,l⟩ trace _ ⟨_,known⟩
  refine Interleaving.tracesCall trivial ?_
  rintro reply _ e rfl refuses x here
  rcases List.mem_append.mp here with here | here
  · exact known refuses x here
  · rw [List.mem_singleton.mp here]
    rfl

theorem talksCredible {c : State} {pid : Nat} (reachable : Reachable c) : ∀ x ∈ c.shared.talks pid, Credible x := by
  intro x here
  obtain ⟨rec,inside,_,talk⟩ := talksMem here
  refine (reachLog (P := fun rec => rec.talk pid = some x → Credible x) reachable ?_ rec inside).elim
    (fun old => by simp [initial,World.empty] at old) (fun known => known talk)
  rintro c e rec _ _ logged talk
  cases logged with
  | stop => contradiction
  | step _ ran =>
    simp only [Record.talk] at talk
    split at talk
    · cases talk
      exact attemptCredible ran
    · contradiction

theorem talksEnd {c : State} {pid : Nat} {call : Call} {outcome : Outcome} {post : Outcome → List Talk → Prop}
    (reachable : Reachable c) (called : c.shared.calls[pid]? = some call) (ended : c.outcome pid = some outcome)
    (program : Traces Credible (fun _ _ => True) post call.program []) :
    post outcome (c.shared.talks pid) ∨ outcome = .error .cancelled := by
  obtain ⟨q,leads,running⟩ := reachLeads reachable called
  rw [outcomeDone ended] at running
  rcases running with same | same
  · cases same
    exact .inl (program.leads leads (talksCredible reachable))
  · cases same
    exact .inr rfl

theorem refusedUntouched {c : State} {pid : Nat} {call : Call} {e : Exn} (reachable : Reachable c)
    (called : c.shared.calls[pid]? = some call) (ended : c.outcome pid = some (.error e))
    (refuses : e.refuses = true) : Untouched (c.shared.talks pid) := by
  rcases talksEnd reachable called ended (heededProgram call) with heeded | stopped
  · exact heeded e rfl refuses
  · cases stopped
    contradiction

omit [Pydantic] in
theorem untouchedKeeps {pid : Nat} {s s' : Stores} {op : Op} {choice : Choice} {r : Res op}
    (stores : op.stores = false) (ran : attempt pid s op choice = some (r,s')) :
    s'.db.tables = s.db.tables ∧ s'.db.wal = s.db.wal ∧ s'.redis = s.redis := by
  cases attemptEffect ran with
  | committed isCommit =>
    subst isCommit
    contradiction
  | cached isSetex =>
    subst isSetex
    contradiction
  | dropped isDelete =>
    subst isDelete
    contradiction
  | _ => exact ⟨rfl,rfl,rfl⟩

end

def ChangesNothing [Pydantic] (pid : Nat) (events : List Happening) : Prop :=
  ∀ before choice after c₁ c₂, events = before ++ .step pid choice :: after →
    machine.run before initial = some c₁ → machine.next c₁ (.step pid choice) = some c₂ →
    c₂.shared.tables = c₁.shared.tables ∧ c₂.shared.wal = c₁.shared.wal ∧ c₂.shared.redis = c₁.shared.redis

def Effected (pid : Nat) (w : World) : Call → Prop
  | .register _ => CommittedBy pid w
  | .topUp _ _ _ => CommittedBy pid w
  | .sendMoney _ request _ => ∃ x ∈ w.tables.transactions, x.idempotencyKey = request.idempotencyKey
  | _ => ∀ c ∈ w.wal, c.pid ≠ pid

structure Tells [Pydantic] (pid : Nat) (events : List Happening) (c : State) (call : Call) (response : HttpResponse) :
    Prop where
  refused : clientError response.statusCode = true → ChangesNothing pid events
  done : ∀ value, response.body = .value value → Effected pid c.shared call
  released : c.shared.db.pending pid = [] ∧ ∀ r, c.shared.db.locks r ≠ some pid

section
variable [Pydantic]

theorem refusedChangesNothing {events : List Happening} {c : State} {pid : Nat} {call : Call} {e : Exn}
    (ran : machine.run events initial = some c) (called : c.shared.calls[pid]? = some call)
    (ended : c.outcome pid = some (.error e)) (refuses : e.refuses = true) : ChangesNothing pid events := by
  have untouched := refusedUntouched (runReachable ran) called ended refuses
  rintro before choice after c₁ c₂ rfl ran₁ step
  rw [runAppend,ran₁,Option.bind_some] at ran
  obtain ⟨c₂',step',later⟩ := Option.bind_eq_some_iff.mp ran
  cases Option.some.inj (step.symm.trans step')
  obtain ⟨op,next,r,s',_,attempted,rfl⟩ := nextStep step
  have made : .called pid op choice.fault r c₁.shared.wal.length ∈ c.shared.log :=
    (reachGrows (Interleaving.reachOfRun later)).member calledLast
  exact untouchedKeeps (untouched ⟨op,r⟩ (talksOfMem made (if_pos rfl))) attempted

theorem readsUncommitted {c : State} {pid : Nat} {call : Call} (reachable : Reachable c)
    (called : c.shared.calls[pid]? = some call)
    (reads : ∀ writes t, ¬ Entry c.shared.calls t pid writes) : ∀ commit ∈ c.shared.wal, commit.pid ≠ pid := by
  rintro commit here rfl
  obtain ⟨_,_,_,entry⟩ := (reachableIntact reachable).legal.entry here
  exact reads _ _ entry

theorem effectedOk {c : State} {pid : Nat} {call : Call} {value : Response} (reachable : Reachable c)
    (called : c.shared.calls[pid]? = some call) (ended : c.outcome pid = some (.ok value)) :
    Effected pid c.shared call := by
  obtain ⟨call',concluded⟩ := (reachableReport reachable ended).concluded
  cases Option.some.inj (called.symm.trans concluded.called)
  have answered := concluded.answered
  cases call with
  | register data => exact reachableRegistered reachable called ended
  | topUp userId amount redisClient =>
    cases value with
    | wallet wallet => exact answered.1
    | _ => exact answered.elim
  | sendMoney userId request redisClient =>
    cases value with
    | payment t =>
      obtain ⟨x,here,key,_⟩ := answered
      exact ⟨x,here,key⟩
    | _ => exact answered.elim
  | _ =>
    refine readsUncommitted reachable called ?_
    intro writes t entry
    cases entry with
    | register call => cases Option.some.inj (called.symm.trans call)
    | topUp call => cases Option.some.inj (called.symm.trans call)
    | send call => cases Option.some.inj (called.symm.trans call)

omit [Pydantic] in
theorem answerRefuses {call : Call} {requestId : String} {outcome : Outcome} {response : HttpResponse}
    (answered : call.answer requestId outcome = some response) (blames : clientError response.statusCode = true) :
    ∃ e, outcome = .error e ∧ e.refuses = true := by
  simp only [Call.answer] at answered
  split at answered
  · contradiction
  · rename_i statusCode value status
    cases answered
    cases call <;> cases status <;> simp [clientError] at blames
  · contradiction
  · rename_i statusCode e _ status
    refine ⟨e,rfl,?_⟩
    cases answered
    simp only [Exn.refuses]
    cases known : e.httpException with
    | some http => simpa only [known,httpExceptionHandler] using blames
    | none =>
      simp only [known,unhandledExceptionHandler] at blames
      contradiction

omit [Pydantic] in
theorem answerValue {call : Call} {requestId : String} {outcome : Outcome} {response : HttpResponse}
    {value : Response} (answered : call.answer requestId outcome = some response)
    (body : response.body = .value value) : outcome = .ok value := by
  simp only [Call.answer] at answered
  split at answered
  · contradiction
  · cases answered
    cases body
    rfl
  · contradiction
  · cases answered
    split at body <;> cases body

end

theorem statusesTell [Pydantic] {events : List Happening} {c : State} {pid : Nat} {call : Call} {requestId : String}
    {outcome : Outcome} {response : HttpResponse} (ran : machine.run events initial = some c)
    (called : c.shared.calls[pid]? = some call) (ended : c.outcome pid = some outcome)
    (answered : call.answer requestId outcome = some response) : Tells pid events c call response := by
  have reachable : Reachable c := runReachable ran
  have report := reachableReport reachable ended
  refine ⟨?_,?_,report.pending,report.locks⟩
  · intro blames
    obtain ⟨e,rfl,refuses⟩ := answerRefuses answered blames
    exact refusedChangesNothing ran called ended refuses
  · intro value body
    cases answerValue answered body
    exact effectedOk reachable called ended

open JsonMode in
theorem statusesTellOverdrawn : Tells 3 (opened.events ++ overdrawn.events) overdrawn.last
    (.sendMoney 102 overdrawing false) ⟨402,.error ⟨"insufficient_funds",
      "Insufficient balance: available=100.00, required=500.00","r-1"⟩⟩ := by
  have called : overdrawn.last.shared.calls[3]? = some (.sendMoney 102 overdrawing false) := by decide +kernel
  have ended : overdrawn.last.outcome 3 = some (.error (.insufficientBalance "100.00" "500.00")) := by
    decide +kernel
  have answered : Call.answer (.sendMoney 102 overdrawing false) "r-1"
      (.error (.insufficientBalance "100.00" "500.00")) = some ⟨402,.error ⟨"insufficient_funds",
      "Insufficient balance: available=100.00, required=500.00","r-1"⟩⟩ := by decide +kernel
  exact statusesTell (opened.together overdrawn) called ended answered

end PaymentSystem
