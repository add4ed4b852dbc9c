import PaymentSystem.System.Traces
import PaymentSystem.Guarantees.LockedReads

/-! The retry of a payment after a version conflict. The rollback of the failed attempt
expires the two wallet objects, so that the next attempt raises on reading them: it
never locks a wallet again. -/
namespace PaymentSystem
open Numerics (Decimal)
open Interleaving (Program Reach)

namespace Record

def conflicted : Record → Bool
  | .called _ (.updateWallet _ _ _ _) .none (.ok count) _ => decide ((show Nat from count) = 0)
  | _ => false

def inserted : Record → Bool
  | .called _ (.insertTransaction _) .none (.ok _) _ => true
  | _ => false

end Record

def conflictsOf (pid : Nat) (records : List Record) : List Record :=
  records.filter (fun rec => decide (rec.pid = pid) && rec.conflicted)

structure Retries (pid : Nat) (c : State) : Prop where
  again : ∀ before rec after, c.shared.log = before ++ rec :: after → rec.pid = pid → rec.conflicted = true →
    (conflictsOf pid before).length + 1 < PaymentService.maxRetryAttempts →
    ∀ id, (∃ lock ∈ before, lock.pid = pid ∧ lock.locks id) → ∃ lock ∈ after, lock.pid = pid ∧ lock.locks id
  exhausted : c.outcome pid = some (.error .optimisticLock) →
    (conflictsOf pid c.shared.log).length = PaymentService.maxRetryAttempts
  succeeds : (∃ rec ∈ c.shared.log, rec.pid = pid ∧ rec.inserted = true) → ¬ Failed pid c.shared →
    ∃ t, c.outcome pid = some (.ok (.payment t))
  surfaces : (∃ rec ∈ c.shared.log, rec.pid = pid ∧ rec.conflicted = true) →
    ∀ e, c.outcome pid = some (.error e) → e = .optimisticLock

theorem Record.mismatches.conflicted {rec : Record} {row : Wallet} (h : rec.mismatches row) :
    rec.conflicted = true := by
  unfold Record.mismatches at h
  split at h
  · exact decide_eq_true h.2.2
  · contradiction

theorem conflictedTalk {rec : Record} (h : rec.conflicted = true) :
    ∃ x, rec.talk rec.pid = some x ∧ x.conflicts = true := by
  unfold Record.conflicted at h
  split at h
  · exact ⟨_,if_pos rfl,h⟩
  · contradiction

theorem insertedTalk {rec : Record} (h : rec.inserted = true) :
    ∃ x, rec.talk rec.pid = some x ∧ x.inserts = true := by
  unfold Record.inserted at h
  split at h
  · exact ⟨_,if_pos rfl,rfl⟩
  · contradiction

theorem locksTalk {rec : Record} {id : UUID} (h : rec.locks id) :
    ∃ x, rec.talk rec.pid = some x ∧ x.op = .selectWalletForUpdate id := by
  unfold Record.locks at h
  split at h
  · subst h
    exact ⟨_,if_pos rfl,rfl⟩
  · contradiction

section
variable [Pydantic] {c : State} {pid : Nat} {userId : UUID} {request : PaymentRequest} {redisClient : Bool}

theorem neverLocksAgain (reachable : Reachable c)
    (called : c.shared.calls[pid]? = some (.sendMoney userId request redisClient)) {before after : List Record}
    {rec lock : Record} {id : UUID} (log : c.shared.log = before ++ rec :: after) (own : rec.pid = pid)
    (conflicted : rec.conflicted = true) (later : lock ∈ after) (own' : lock.pid = pid) : ¬ lock.locks id := by
  intro locks
  subst own
  obtain ⟨x,talk,conflicts⟩ := conflictedTalk conflicted
  obtain ⟨y,talk',op⟩ := locksTalk locks
  rw [own'] at talk'
  obtain ⟨middle,rest,rfl⟩ := List.append_of_mem later
  obtain ⟨q,leads,_⟩ := reachLeads reachable called
  have split : c.shared.talks rec.pid = ((before ++ rec :: middle).filterMap (Record.talk rec.pid)) ++
      y :: rest.filterMap (Record.talk rec.pid) := by
    rw [World.talks,log,← List.cons_append,← List.append_assoc,List.filterMap_append,List.filterMap_cons_some talk']
  -- after a conflict only the rollback and the closing are due
  have due := Interleaving.leadsDue leads (saysSendMoney userId request redisClient) (talksUsual reachable) split
  have seen : x ∈ (before ++ rec :: middle).filterMap (Record.talk rec.pid) :=
    List.mem_filterMap.mpr ⟨rec,by simp,talk⟩
  rcases due ⟨x,seen,conflicts⟩ with same | same <;> rw [op] at same <;> contradiction

theorem conflictLocked (reachable : Reachable c) {before after : List Record} {rec : Record}
    (log : c.shared.log = before ++ rec :: after) (conflicted : rec.conflicted = true)
    (called : c.shared.calls[rec.pid]? = some (.sendMoney userId request redisClient)) :
    ∃ id, ∃ lock ∈ before, lock.pid = rec.pid ∧ lock.locks id := by
  refine reachPlaced (Q := fun _ before rec call => rec.conflicted = true →
    call = .sendMoney userId request redisClient → ∃ id, ∃ lock ∈ before, lock.pid = rec.pid ∧ lock.locks id)
    (fun _ _ _ _ _ _ _ _ h => h) ?_ reachable before rec after log _ called conflicted rfl
  rintro c c' e rec call before _ _ logged called conflicted rfl
  cases logged with
  | stop => contradiction
  | @step pid choice op next r s' running ran =>
    cases op with
    | updateWallet id expected balance version =>
      obtain ⟨row,adjusting⟩ := (reachableDue before running).2.1.2.1 userId request redisClient called
      obtain ⟨earlier,lock,later,log,own,locks,_⟩ := adjusting.locked.record
      exact ⟨row.id,lock,log ▸ List.mem_append_right _ (List.mem_cons_self ..),own,locks⟩
    | _ => contradiction

theorem commitRecorded (reachable : Reachable c) {rec : Record} (here : rec ∈ c.shared.log)
    {call : Call} (called : c.shared.calls[rec.pid]? = some call) {x : Talk} (talk : rec.talk rec.pid = some x)
    (commits : x.op = .commit) (fine : rec.failed = false) : CommittedBy rec.pid c.shared := by
  refine reachRecords (Q := fun w rec _ => ∀ x, rec.talk rec.pid = some x → x.op = .commit → rec.failed = false →
    CommittedBy rec.pid w) ?_ ?_ reachable rec here _ called x talk commits fine
  · intro w w' rec _ _ _ grows known x talk commits fine
    exact (known x talk commits fine).grows grows
  · intro c c' e rec _ before _ step logged _ x talk commits fine
    cases logged with
    | stop => contradiction
    | @step pid choice op next r s' running ran =>
      cases (if_pos rfl).symm.trans talk
      cases (show op = .commit from commits)
      obtain ⟨op',next',r',s'',running',attempted,rfl⟩ := nextStep step
      cases Option.some.inj (running.symm.trans running')
      have calm : choice.fault = .none := by simpa [Record.failed] using fine
      simp only [attempt,calm,perform] at attempted
      cases Option.some.inj attempted
      obtain ⟨entry,_⟩ := (reachableDue before running).2.1
      refine ⟨⟨pid,c.shared.db.pending pid⟩,?_,rfl⟩
      change _ ∈ (c.shared.db.commit pid).wal
      rw [Database.commitWal,if_neg entry.nonempty]
      exact List.mem_append_right _ (List.mem_singleton_self _)

theorem insertedSucceeds (reachable : Reachable c)
    (called : c.shared.calls[pid]? = some (.sendMoney userId request redisClient)) {outcome : Outcome}
    (ended : c.outcome pid = some outcome) {rec : Record} (here : rec ∈ c.shared.log) (own : rec.pid = pid)
    (inserted : rec.inserted = true) (healthy : ¬ Failed pid c.shared) : ∃ t, outcome = .ok (.payment t) := by
  subst own
  obtain ⟨call,concluded⟩ := (reachableReport reachable ended).concluded
  cases Option.some.inj (called.symm.trans concluded.called)
  have ends : CommittedBy rec.pid c.shared ∨ outcome = .error .cancelled := by
    obtain ⟨q,leads,running⟩ := reachLeads reachable called
    have done := outcomeDone ended
    rw [done] at running
    rcases running with same | same
    · cases same
      have said : Said outcome (c.shared.talks rec.pid) :=
        (saysSendMoney userId request redisClient).leads leads (talksUsual reachable)
      obtain ⟨x,talk,inserts⟩ := insertedTalk inserted
      obtain ⟨y,there,commits⟩ := said.recorded ⟨x,talksOfMem here talk,inserts⟩
      obtain ⟨commit,inside,own,talk'⟩ := talksMem there
      refine .inl ?_
      rw [← own] at talk' called ⊢
      refine commitRecorded reachable inside called talk' commits (Bool.eq_false_iff.mpr ?_)
      intro failed
      exact healthy ⟨commit,inside,own,failed⟩
    · cases same
      exact .inr rfl
  cases outcome with
  | ok response =>
    have answered := concluded.answered
    cases response with
    | payment t => exact ⟨t,rfl⟩
    | _ => exact absurd answered id
  | error e =>
    exfalso
    rcases ends with committed | cancelled
    · obtain ⟨rec',inside,own,spoils⟩ := concluded.spoiled e rfl committed
      exact healthy ⟨rec',inside,own,spoilsFailed spoils⟩
    · cases cancelled
      have refused : Refused rec.pid userId request c.shared .cancelled := concluded.answered
      cases refused with
      | failed _ failure => exact healthy failure
      | later _ blame =>
        cases blame with
        | failed _ failure => exact healthy failure
        | conflict kind => simp at kind
        | collision kind => simp at kind

end

section
open JsonMode

def rentPaid : Run opened.last := ⟨serve (.sendMoney 102 rent false) 3 11 400,by decide +kernel⟩

def rentGivenUp : Run rentOvertaken.last := ⟨steps 3 4 420,by decide +kernel⟩

end
end PaymentSystem
