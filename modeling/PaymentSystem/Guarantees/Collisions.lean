import PaymentSystem.System.Schedule

/-! Constraint violations. With generated ids that are new, the one constraint a
payment can violate is the uniqueness of its key, and then the payment that has the
key is committed, to be found by the lookup that follows. -/
namespace PaymentSystem
open Interleaving (Program Reach)

def Record.violates (violated : Constraint) : Record → Prop
  | .called _ _ _ (.error e) _ => e = .integrityError violated
  | _ => False

theorem Record.collides.violates {rec : Record} (h : rec.collides) : rec.violates .transactionsPrimaryKey := by
  unfold Record.collides at h
  split at h
  · exact h
  · contradiction

def FreshIds (c : State) (e : Happening) : Prop :=
  ∀ pid choice new next, e = .step pid choice → c.running[pid]? = some (.call (.insertTransaction new) next) →
    c.shared.db.heldByOther pid (.transaction choice.uuid) = false ∧
      (c.shared.db.view pid).taken (.transaction choice.uuid) = false

theorem Database.insertTransactionFresh {db db' : Database} {pid : Nat} {new : NewTransaction} {id : UUID}
    {now : DateTime} (unheld : db.heldByOther pid (.transaction id) = false)
    (untaken : (db.view pid).taken (.transaction id) = false) :
    db.insertTransaction pid new id now ≠ some (.error (.integrityError .transactionsPrimaryKey),db') := by
  have passed : db.uniqueCheck pid (.transaction id) (.idempotencyKey new.idempotencyKey)
      .transactionsPrimaryKey .transactionsIdempotencyKey ≠ some (some .transactionsPrimaryKey) := by
    unfold uniqueCheck
    rw [unheld,untaken,Bool.or_self,if_neg Bool.false_ne_true]
    split
    · simp
    · split <;> simp
  intro inserted
  simp only [insertTransaction] at inserted
  split at inserted
  · cases inserted
  · split at inserted
    · cases inserted
    · split at inserted
      · cases inserted
      · split at inserted
        · cases inserted
        · split at inserted
          · cases inserted
          · rename_i violated found
            cases inserted
            exact passed found
          · split at inserted
            · cases inserted
            · split at inserted <;> cases inserted

theorem Logged.uncollided {c : State} {e : Happening} {rec : Record} (h : Logged c e rec) (fresh : FreshIds c e) :
    ¬ rec.collides := by
  intro collides
  cases h with
  | stop => exact collides
  | @step pid choice op next r s' running attempted =>
    cases op with
    | insertTransaction new =>
      obtain ⟨unheld,untaken⟩ := fresh pid choice new next rfl running
      rcases attemptCases attempted with ⟨fault,ran⟩ | ⟨_,rfl⟩
      · obtain ⟨db',inserted,_⟩ := writesSome ran
        rw [fault] at collides
        cases r with
        | ok row => exact collides
        | error e =>
          cases (show e = _ from collides)
          exact Database.insertTransactionFresh unheld untaken inserted
      · generalize choice.fault = raised at collides
        cases raised <;> first | exact collides | cases collides
    | _ => exact collides

section
variable [Pydantic] {w : World} {pid : Nat} {c : State}

theorem Due.violation {op : Op} {choice : Choice} {violated : Constraint} {s' : Stores} {userId : UUID}
    {request : PaymentRequest} {redisClient : Bool} (due : Due pid w op)
    (call : w.calls[pid]? = some (.sendMoney userId request redisClient))
    (attempted : attempt pid w.stores op choice = some (.error (.integrityError violated),s')) :
    ∃ new db', op = .insertTransaction new ∧
      w.db.insertTransaction pid new choice.uuid choice.now = some (.error (.integrityError violated),db') ∧
      (violated = .transactionsPrimaryKey ∨ violated = .transactionsIdempotencyKey ∧
        ∃ x ∈ w.tables.transactions, x.idempotencyKey = request.idempotencyKey) := by
  rcases attemptCases attempted with ⟨_,ran⟩ | ⟨_,failure⟩
  · cases op with
    | selectTransactionByKey | selectTransactionsOf | hashPassword => cases (checkedError ran).1
    | selectWalletForUpdate id =>
      obtain ⟨db',wrote,_⟩ := writesSome ran
      obtain ⟨_,_,same⟩ := Option.map_eq_some_iff.mp wrote
      cases same
    | updateWallet id expected balance version =>
      obtain ⟨db',updated,_⟩ := writesSome ran
      rcases Database.updateWalletCases updated with ⟨_,large | none | negative⟩ | ⟨_,ok,_⟩
      · cases large.1
      · cases none.1
      · obtain ⟨_,stored,fits,below⟩ := negative
        exact absurd (due.1 stored fits) (by omega)
      · cases ok
    | flushWallet id balance => exact due.elim
    | insertUser email passwordHash fullName =>
      obtain ⟨data,registers⟩ := due
      cases Option.some.inj (call.symm.trans registers)
    | insertWallet userId =>
      obtain ⟨data,registers⟩ := due
      cases Option.some.inj (call.symm.trans registers)
    | insertTransaction new =>
      obtain ⟨_,request',_,sender,receiver,recordable⟩ := due
      cases Option.some.inj (call.symm.trans recordable.call)
      obtain ⟨db',inserted,_⟩ := writesSome ran
      refine ⟨new,db',rfl,inserted,?_⟩
      rcases recordable.cases inserted with ⟨_,⟨large,_⟩ | used | ⟨taken,found⟩⟩ | ⟨_,_,ok,_⟩
      · cases large
      · cases used
        exact .inl rfl
      · cases taken
        exact .inr ⟨rfl,found⟩
      · cases ok
    | _ => cases ran
  · cases op <;> cases failure

theorem refusedByKey (run : Reach machine FreshIds initial c) : ∀ rec ∈ c.shared.log, ∀ violated,
    rec.violates violated → ∀ userId request redisClient,
      c.shared.calls[rec.pid]? = some (.sendMoney userId request redisClient) →
        violated = .transactionsIdempotencyKey ∧
          ∃ x ∈ c.shared.tables.transactions, x.idempotencyKey = request.idempotencyKey := by
  intro rec here violated violates userId request redisClient called
  refine reachRecords (Q := fun w rec call => rec.violates violated → call = .sendMoney userId request redisClient →
    violated = .transactionsIdempotencyKey ∧ ∃ x ∈ w.tables.transactions,
      x.idempotencyKey = request.idempotencyKey) ?_ ?_ run rec here _ called violates rfl
  · intro w w' rec call intact intact' grows known violates same
    obtain ⟨unique,x,hx,key⟩ := known violates same
    exact ⟨unique,x,(intact.evolves intact' grows).transactions.subset hx,key⟩
  · rintro c c' e rec call before ok step logged called violates rfl
    have reachable : Reachable c := before.weaken (fun _ _ _ => trivial)
    have evolves := (reachableIntact reachable).evolves (reachableIntact (.next reachable trivial step))
      (nextGrows step)
    cases logged with
    | stop => exact violates.elim
    | @step pid choice op next r s' running attempted =>
      cases r with
      | ok value => exact violates.elim
      | error e =>
        cases (show e = _ from violates)
        obtain ⟨new,db',rfl,inserted,pk | ⟨unique,x,hx,key⟩⟩ :=
          (reachableDue reachable running).2.1.violation called attempted
        · obtain ⟨unheld,untaken⟩ := ok pid choice new next rfl running
          exact absurd (pk ▸ inserted) (Database.insertTransactionFresh unheld untaken)
        · exact ⟨unique,x,evolves.transactions.subset hx,key⟩

end

theorem onlyKeyViolated [Pydantic] {c : State} (run : Reach machine FreshIds initial c) {pid : Nat} {userId : UUID}
    {request : PaymentRequest} {redisClient : Bool}
    (called : c.shared.calls[pid]? = some (.sendMoney userId request redisClient)) :
    (∀ op next choice violated s', c.running[pid]? = some (.call op next) → FreshIds c (.step pid choice) →
      attempt pid c.shared.stores op choice = some (.error (.integrityError violated),s') →
        violated = .transactionsIdempotencyKey ∧
          ∃ x ∈ c.shared.tables.transactions, x.idempotencyKey = request.idempotencyKey) ∧
      (∀ key next choice s' rows violated, c.running[pid]? = some (.call (.selectTransactionByKey key) next) →
        (∃ rec ∈ c.shared.log, rec.pid = pid ∧ rec.violates violated) →
        attempt pid c.shared.stores (.selectTransactionByKey key) choice =
          some ((.ok rows : Except Exn (List Transaction)),s') →
        ∃ x ∈ c.shared.tables.transactions, x.idempotencyKey = request.idempotencyKey ∧ rows = [x]) ∧
      ∀ outcome, c.outcome pid = some outcome → outcome ≠ .error .duplicateTransaction ∧
        (∀ violated, outcome ≠ .error (.integrityError violated)) ∧
        ∀ response, outcome = .ok response → ∃ x ∈ c.shared.tables.transactions,
          x.idempotencyKey = request.idempotencyKey ∧
            response = .payment (TransactionResponse.modelValidate x) := by
  have reachable : Reachable c := run.weaken (fun _ _ _ => trivial)
  have intact := reachableIntact reachable
  refine ⟨?_,?_,?_⟩
  · intro op next choice violated s' running fresh attempted
    obtain ⟨_,due,_⟩ := reachableDue reachable running
    obtain ⟨new,db',rfl,inserted,pk | known⟩ := due.violation called attempted
    · obtain ⟨unheld,untaken⟩ := fresh pid choice new next rfl running
      exact absurd (pk ▸ inserted) (Database.insertTransactionFresh unheld untaken)
    · exact known
  · rintro key next choice s' rows violated running ⟨rec,here,rfl,violates⟩ attempted
    obtain ⟨_,⟨nothing,userId',request',redisClient',called',named⟩,_⟩ := reachableDue reachable running
    cases Option.some.inj (called.symm.trans called')
    obtain ⟨_,x,hx,keyed⟩ := refusedByKey run rec here violated violates _ _ _ called
    refine ⟨x,hx,keyed,?_⟩
    rcases attemptCases attempted with ⟨_,ran⟩ | ⟨_,failure⟩
    · obtain ⟨_,rfl,_⟩ := checkedOk ran
      change (c.shared.db.view rec.pid).transactionsByKey key = [x]
      -- after the rollback the request sees what is committed
      rw [Database.viewNothing nothing,← named,← keyed]
      exact intact.keyed.byKey hx
    · cases failure
  · intro outcome done
    obtain ⟨call,concluded⟩ := (reachableReport reachable done).concluded
    cases Option.some.inj (called.symm.trans concluded.called)
    have answered := concluded.answered
    have unmet : ∀ e, (e = .duplicateTransaction ∨ ∃ violated, e = .integrityError violated) →
        ¬ Blame pid c.shared userId request e := by
      intro e kind blame
      cases blame with
      | collision _ here own collides =>
        obtain ⟨unique,_⟩ := refusedByKey run _ here _ collides.violates userId request redisClient (own ▸ called)
        cases unique
      | failed ofFailure => rcases kind with rfl | ⟨_,rfl⟩ <;> cases ofFailure
      | conflict kind' => rcases kind' with rfl | rfl <;> simp at kind
      | _ => simp at kind
    have unrefused : ∀ e, (e = .duplicateTransaction ∨ ∃ violated, e = .integrityError violated) →
        outcome ≠ .error e := by
      rintro e kind rfl
      have refused : Refused pid userId request c.shared e := answered
      cases refused with
      | failed ofFailure => rcases kind with rfl | ⟨_,rfl⟩ <;> cases ofFailure
      | text => simp at kind
      | later missed blame => exact unmet e kind blame
    refine ⟨unrefused _ (.inl rfl),fun violated => unrefused _ (.inr ⟨violated,rfl⟩),?_⟩
    rintro response rfl
    cases response with
    | payment t =>
      obtain ⟨x,here,key,rfl⟩ := answered
      exact ⟨x,here,key,rfl⟩
    | _ => exact absurd answered id

def freshIds (c : State) : Happening → Bool
  | .step pid choice => (match c.running[pid]? with
      | some (.call (.insertTransaction _) _) => !c.shared.db.heldByOther pid (.transaction choice.uuid) &&
          !(c.shared.db.view pid).taken (.transaction choice.uuid)
      | _ => true)
  | _ => true

theorem freshIdsSure [Pydantic] (c : State) (e : Happening) (h : freshIds c e = true) : FreshIds c e := by
  rintro pid choice new next rfl running
  simp only [freshIds,running,Bool.and_eq_true,Bool.not_eq_true'] at h
  exact h

section
open JsonMode

def rentAtOnce : Run initial where
  events := opening ++ (.start (.sendMoney 102 rent false) :: (serve (.sendMoney 102 rent false) 4 1 500 ++
    (steps 3 11 400 ++ steps 4 10 510)))
  possible := by decide +kernel

theorem onlyKeyViolatedRent : ∃ x ∈ rentAtOnce.last.shared.tables.transactions,
    x.idempotencyKey = "rent" ∧ x.id = 407 := by
  have called : rentAtOnce.last.shared.calls[4]? = some (.sendMoney 102 rent false) := by decide +kernel
  obtain ⟨x,here,key,same⟩ := ((onlyKeyViolated (rentAtOnce.meeting freshIdsSure (by decide +kernel)) called).2.2 _
    (by decide +kernel)).2.2
    (.payment ⟨407,103,203,⟨3000,-2⟩,"USD","COMPLETED","rent",none,⟨2024,1,1,0,0,0,0⟩⟩) rfl
  have id := congrArg TransactionResponse.id (Response.payment.inj same)
  exact ⟨x,here,key,id.symm⟩

end

end PaymentSystem
