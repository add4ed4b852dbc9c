import PaymentSystem.System.Schedule
import PaymentSystem.System.Outages

/-! Payments while Redis fails. Every Redis command of a top-up, and of a payment before
its last, is guarded; the pipeline that deletes both balances after the commit is not, and
turns a payment that was made into an error. -/
namespace PaymentSystem
open Numerics (Decimal)
open Interleaving (Program Task Paired Level)
open Interleaving.Task (steadyThen steadyPure)

def Call.withoutRedis : Call → Call
  | .topUp userId amount _ => .topUp userId amount false
  | .sendMoney userId request _ => .sendMoney userId request false
  | call => call

def Call.movesMoney : Call → Prop
  | .topUp _ _ _ => True
  | .sendMoney _ _ _ => True
  | _ => False

def Call.pays : Call → Prop
  | .sendMoney _ _ _ => True
  | _ => False

def DeleteRaised (commands : List (Op × Fault)) : Prop :=
  ∃ keys fault, (.redisDelete keys,fault) ∈ commands ∧ fault ≠ .none

inductive Beside (broken : List (Op × Fault) → Prop) (near : Course → Course → Prop) {α : Type} :
    Except Exn α × Session → Course → Except Exn α × Session → Course → Prop where
  | same {out s s'} (level : near s s') (fine : ¬ broken s.commands) (clean : out.2.dirty = []) :
      Beside broken near out s out s'
  | apart {l l' a s s'} (raised : broken s.commands) :
      Beside broken near (.error .redisError,l) s (.ok a,l') s'

abbrev Abreast (s s' : Course) : Prop := Course.Near s.commands s s'

section
variable {α β : Type} {pid : Nat} {choices : Nat → Choice} {outages : Nat → Fault} {s s' : Course} {l : Session}
  {keys : List UUID} {broken : List (Op × Fault) → Prop}

theorem besideThen {t : Py α} {f g : α → Py β} (plain : Plain keys t) (present : Present keys l)
    (near : Abreast s s') (fine : ¬ broken s.commands)
    (rest : ∀ a l₁ s₁ s₁', Present keys l₁ → Abreast s₁ s₁' → ¬ broken s₁.commands →
      Paired (Beside broken Abreast) ((f a l₁).alone (Course.exec pid choices outages) s₁)
        ((g a l₁).alone (Course.exec pid choices outages) s₁')) :
    Paired (Beside broken Abreast) (((t >>= f) l).alone (Course.exec pid choices outages) s)
      (((t >>= g) l).alone (Course.exec pid choices outages) s') := by
  refine Paired.bind ((plain l present).paired (fun op s s' statement near => statementAlike statement near) near) ?_
  intro out s₁ out' s₁' related
  obtain ⟨⟨same,near₁⟩,present₁⟩ := related
  cases same
  have fine₁ : ¬ broken s₁.commands := near₁.commands ▸ fine
  have near₁ : Abreast s₁ s₁' := ⟨near₁.db,near₁.statements,rfl⟩
  obtain ⟨r,l₁⟩ := out
  cases r with
  | error e => exact .ended (.same near₁ fine₁ present₁.1)
  | ok a => exact rest a l₁ s₁ s₁' present₁ near₁ fine₁

theorem besidePlain {t : Py α} (plain : Plain keys t) (present : Present keys l) (near : Abreast s s')
    (fine : ¬ broken s.commands) :
    Paired (Beside broken Abreast) ((t l).alone (Course.exec pid choices outages) s)
      ((t l).alone (Course.exec pid choices outages) s') := by
  refine ((plain l present).paired (fun op s s' statement near => statementAlike statement near) near).mono ?_
  intro out s₁ out' s₁' related
  obtain ⟨⟨same,near₁⟩,present₁⟩ := related
  cases same
  exact .same ⟨near₁.db,near₁.statements,rfl⟩ (near₁.commands ▸ fine) present₁.1

theorem aloneGuarded {t : Py Unit} {r : Except Exn Unit} {s₁ : Course}
    (h : (t l).alone (Course.exec pid choices outages) s = some ((r,l),s₁)) :
    ((tryCatch t (fun _ => pure ()) : Py Unit) l).alone (Course.exec pid choices outages) s =
      some ((.ok (),l),s₁) := by
  cases r with
  | ok value => exact Task.aloneCatch h
  | error e => exact Task.aloneHandled h

theorem aloneSetex (key : String) (ttl : Nat) (value : String) : ∃ s₁ fault,
    ((tryCatch (await (.redisSetex key ttl value)) (fun _ => pure ()) : Py Unit) l).alone
      (Course.exec pid choices outages) s = some ((.ok (),l),s₁) ∧ s₁.stores.db = s.stores.db ∧
      s₁.statements = s.statements ∧ s₁.commands = s.commands ++ [(.redisSetex key ttl value,fault)] := by
  obtain ⟨r,s₁,ran,db,statements,commands,_⟩ :=
    @commandDone pid choices outages s (.redisSetex key ttl value) rfl
  exact ⟨s₁,_,aloneGuarded (Task.aloneAwait ran),db,statements,commands⟩

theorem aloneDelete (keys : List String) : ∃ s₁ fault,
    ((tryCatch (await (.redisDelete keys)) (fun _ => pure ()) : Py Unit) l).alone
      (Course.exec pid choices outages) s = some ((.ok (),l),s₁) ∧ s₁.stores.db = s.stores.db ∧
      s₁.statements = s.statements ∧ s₁.commands = s.commands ++ [(.redisDelete keys,fault)] := by
  obtain ⟨r,s₁,ran,db,statements,commands,_⟩ := @commandDone pid choices outages s (.redisDelete keys) rfl
  exact ⟨s₁,_,aloneGuarded (Task.aloneAwait ran),db,statements,commands⟩

theorem aloneGiveUp (e : Exn) : ∃ s₁, ((do rollback; throw e : Py α) l).alone (Course.exec pid choices outages) s =
    some ((.error e,l.expireAll),s₁) ∧ s₁.commands = s.commands :=
  ⟨_,rfl,rfl⟩

end

/-! A payment. -/

theorem raisedMore {commands : List (Op × Fault)} {op : Op} {fault : Fault} (fine : ¬ DeleteRaised commands)
    (harmless : (∀ keys, op ≠ .redisDelete keys) ∨ fault = .none) : ¬ DeleteRaised (commands ++ [(op,fault)]) := by
  rintro ⟨keys,fault',here,raised⟩
  rcases List.mem_append.mp here with here | here
  · exact fine ⟨keys,fault',here,raised⟩
  · cases List.mem_singleton.mp here
    rcases harmless with other | fine'
    · exact other keys rfl
    · exact raised fine'

section
variable [Pydantic] {pid : Nat} {choices : Nat → Choice} {outages : Nat → Fault} {s s' : Course} {l : Session}
  {sender receiver : WalletRef} {request : PaymentRequest} {redisClient : Bool}

theorem besideAfterCommit {result : TransactionResponse} (present : Present [sender.key,receiver.key] l)
    (near : Abreast s s') (fine : ¬ DeleteRaised s.commands) :
    Paired (Beside DeleteRaised Abreast)
      (((do
        PaymentService.afterCommit sender receiver request result redisClient
        pure result : Py TransactionResponse) l).alone (Course.exec pid choices outages) s)
      (((do
        PaymentService.afterCommit sender receiver request result false
        pure result : Py TransactionResponse) l).alone (Course.exec pid choices outages) s') := by
  cases redisClient with
  | false => exact .ended (.same near fine present.1)
  | true =>
    obtain ⟨a,loadedSender⟩ := present.2 sender.key (by simp)
    obtain ⟨b,loadedReceiver⟩ := present.2 receiver.key (by simp)
    obtain ⟨s₁,fault,stored,db₁,statements₁,commands₁⟩ := @aloneSetex pid choices outages s l
      (IdempotencyService.cacheKey request.idempotencyKey) IdempotencyService.ttl
      (IdempotencyService.storedText result.modelDump 201)
    obtain ⟨r,s₂,deleted,db₂,statements₂,commands₂,performed,raised⟩ := @commandDone pid choices outages s₁
      (.redisDelete [PaymentService.balanceKey a.id,PaymentService.balanceKey b.id]) rfl
    have left : (PaymentService.afterCommit sender receiver request result true l).alone
        (Course.exec pid choices outages) s = some ((r,l),s₂) := by
      refine (Task.aloneThen stored).trans ?_
      refine (Task.aloneThen (by rw [idLoaded loadedSender]; rfl)).trans ?_
      refine (Task.aloneThen (by rw [idLoaded loadedReceiver]; rfl)).trans ?_
      exact Task.aloneAwait deleted
    have fine₁ : ¬ DeleteRaised s₁.commands := by
      rw [commands₁]
      exact raisedMore fine (.inl (fun keys same => by cases same))
    by_cases up : outages s₁.commands.length = .none
    · have done : r = .ok () := (Prod.mk.inj (Option.some.inj (performed up))).1.symm
      rw [done] at left
      rw [Task.aloneThen left]
      refine .ended (.same ⟨db₂.trans (db₁.trans near.db),?_,rfl⟩ ?_ present.1)
      · rw [statements₂,statements₁]
        exact near.statements
      · rw [commands₂]
        exact raisedMore fine₁ (.inr up)
    · rw [raised up] at left
      rw [Task.aloneRaised left]
      have here : (Op.redisDelete [PaymentService.balanceKey a.id,PaymentService.balanceKey b.id],
          outages s₁.commands.length) ∈ s₂.commands := by
        rw [commands₂]
        exact List.mem_append_right _ (List.mem_singleton_self _)
      exact .ended (.apart ⟨_,_,here,up⟩)

theorem besideAttempt (clean : l.dirty = []) (near : Abreast s s') (fine : ¬ DeleteRaised s.commands) :
    Paired (Beside DeleteRaised Abreast)
      ((PaymentService.attemptTransfer sender receiver request redisClient l).alone (Course.exec pid choices outages) s)
      ((PaymentService.attemptTransfer sender receiver request false l).alone (Course.exec pid choices outages) s') := by
  by_cases known : ∃ a, l.identityMap sender.key = some (.loaded a)
  · obtain ⟨a,loadedSender⟩ := known
    by_cases known' : ∃ b, l.identityMap receiver.key = some (.loaded b)
    · obtain ⟨b,loadedReceiver⟩ := known'
      have present : Present [sender.key,receiver.key] l := by
        refine ⟨clean,?_⟩
        intro key inside
        simp only [List.mem_cons,List.not_mem_nil,or_false] at inside
        rcases inside with rfl | rfl
        · exact ⟨a,loadedSender⟩
        · exact ⟨b,loadedReceiver⟩
      refine besideThen (plainId sender) present near fine ?_
      intro senderId l₁ s₁ s₁' present₁ near₁ fine₁
      refine besideThen (plainId receiver) present₁ near₁ fine₁ ?_
      intro receiverId l₂ s₂ s₂' present₂ near₂ fine₂
      refine besideThen (plainExecuteTransfer senderId receiverId _ _ _ _) present₂ near₂ fine₂ ?_
      intro result l₃ s₃ s₃' present₃ near₃ fine₃
      exact besideAfterCommit present₃ near₃ fine₃
    · have missing := idMissing (fun b here => known' ⟨b,here⟩)
      have step : ∀ redisClient s, (PaymentService.attemptTransfer sender receiver request redisClient l).alone
          (Course.exec pid choices outages) s = some ((.error .missingGreenlet,l),s) := by
        intro redisClient s
        refine (Task.aloneThen (by rw [idLoaded loadedSender]; rfl)).trans ?_
        exact Task.aloneRaised (by rw [missing]; rfl)
      rw [step,step]
      exact .ended (.same near fine clean)
  · have missing := idMissing (fun a here => known ⟨a,here⟩)
    have step : ∀ redisClient s, (PaymentService.attemptTransfer sender receiver request redisClient l).alone
        (Course.exec pid choices outages) s = some ((.error .missingGreenlet,l),s) :=
      fun redisClient s => Task.aloneRaised (by rw [missing]; rfl)
    rw [step,step]
    exact .ended (.same near fine clean)

theorem besideAttempts (left : Nat) (clean : l.dirty = []) (near : Abreast s s') (fine : ¬ DeleteRaised s.commands) :
    Paired (Beside DeleteRaised Abreast)
      ((PaymentService.transferAttempts sender receiver request redisClient left l).alone
        (Course.exec pid choices outages) s)
      ((PaymentService.transferAttempts sender receiver request false left l).alone
        (Course.exec pid choices outages) s') := by
  induction left generalizing l s s' with
  | zero => exact .ended (.same near fine clean)
  | succ left ih =>
    refine Paired.bind (besideAttempt clean near fine) ?_
    intro out s₁ out' s₁' related
    cases related with
    | same near₁ fine₁ clean₁ =>
      obtain ⟨r,l₁⟩ := out
      have nothing : Present [] l₁ := ⟨clean₁,by simp⟩
      cases r with
      | ok result => exact .ended (.same near₁ fine₁ clean₁)
      | error e =>
        cases e with
        | integrityError constraint => exact besidePlain (plainOnIntegrityError request) nothing near₁ fine₁
        | optimisticLock =>
          refine besideThen plainRollback nothing near₁ fine₁ ?_
          intro _ l₂ s₂ s₂' present₂ near₂ fine₂
          by_cases last : left = 0
          · rw [if_pos last,if_pos last]
            exact .ended (.same near₂ fine₂ present₂.1)
          · rw [if_neg last,if_neg last]
            exact ih present₂.1 near₂ fine₂
        | _ => exact besidePlain (plainGiveUp _) nothing near₁ fine₁
    -- the deletion has raised beside a payment that is made: the one run rolls back and raises
    | @apart l₁ l₁' result s₁ s₁' raised₁ =>
      obtain ⟨s₂,gaveUp,commands⟩ := @aloneGiveUp TransactionResponse pid choices outages s₁ l₁ .redisError
      change Paired _ (((do rollback; throw .redisError : Py TransactionResponse) l₁).alone _ s₁) _
      rw [gaveUp]
      exact .ended (.apart (commands ▸ raised₁))

theorem besideValidate {userId : UUID} (clean : l.dirty = []) (near : Abreast s s')
    (fine : ¬ DeleteRaised s.commands) :
    Paired (Beside DeleteRaised Abreast)
      ((PaymentService.validateAndTransfer userId request redisClient l).alone (Course.exec pid choices outages) s)
      ((PaymentService.validateAndTransfer userId request false l).alone (Course.exec pid choices outages) s') := by
  have nothing : Present [] l := ⟨clean,by simp⟩
  refine besideThen (plainGetByUserId userId) nothing near fine ?_
  intro foundSender l₁ s₁ s₁' present₁ near₁ fine₁
  cases foundSender with
  | none => exact .ended (.same near₁ fine₁ present₁.1)
  | some senderWallet =>
    refine besideThen (plainGetByUserId request.receiverId) present₁ near₁ fine₁ ?_
    intro foundReceiver l₂ s₂ s₂' present₂ near₂ fine₂
    cases foundReceiver with
    | none => exact .ended (.same near₂ fine₂ present₂.1)
    | some receiverWallet =>
      refine besideThen (plainId senderWallet) present₂ near₂ fine₂ ?_
      intro senderId l₃ s₃ s₃' present₃ near₃ fine₃
      refine besideThen (plainId receiverWallet) present₃ near₃ fine₃ ?_
      intro receiverId l₄ s₄ s₄' present₄ near₄ fine₄
      by_cases same : senderId = receiverId
      · rw [if_pos same,if_pos same]
        exact .ended (.same near₄ fine₄ present₄.1)
      · rw [if_neg same,if_neg same]
        exact besideAttempts _ present₄.1 near₄ fine₄

theorem besideLookup {userId : UUID} (clean : l.dirty = []) (near : Abreast s s') (fine : ¬ DeleteRaised s.commands) :
    Paired (Beside DeleteRaised Abreast)
      (((do
        let existing ← TransactionRepository.getByIdempotencyKey request.idempotencyKey
        match existing with
        | some transaction => pure (TransactionResponse.modelValidate transaction)
        | none => PaymentService.validateAndTransfer userId request redisClient : Py TransactionResponse) l).alone
          (Course.exec pid choices outages) s)
      (((do
        let existing ← TransactionRepository.getByIdempotencyKey request.idempotencyKey
        match existing with
        | some transaction => pure (TransactionResponse.modelValidate transaction)
        | none => PaymentService.validateAndTransfer userId request false : Py TransactionResponse) l).alone
          (Course.exec pid choices outages) s') := by
  have nothing : Present [] l := ⟨clean,by simp⟩
  refine besideThen (plainGetByIdempotencyKey request.idempotencyKey) nothing near fine ?_
  intro existing l₁ s₁ s₁' present₁ near₁ fine₁
  cases existing with
  | some transaction => exact .ended (.same near₁ fine₁ present₁.1)
  | none => exact besideValidate present₁.1 near₁ fine₁

theorem aloneCheck {c : State} (intact : Intact c.shared) (stores : s.stores = c.shared.stores) :
    ∃ found s₁, (IdempotencyService.checkKey request.idempotencyKey redisClient l).alone
        (Course.exec pid choices outages) s = some ((.ok found,l),s₁) ∧
      s₁.stores.db = s.stores.db ∧ s₁.statements = s.statements ∧
      (s₁.commands = s.commands ∨ ∃ key fault, s₁.commands = s.commands ++ [(.redisGet key,fault)]) ∧
      (found = none ∨ ∃ x ∈ c.shared.tables.transactions, x.idempotencyKey = request.idempotencyKey ∧
        found = some (replyDocument x)) := by
  cases redisClient with
  | false =>
    refine ⟨none,s,?_,rfl,rfl,.inl rfl,.inl rfl⟩
    simp only [IdempotencyService.checkKey,Bool.false_eq_true,if_false,ite_self]
    rfl
  | true =>
    have named : request.idempotencyKey ≠ "" := by
      have long := request.keyLength.1
      intro empty
      rw [empty] at long
      simp at long
    obtain ⟨r,s₁,asked,db,statements,commands,performed,raised⟩ := @commandDone pid choices outages s
      (.redisGet (IdempotencyService.cacheKey request.idempotencyKey)) rfl
    have commands' : s₁.commands = s.commands ∨ ∃ key fault, s₁.commands = s.commands ++ [(.redisGet key,fault)] :=
      .inr ⟨_,_,commands⟩
    simp only [IdempotencyService.checkKey,if_neg named,if_true]
    by_cases up : outages s.commands.length = .none
    · have answered := performed up
      cases cached : s.stores.redis (IdempotencyService.cacheKey request.idempotencyKey) with
      | none =>
        have nothing : r = .ok none := by
          simp only [perform,reads,cached] at answered
          exact (Prod.mk.inj (Option.some.inj answered)).1.symm
        rw [nothing] at asked
        refine ⟨none,s₁,Task.aloneCatch ?_,db,statements,commands',.inl rfl⟩
        exact Task.aloneThen (Task.aloneAwait asked)
      | some text =>
        have entry : r = .ok (some text) := by
          simp only [perform,reads,cached] at answered
          exact (Prod.mk.inj (Option.some.inj answered)).1.symm
        rw [entry] at asked
        have stored : c.shared.redis (CacheKeys.idempotency request.idempotencyKey) = some text := by
          rw [← cached,stores]
          rfl
        obtain ⟨x,here,keyed,rfl⟩ := intact.replies _ _ stored
        refine ⟨_,s₁,Task.aloneCatch ?_,db,statements,commands',.inr ⟨x,here,keyed,rfl⟩⟩
        refine (Task.aloneThen (Task.aloneAwait asked)).trans ?_
        simp only [if_neg (replyNonempty x),replyLoads]
        rfl
    · rw [raised up] at asked
      exact ⟨none,s₁,Task.aloneHandled (Task.aloneRaised (Task.aloneAwait asked)),db,statements,commands',.inl rfl⟩

abbrev Besides (broken : List (Op × Fault) → Prop) {α : Type} :
    Except Exn α × Session → Course → Except Exn α × Session → Course → Prop :=
  Beside broken (fun s s' => s.stores.db = s'.stores.db)

theorem besideSendMoney {c : State} {userId : UUID} (intact : Intact c.shared) (idle : c.shared.db.pending pid = []) :
    Paired (Besides DeleteRaised)
      ((PaymentService.sendMoney userId request redisClient Session.new).alone (Course.exec pid choices outages)
        ⟨c.shared.stores,0,[]⟩)
      ((PaymentService.sendMoney userId request false Session.new).alone (Course.exec pid choices outages)
        ⟨c.shared.stores,0,[]⟩) := by
  obtain ⟨found,s₁,looked,db₁,statements₁,commands₁,answer⟩ :=
    @aloneCheck _ pid choices outages ⟨c.shared.stores,0,[]⟩ Session.new request redisClient c intact rfl
  have fine₁ : ¬ DeleteRaised s₁.commands := by
    have noneRaised : ¬ DeleteRaised [] := fun ⟨_,_,here,_⟩ => by simp at here
    rcases commands₁ with same | ⟨key,fault,more⟩
    · rw [same]
      exact noneRaised
    · rw [more]
      exact raisedMore noneRaised (.inl (fun keys same => by cases same))
  have skipped : (IdempotencyService.checkKey request.idempotencyKey false Session.new).alone
      (Course.exec pid choices outages) ⟨c.shared.stores,0,[]⟩ = some ((.ok none,Session.new),⟨c.shared.stores,0,[]⟩) := by
    simp only [IdempotencyService.checkKey,Bool.false_eq_true,if_false,ite_self]
    rfl
  simp only [PaymentService.sendMoney]
  rw [Task.aloneThen looked,Task.aloneThen skipped]
  simp only [Option.filter_none]
  rcases answer with rfl | ⟨x,here,keyed,rfl⟩
  · simp only [Option.filter_none]
    have near : Abreast s₁ ⟨c.shared.stores,0,[]⟩ := ⟨db₁,statements₁,rfl⟩
    refine (besideLookup rfl near fine₁).mono ?_
    intro out s₂ out' s₂' related
    cases related with
    | same near₂ fine₂ clean₂ => exact .same near₂.db fine₂ clean₂
    | apart raised₂ => exact .apart raised₂
  · have one : c.shared.tables.transactionsByKey request.idempotencyKey = [x] := keyed ▸ intact.keyed.byKey here
    have fits : Database.textFits request.idempotencyKey = true := keyed ▸ intact.keyed.keysFit x here
    have got : Course.exec pid choices outages ⟨c.shared.stores,0,[]⟩ (.selectTransactionByKey request.idempotencyKey) =
        some (.ok [x],⟨c.shared.stores,1,[]⟩) := by
      have seen : (c.shared.stores.db.view pid).transactionsByKey request.idempotencyKey = [x] := by
        rw [Database.viewNothing idle]
        exact one
      simp only [Course.exec,Op.isRedis,Bool.false_eq_true,if_false,attempt,perform,checked,if_pos fits,reads,seen]
      rfl
    have known : (TransactionRepository.getByIdempotencyKey request.idempotencyKey Session.new).alone
        (Course.exec pid choices outages) ⟨c.shared.stores,0,[]⟩ =
          some ((.ok (some x),Session.new),⟨c.shared.stores,1,[]⟩) :=
      (Task.aloneThen (aloneExecute rfl got)).trans rfl
    simp only [replyTruthy,replayReply]
    rw [Task.aloneThen known]
    exact .ended (.same db₁ fine₁ rfl)

end

/-! A top-up. -/

abbrev Never (_ : List (Op × Fault)) : Prop := False

section
variable {pid : Nat} {choices : Nat → Choice} {outages : Nat → Fault} {s s' : Course} {l : Session}

theorem aloneInvalidate {wallet : WalletRef} {a : WalletAttributes}
    (loaded : l.identityMap wallet.key = some (.loaded a)) : ∃ s₁,
    (WalletService.invalidateAfterCommit wallet true l).alone (Course.exec pid choices outages) s =
      some ((.ok (),l),s₁) ∧ s₁.stores.db = s.stores.db ∧ s₁.statements = s.statements := by
  obtain ⟨s₁,_,first,db₁,statements₁,_⟩ := @aloneDelete pid choices outages s l [CacheKeys.balance a.id]
  obtain ⟨s₂,_,second,db₂,statements₂,_⟩ := @aloneDelete pid choices outages s₁ l [CacheKeys.walletInfo a.id]
  refine ⟨s₂,?_,db₂.trans db₁,statements₂.trans statements₁⟩
  refine (Task.aloneThen (by rw [idLoaded loaded]; rfl)).trans ?_
  refine (Task.aloneThen first).trans ?_
  refine (Task.aloneThen (by rw [idLoaded loaded]; rfl)).trans ?_
  exact second

theorem besideTopUpOnce {userId : UUID} {amount : Decimal} (clean : l.dirty = []) (near : Abreast s s') :
    Paired (Beside Never Abreast)
      ((WalletService.topUpOnce userId amount true l).alone (Course.exec pid choices outages) s)
      ((WalletService.topUpOnce userId amount false l).alone (Course.exec pid choices outages) s') := by
  have nothing : Present [] l := ⟨clean,by simp⟩
  refine besideThen (plainGetByUserId userId) nothing near id ?_
  intro found l₁ s₁ s₁' present₁ near₁ _
  cases found with
  | none => exact .ended (.same near₁ id present₁.1)
  | some wallet =>
    by_cases known : ∃ a, l₁.identityMap wallet.key = some (.loaded a)
    · have present : Present [wallet.key] l₁ := by
        refine ⟨present₁.1,?_⟩
        intro key inside
        rw [List.mem_singleton.mp inside]
        exact known
      refine besideThen (plainBalance wallet) present near₁ id ?_
      intro balance l₂ s₂ s₂' present₂ near₂ _
      refine besideThen (plainArithmetic _) present₂ near₂ id ?_
      intro newBalance l₃ s₃ s₃' present₃ near₃ _
      refine besideThen (plainId wallet) present₃ near₃ id ?_
      intro walletId l₄ s₄ s₄' present₄ near₄ _
      refine besideThen (plainVersion wallet) present₄ near₄ id ?_
      intro version l₅ s₅ s₅' present₅ near₅ _
      refine besideThen (plainUpdateBalance walletId newBalance version) present₅ near₅ id ?_
      intro updated l₆ s₆ s₆' present₆ near₆ _
      cases updated with
      | false =>
        exact besidePlain (steadyThen plainRollback (fun _ => steadyPure none)) (presentNone present₆) near₆ id
      | true =>
        refine besideThen plainCommit present₆ near₆ id ?_
        intro _ l₇ s₇ s₇' present₇ near₇ _
        obtain ⟨a,loaded⟩ := present₇.2 wallet.key (by simp)
        obtain ⟨s₈,invalidated,db₈,statements₈⟩ := @aloneInvalidate pid choices outages s₇ l₇ wallet a loaded
        have skipped : (WalletService.invalidateAfterCommit wallet false l₇).alone (Course.exec pid choices outages)
            s₇' = some ((.ok (),l₇),s₇') := rfl
        rw [Task.aloneThen invalidated,Task.aloneThen skipped]
        have near₈ : Abreast s₈ s₇' := ⟨db₈.trans near₇.db,statements₈.trans near₇.statements,rfl⟩
        exact besidePlain (steadyThen (plainRefreshWallet wallet) (fun _ => steadyThen (plainModelValidate wallet)
          (fun _ => steadyPure _))) present₇ near₈ id
    · have missing := balanceMissing (fun a here => known ⟨a,here⟩)
      change Paired _ (((wallet.balance l₁).bind _).alone _ _) (((wallet.balance l₁).bind _).alone _ _)
      rw [missing]
      exact .ended (.same near₁ id present₁.1)

theorem besideTopUpAttempts {userId : UUID} {amount : Decimal} (left : Nat) (clean : l.dirty = [])
    (near : Abreast s s') :
    Paired (Beside Never Abreast)
      ((WalletService.topUpAttempts userId amount true left l).alone (Course.exec pid choices outages) s)
      ((WalletService.topUpAttempts userId amount false left l).alone (Course.exec pid choices outages) s') := by
  induction left generalizing l s s' with
  | zero => exact .ended (.same near id clean)
  | succ left ih =>
    refine Paired.bind (besideTopUpOnce clean near) ?_
    intro out s₁ out' s₁' related
    cases related with
    | same near₁ _ clean₁ =>
      obtain ⟨r,l₁⟩ := out
      cases r with
      | error e => exact .ended (.same near₁ id clean₁)
      | ok done =>
        cases done with
        | some response => exact .ended (.same near₁ id clean₁)
        | none => exact ih clean₁ near₁
    | apart raised => exact raised.elim

end

/-! The whole call. -/

section
variable {pid : Nat} {choices : Nat → Choice} {outages : Nat → Fault} {α : Type}

theorem besideResponse {broken : List (Op × Fault) → Prop} {t u : Py α} {wrap : α → Response} {s s' : Course}
    (h : Paired (Besides broken) ((t Session.new).alone (Course.exec pid choices outages) s)
      ((u Session.new).alone (Course.exec pid choices outages) s')) :
    Paired (Besides broken) (((do return wrap (← t) : Py Response) Session.new).alone (Course.exec pid choices outages) s)
      (((do return wrap (← u) : Py Response) Session.new).alone (Course.exec pid choices outages) s') := by
  refine Paired.bind h ?_
  intro out s₁ out' s₁' related
  cases related with
  | same level fine clean =>
    obtain ⟨r,l⟩ := out
    cases r with
    | ok a => exact .ended (.same level fine clean)
    | error e => exact .ended (.same level fine clean)
  | apart raised => exact .ended (.apart raised)

variable [Pydantic]

def Call.course (call : Call) (pid : Nat) (choices : Nat → Choice) (outages : Nat → Fault) (stores : Stores) :
    Option (Outcome × Course) :=
  call.program.alone (Course.exec pid choices outages) ⟨stores,0,[]⟩

def Call.Transparent (call : Call) (pid : Nat) (choices : Nat → Choice) (outages : Nat → Fault) (stores : Stores) :
    Prop :=
  (call.course pid choices outages stores).map (fun out => (out.1,out.2.stores.db.tables)) =
    (call.withoutRedis.course pid choices outages stores).map (fun out => (out.1,out.2.stores.db.tables))

inductive Ended (broken : List (Op × Fault) → Prop) : Outcome → Course → Outcome → Course → Prop where
  | same {outcome s s'} (tables : s.stores.db.tables = s'.stores.db.tables) (fine : ¬ broken s.commands) :
      Ended broken outcome s outcome s'
  | apart {response s s'} (raised : broken s.commands) : Ended broken (.error .redisError) s (.ok response) s'

theorem endedCourse {broken : List (Op × Fault) → Prop} {call : Call} {stores : Stores}
    (h : Paired (Besides broken)
      ((call.service Session.new).alone (Course.exec pid choices outages) ⟨stores,0,[]⟩)
      ((call.withoutRedis.service Session.new).alone (Course.exec pid choices outages) ⟨stores,0,[]⟩)) :
    Paired (Ended broken) (call.course pid choices outages stores)
      (call.withoutRedis.course pid choices outages stores) := by
  refine Paired.bind h ?_
  intro out s₁ out' s₁' related
  cases related with
  | same level fine clean => exact .ended (.same (congrArg (fun db => (db.release pid).tables) level) fine)
  | apart raised => exact .ended (.apart raised)

theorem besideCall {c : State} (reachable : Reachable c) {call : Call} (moves : call.movesMoney) :
    Paired (Ended (fun commands => call.pays ∧ DeleteRaised commands))
      (call.course c.running.length choices outages c.shared.stores)
      (call.withoutRedis.course c.running.length choices outages c.shared.stores) := by
  have intact := reachableIntact reachable
  have counted := (heldReachable reachable).counted
  have idle := (intact.unstarted _ counted.ge).1
  cases call with
  | topUp userId amount redisClient =>
    cases redisClient with
    | false => exact Paired.refl (fun _ _ => .same rfl (fun broken => broken.1)) _
    | true =>
      refine endedCourse (besideResponse ((besideTopUpAttempts _ rfl ⟨rfl,rfl,rfl⟩).mono ?_))
      intro out s out' s' related
      cases related with
      | same near fine clean => exact .same near.db (fun broken => broken.1) clean
      | apart raised => exact raised.elim
  | sendMoney userId request redisClient =>
    refine endedCourse (besideResponse ((besideSendMoney intact idle).mono ?_))
    intro out s out' s' related
    cases related with
    | same level fine clean => exact .same level (fun broken => fine broken.2) clean
    | apart raised => exact .apart ⟨trivial,raised⟩
  | _ => exact absurd moves id

theorem redisTransparent {c : State} (reachable : Reachable c) {call : Call} (moves : call.movesMoney) :
    call.Transparent c.running.length choices outages c.shared.stores ↔
      (call.pays → ∀ out, call.course c.running.length choices outages c.shared.stores = some out →
        ¬ DeleteRaised out.2.commands) := by
  have paired := @besideCall choices outages _ c reachable call moves
  simp only [Call.Transparent]
  generalize call.course c.running.length choices outages c.shared.stores = x at paired
  generalize call.withoutRedis.course c.running.length choices outages c.shared.stores = y at paired
  cases paired with
  | blocked => exact ⟨fun _ _ out same => (by cases same),fun _ => rfl⟩
  | ended related =>
    cases related with
    | same tables fine =>
      refine ⟨fun _ pays out same raised => ?_,fun _ => by simp [tables]⟩
      cases same
      exact fine ⟨pays,raised⟩
    | apart raised =>
      refine ⟨fun same => ?_,fun fine => absurd raised.2 (fine raised.1 _ rfl)⟩
      simp at same

end

section
open JsonMode

theorem redisTransparentTopUp : (Call.topUp 102 fiveDollars true).Transparent (stateAfter opening).running.length calm
    (fun _ => .raises) (stateAfter opening).shared.stores := by
  have moves : (Call.topUp 102 fiveDollars true).movesMoney := trivial
  exact (redisTransparent (stateReachable opening (by decide +kernel)) moves).mpr (fun pays => pays.elim)

theorem paidButRaised : ¬ ∀ (c : State) (call : Call) (choices : Nat → Choice) (outages : Nat → Fault), Reachable c →
    call.movesMoney → call.Transparent c.running.length choices outages c.shared.stores := by
  intro always
  have moves : (Call.sendMoney 102 rent true).movesMoney := trivial
  have same := always (stateAfter opening) (.sendMoney 102 rent true) (fun n => calm (400 + n))
    (fun n => if n = 2 then .raises else .none) (stateReachable opening (by decide +kernel)) moves
  have told := congrArg (Option.map (fun out => out.1.toOption.isSome)) same
  rw [Option.map_map,Option.map_map] at told
  exact absurd told (by decide +kernel)

end

end PaymentSystem
