import PaymentSystem.System.Schedule

/-! Idempotency. A key is charged at most once, every response of a request names
that one payment, and the two tiers that answer for it agree. -/
namespace PaymentSystem
open JsonText (Json)
open Interleaving (Program Task)

def Call.carries (key : String) : Call → Bool
  | .sendMoney _ request _ => decide (request.idempotencyKey = key)
  | _ => false

def World.charges (w : World) (key : String) : List Commit :=
  w.wal.filter (fun c => w.calls[c.pid]?.any (Call.carries key))

def Moves (t : Tables) (x : Transaction) (writes : List Write) : Prop :=
  ∃ sender ∈ t.wallets, ∃ receiver ∈ t.wallets, ∃ debited credited : Money,
    sender.id = x.senderWalletId ∧ receiver.id = x.receiverWalletId ∧
    debited.units = sender.balance.units - x.amount.units ∧
    credited.units = receiver.balance.units + x.amount.units ∧
    writes = [.updateWallet sender.id debited (sender.version + 1),
      .updateWallet receiver.id credited (receiver.version + 1),.insertTransaction x]

section
variable {calls : List Call} {wal : List Commit} {t : Tables} {pid : Nat} {writes : List Write} {key : String}

theorem Entry.charges (entry : Entry calls t pid writes) (key : String) :
    (t.applyAll writes).transactionsByKey key = t.transactionsByKey key ∧ calls[pid]?.any (Call.carries key) = false ∨
      ∃ x, (t.applyAll writes).transactionsByKey key = t.transactionsByKey key ++ [x] ∧
        calls[pid]?.any (Call.carries key) = true ∧ x.idempotencyKey = key ∧ Moves t x writes := by
  cases entry with
  | register call => exact .inl ⟨rfl,by simp [call,Call.carries]⟩
  | topUp call => exact .inl ⟨rfl,by simp [call,Call.carries]⟩
  | @send userId request redisClient sender receiver debited credited row call senderHere senderOwner
      receiverHere receiverOwner different covered debit credit records =>
    have rows : (t.applyAll [.updateWallet sender.id debited (sender.version + 1),
        .updateWallet receiver.id credited (receiver.version + 1),.insertTransaction row]).transactions =
        t.transactions ++ [row] := rfl
    by_cases carried : request.idempotencyKey = key
    · have same : row.idempotencyKey = key := records.key.trans carried
      refine .inr ⟨row,?_,by simp [call,Call.carries,carried],same,sender,senderHere,receiver,receiverHere,debited,
        credited,records.sender.symm,records.receiver.symm,records.amount ▸ debit,records.amount ▸ credit,rfl⟩
      simp only [Tables.transactionsByKey,rows,List.filter_append]
      simp [same]
    · have other : row.idempotencyKey ≠ key := fun same => carried (records.key.symm.trans same)
      refine .inl ⟨?_,by simp [call,Call.carries,carried]⟩
      simp only [Tables.transactionsByKey,rows,List.filter_append]
      simp [other]

theorem Legal.charges (h : Legal calls wal) (key : String) :
    (wal.filter (fun c => calls[c.pid]?.any (Call.carries key))).length =
        ((replay wal).transactionsByKey key).length ∧
      ∀ c ∈ wal, calls[c.pid]?.any (Call.carries key) = true → ∃ earlier rest, wal = earlier ++ c :: rest ∧
        ∃ x ∈ (replay wal).transactionsByKey key, Moves (replay earlier) x c.writes := by
  induction h with
  | nil => exact ⟨rfl,by simp⟩
  | @commit wal pid writes before entry once ih =>
    rw [replaySnoc,List.filter_append]
    rcases entry.charges key with ⟨same,other⟩ | ⟨x,more,carries,keyed,moves⟩
    · rw [same]
      refine ⟨by simp [other,ih.1],?_⟩
      intro c hc carries
      rcases List.mem_append.mp hc with hc | hc
      · obtain ⟨earlier,rest,rfl,x,hx,moves⟩ := ih.2 c hc carries
        exact ⟨earlier,rest ++ [⟨pid,writes⟩],by simp,x,hx,moves⟩
      · rw [List.mem_singleton.mp hc,other] at carries
        contradiction
    · rw [more]
      refine ⟨by simp [carries,ih.1],?_⟩
      intro c hc carries'
      rcases List.mem_append.mp hc with hc | hc
      · obtain ⟨earlier,rest,rfl,y,hy,moves'⟩ := ih.2 c hc carries'
        exact ⟨earlier,rest ++ [⟨pid,writes⟩],by simp,y,List.mem_append_left _ hy,moves'⟩
      · cases List.mem_singleton.mp hc
        exact ⟨wal,[],rfl,x,List.mem_append_right _ (List.mem_singleton_self _),moves⟩

end

theorem chargedOnce [Pydantic] {c : State} (reachable : Reachable c) (key : String) :
    (c.shared.tables.transactionsByKey key).length ≤ 1 ∧
      (c.shared.charges key).length = (c.shared.tables.transactionsByKey key).length ∧
      (∀ charge ∈ c.shared.charges key, ∃ earlier rest, c.shared.wal = earlier ++ charge :: rest ∧
        ∃ x ∈ c.shared.tables.transactionsByKey key, Moves (replay earlier) x charge.writes) ∧
      ∀ pid userId request redisClient response,
        c.shared.calls[pid]? = some (.sendMoney userId request redisClient) → request.idempotencyKey = key →
        c.outcome pid = some (.ok response) → ∃ x, c.shared.tables.transactionsByKey key = [x] ∧
          ∃ t, response = .payment t ∧ t.id = x.id := by
  have intact := reachableIntact reachable
  obtain ⟨count,moves⟩ := intact.legal.charges key
  have unique : (c.shared.tables.transactionsByKey key).length ≤ 1 := by
    rcases intact.keyed.keyLookup key with none | ⟨x,_,_,one⟩
    · simp [none]
    · simp [one]
  refine ⟨unique,intact.replayed ▸ count,?_,?_⟩
  · intro charge here
    obtain ⟨inside,carries⟩ := List.mem_filter.mp here
    rw [intact.replayed]
    exact moves charge inside carries
  · intro pid userId request redisClient response called carried done
    obtain ⟨call,concluded⟩ := (reachableReport reachable done).concluded
    cases Option.some.inj (called.symm.trans concluded.called)
    have answered := concluded.answered
    cases response with
    | payment t =>
      obtain ⟨x,here,same,rfl⟩ := answered
      exact ⟨x,same.trans carried ▸ intact.keyed.byKey here,_,rfl,rfl⟩
    | _ => exact absurd answered id

open JsonMode in
theorem chargedOnceRent : ∃ x, (stateAfter rentTwice).shared.tables.transactionsByKey "rent" = [x] ∧ x.id = 407 := by
  obtain ⟨x,one,t,same,id⟩ := (chargedOnce (stateReachable rentTwice (by decide +kernel)) "rent").2.2.2 4 102 rent
    false (.payment ⟨407,103,203,⟨3000,-2⟩,"USD","COMPLETED","rent",none,⟨2024,1,1,0,0,0,0⟩⟩)
    (by decide +kernel) rfl (by decide +kernel)
  cases same
  exact ⟨x,one,id.symm⟩

/-! The two tiers. -/

def World.quiet (pid : Nat) (choice : Choice) (s : Stores) (op : Op) : Option (Res op × Stores) :=
  attempt pid s op {choice with fault := .none}

theorem aloneCheckKey {key : String} {l : Session} {pid : Nat} {choice : Choice} {s : Stores} {doc : Json}
    {text : String} (named : key ≠ "") (cached : s.redis (CacheKeys.idempotency key) = some text)
    (nonempty : text ≠ "") (loaded : JsonText.loads text = some doc) :
    (IdempotencyService.checkKey key true l).alone (World.quiet pid choice) s = some ((.ok (some doc),l),s) := by
  have got : World.quiet pid choice s (.redisGet (CacheKeys.idempotency key)) = some (.ok (some text),s) := by
    simp only [World.quiet,attempt,perform,reads,cached]
  simp only [IdempotencyService.checkKey,if_neg named,if_true]
  apply Task.aloneCatch
  refine (Task.aloneThen (Task.aloneAwait got)).trans ?_
  simp only [if_neg nonempty,loaded]
  rfl

theorem aloneGetByIdempotencyKey {key : String} {pid : Nat} {choice : Choice} {s : Stores} {x : Transaction}
    (fits : Database.textFits key = true) (idle : s.db.pending pid = [])
    (one : s.db.tables.transactionsByKey key = [x]) :
    (TransactionRepository.getByIdempotencyKey key Session.new).alone (World.quiet pid choice) s =
      some ((.ok (some x),Session.new),s) := by
  have got : World.quiet pid choice s (.selectTransactionByKey key) = some (.ok [x],s) := by
    simp only [World.quiet,attempt,perform,checked,if_pos fits,reads,Database.viewNothing idle,one]
  have executed : (execute (.selectTransactionByKey key) Session.new).alone (World.quiet pid choice) s =
      some ((.ok [x],Session.new),s) :=
    aloneExecute rfl got
  simp only [TransactionRepository.getByIdempotencyKey]
  exact (Task.aloneThen executed).trans rfl

theorem tiersAgree [Pydantic] {c : State} (reachable : Reachable c) {key text : String}
    (cached : c.shared.redis (CacheKeys.idempotency key) = some text) :
    ∃ x, c.shared.tables.transactionsByKey key = [x] ∧
      (∃ doc, JsonText.loads text = some doc ∧
        (doc.member? "response").bind TransactionResponse.ofDocument = some (TransactionResponse.modelValidate x)) ∧
      ∀ pid userId (request : PaymentRequest) choice redisClient, request.idempotencyKey = key →
        c.shared.db.pending pid = [] →
        (PaymentService.sendMoney userId request redisClient Session.new).alone (World.quiet pid choice)
          c.shared.stores = some ((.ok (TransactionResponse.modelValidate x),Session.new),c.shared.stores) := by
  have intact := reachableIntact reachable
  obtain ⟨x,here,keyed,rfl⟩ := intact.replies key text cached
  have one : c.shared.tables.transactionsByKey key = [x] := keyed ▸ intact.keyed.byKey here
  refine ⟨x,one,⟨replyDocument x,replyLoads x,dumpUndone _⟩,?_⟩
  intro pid userId request choice redisClient carried idle
  have named : key ≠ "" := by
    have long := request.keyLength.1
    rintro rfl
    rw [carried] at long
    simp at long
  simp only [PaymentService.sendMoney,carried]
  cases redisClient with
  | true =>
    rw [Task.aloneThen (aloneCheckKey named cached (replyNonempty x) (replyLoads x))]
    simp only [replyTruthy,replayReply]
    rfl
  | false =>
    have skipped : (IdempotencyService.checkKey key false Session.new).alone (World.quiet pid choice)
        c.shared.stores = some ((.ok none,Session.new),c.shared.stores) := by
      simp only [IdempotencyService.checkKey,if_neg named,Bool.false_eq_true,if_false]
      rfl
    rw [Task.aloneThen skipped]
    simp only [Option.filter_none]
    rw [Task.aloneThen (aloneGetByIdempotencyKey (keyed ▸ intact.keyed.keysFit x here) idle one)]
    rfl

open JsonMode in
theorem tiersAgreeRent : ∃ text x,
    (stateAfter (opening ++ serve (.sendMoney 102 rent true) 3 14 400)).shared.redis
      (CacheKeys.idempotency "rent") = some text ∧
    (stateAfter (opening ++ serve (.sendMoney 102 rent true) 3 14 400)).shared.tables.transactionsByKey "rent" =
      [x] := by
  have stored : ((stateAfter (opening ++ serve (.sendMoney 102 rent true) 3 14 400)).shared.redis
      (CacheKeys.idempotency "rent")).isSome = true := by decide +kernel
  obtain ⟨text,cached⟩ := Option.isSome_iff_exists.mp stored
  obtain ⟨x,one,_⟩ := tiersAgree
    (stateReachable (opening ++ serve (.sendMoney 102 rent true) 3 14 400) (by decide +kernel)) cached
  exact ⟨text,x,cached,one⟩

/-! What a response says. -/

theorem atMostOne {α : Type} {xs : List α} (short : xs.length ≤ 1) {a b : α} (ha : a ∈ xs) (hb : b ∈ xs) : a = b := by
  match xs, short with
  | [x], _ => exact (List.mem_singleton.mp ha).trans (List.mem_singleton.mp hb).symm

theorem sendNamesPayment [Pydantic] {c : State} (reachable : Reachable c) {pid : Nat} {userId : UUID}
    {request : PaymentRequest} {redisClient : Bool} {response : Response}
    (called : c.shared.calls[pid]? = some (.sendMoney userId request redisClient))
    (done : c.outcome pid = some (.ok response)) :
    ∃ x ∈ c.shared.tables.transactions, response = .payment (TransactionResponse.modelValidate x) ∧
      x.idempotencyKey = request.idempotencyKey ∧ x.status = .completed ∧
      ∃ charge ∈ c.shared.wal, ∃ userId₀ request₀ redisClient₀,
        c.shared.calls[charge.pid]? = some (.sendMoney userId₀ request₀ redisClient₀) ∧
        (∃ sender ∈ c.shared.tables.wallets, ∃ receiver ∈ c.shared.tables.wallets, sender.userId = userId₀ ∧
          receiver.userId = request₀.receiverId ∧ x.Records sender receiver request₀) ∧
        (CommittedBy pid c.shared → userId₀ = userId ∧ request₀ = request) := by
  have intact := reachableIntact reachable
  obtain ⟨call,concluded⟩ := (reachableReport reachable done).concluded
  cases Option.some.inj (called.symm.trans concluded.called)
  have answered := concluded.answered
  cases response with
  | payment t =>
    obtain ⟨x,here,same,rfl⟩ := answered
    have replayed := here
    rw [intact.replayed] at replayed
    obtain ⟨charge,charged,userId₀,request₀,redisClient₀,called₀,sender,hs,receiver,hr,owner,owner',records⟩ :=
      intact.legal.origin replayed
    refine ⟨x,here,rfl,same,records.status,charge,charged,userId₀,request₀,redisClient₀,called₀,
      ⟨sender,intact.replayed ▸ hs,receiver,intact.replayed ▸ hr,owner,owner',records⟩,?_⟩
    rintro ⟨own,committed,rfl⟩
    have short : (c.shared.charges request.idempotencyKey).length ≤ 1 := by
      obtain ⟨unique,count,_⟩ := chargedOnce reachable request.idempotencyKey
      omega
    have first : charge ∈ c.shared.charges request.idempotencyKey :=
      List.mem_filter.mpr ⟨charged,by simp [called₀,Call.carries,← records.key,same]⟩
    have second : own ∈ c.shared.charges request.idempotencyKey :=
      List.mem_filter.mpr ⟨committed,by simp [called,Call.carries]⟩
    rw [atMostOne short first second,called] at called₀
    cases called₀
    exact ⟨rfl,rfl⟩
  | _ => exact absurd answered id

def rentRaised : PaymentRequest := {rent with amount := fiftyDollars}

def rentThenRaised : List Happening :=
  opening ++ (serve (.sendMoney 102 rent false) 3 11 400 ++ serve (.sendMoney 102 rentRaised false) 4 2 500)

open JsonMode in
def rentRaisedAfter : Run initial := ⟨rentThenRaised,by decide +kernel⟩

open JsonMode in
theorem sendNamesPaymentRent : ∃ x ∈ (stateAfter rentThenRaised).shared.tables.transactions,
    x.idempotencyKey = "rent" ∧ x.status = .completed := by
  have reachable : Reachable (stateAfter rentThenRaised) := rentRaisedAfter.reaches
  obtain ⟨x,here,_,key,status,_⟩ := sendNamesPayment reachable
    (show (stateAfter rentThenRaised).shared.calls[3]? = some (.sendMoney 102 rent false) by decide +kernel)
    (show (stateAfter rentThenRaised).outcome 3 = some (.ok (.payment
      ⟨407,103,203,⟨3000,-2⟩,"USD","COMPLETED","rent",none,⟨2024,1,1,0,0,0,0⟩⟩)) by decide +kernel)
  exact ⟨x,here,key,status⟩

def PaymentExists (w : World) (userId : UUID) (request : PaymentRequest) (t : TransactionResponse) : Prop :=
  ∃ x ∈ w.tables.transactions, x.id = t.id ∧ x.idempotencyKey = request.idempotencyKey ∧ x.status = .completed ∧
    (∃ sender ∈ w.tables.wallets, sender.userId = userId ∧ x.senderWalletId = sender.id) ∧
    (∃ receiver ∈ w.tables.wallets, receiver.userId = request.receiverId ∧ x.receiverWalletId = receiver.id) ∧
    x.amount.units = request.amount.cents ∧ x.currency = request.currency ∧ x.description = request.description

open JsonMode in
theorem reusedKeyAnswered : ¬ ∀ c : State, Reachable c → ∀ pid userId request redisClient t,
    c.shared.calls[pid]? = some (.sendMoney userId request redisClient) →
    c.outcome pid = some (.ok (.payment t)) → PaymentExists c.shared userId request t := by
  intro always
  have paid := always (stateAfter rentThenRaised) rentRaisedAfter.reaches 4 102
    rentRaised false ⟨407,103,203,⟨3000,-2⟩,"USD","COMPLETED","rent",none,⟨2024,1,1,0,0,0,0⟩⟩
    (by decide +kernel) (by decide +kernel)
  have missing : ¬ PaymentExists (stateAfter rentThenRaised).shared 102 rentRaised
      ⟨407,103,203,⟨3000,-2⟩,"USD","COMPLETED","rent",none,⟨2024,1,1,0,0,0,0⟩⟩ := by
    unfold PaymentExists
    decide +kernel
  exact missing paid

end PaymentSystem
