import PaymentSystem.System.Schedule

/-! Disclosure. The history and the lookup by id show a transaction to its parties
only. The replay of a payment request shows whatever has the key, so it is safe in
runs where no request meets a key of others. -/
namespace PaymentSystem
open Interleaving (Event Program Reach)

def Call.reader : Call → Option UUID
  | .sendMoney userId _ _ => some userId
  | .getTransactionHistory userId _ _ _ => some userId
  | .getTransaction userId _ => some userId
  | _ => none

def IsParty (w : World) (userId : UUID) (t : TransactionResponse) : Prop :=
  ∃ wallet ∈ w.tables.wallets, wallet.userId = userId ∧
    (t.senderWalletId = wallet.id ∨ t.receiverWalletId = wallet.id)

def OwnKeys (c : State) : Happening → Prop
  | .step pid _ => ∀ userId request redisClient,
      c.shared.calls[pid]? = some (.sendMoney userId request redisClient) →
      ∀ x ∈ c.shared.tables.transactions, x.idempotencyKey = request.idempotencyKey →
        IsParty c.shared userId (TransactionResponse.modelValidate x)
  | _ => True

section
variable [Pydantic] {w w' : World} {c : State}

theorem IsParty.grows {userId : UUID} {t : TransactionResponse} (h : IsParty w userId t) (intact : Intact w)
    (intact' : Intact w') (grows : Grows w w') : IsParty w' userId t := by
  obtain ⟨wallet,here,owner,party⟩ := h
  obtain ⟨wallet',here',becomes⟩ := (intact.evolves intact' grows).wallets wallet here
  exact ⟨wallet',here',becomes.userId ▸ owner,becomes.id ▸ party⟩

theorem disclosedParty {pid : Nat} {userId : UUID} {t : TransactionResponse} (intact : Intact w)
    (h : Disclosed pid userId t w) : IsParty w userId t := by
  obtain ⟨x,_,rfl,row,n,read,owner,party⟩ := h
  obtain ⟨wallet,here,becomes⟩ := (intact.evolved n).wallets row read.row
  refine ⟨wallet,here,becomes.userId ▸ owner,?_⟩
  simp only [Tables.party,Bool.or_eq_true,beq_iff_eq,becomes.id] at party
  exact party

theorem newParty {c' : State} {e : Happening} {x : Transaction} (intact : Intact c.shared)
    (intact' : Intact c'.shared) (step : machine.next c e = some c') (here : x ∈ c'.shared.tables.transactions)
    (new : x ∉ c.shared.tables.transactions) :
    ∃ pid choice userId request redisClient, e = .step pid choice ∧
      c'.shared.calls[pid]? = some (.sendMoney userId request redisClient) ∧
      IsParty c'.shared userId (TransactionResponse.modelValidate x) := by
  rw [intact'.replayed] at here
  rcases nextWal step with same | ⟨pid,choice,next,rfl,_,_,more⟩
  · rw [same,← intact.replayed] at here
    exact absurd here new
  · have legal := intact'.legal
    rw [more] at legal here
    obtain ⟨entry,_⟩ := legal.last
    rw [replaySnoc,← intact.replayed] at here
    rw [← intact.replayed] at entry
    have tables : c'.shared.tables = c.shared.tables.applyAll (c.shared.db.pending pid) := by
      rw [intact'.replayed,more,replaySnoc,intact.replayed]
    have evolves := entry.evolves intact.keyed
    generalize c.shared.db.pending pid = writes at entry here tables evolves
    cases entry with
    | register => exact absurd here new
    | topUp => exact absurd here new
    | @send userId request redisClient sender receiver debited credited row call senderHere senderOwner
        receiverHere receiverOwner different covered debit credit records =>
      rcases List.mem_append.mp here with here | here
      · exact absurd here new
      · cases List.mem_singleton.mp here
        obtain ⟨sender',hs',becomes⟩ := evolves.wallets sender senderHere
        exact ⟨pid,choice,userId,request,redisClient,rfl,call,sender',tables ▸ hs',becomes.userId ▸ senderOwner,
          .inl (records.sender.trans becomes.id)⟩

theorem callBefore {c' : State} {e : Happening} {pid : Nat} {outcome : Outcome} {call : Call}
    (reachable : Reachable c) (step : machine.next c e = some c') (done : c.outcome pid = some outcome)
    (called : c'.shared.calls[pid]? = some call) : c.shared.calls[pid]? = some call := by
  obtain ⟨call',concluded⟩ := (reachableReport reachable done).concluded
  have same := (nextGrows step).call concluded.called
  rw [called] at same
  cases same
  exact concluded.called

theorem replayParty (later : Reach machine OwnKeys initial c) :
    ∀ pid userId request redisClient t, c.shared.calls[pid]? = some (.sendMoney userId request redisClient) →
      c.outcome pid = some (.ok (.payment t)) → IsParty c.shared userId t := by
  induction later with
  | refl => intro pid userId request redisClient t called; simp [initial,World.empty] at called
  | @next c c' e before own step ih =>
    intro pid userId request redisClient t called done
    have reachable : Reachable c := before.weaken (fun _ _ _ => trivial)
    have reachable' : Reachable c' := .next reachable trivial step
    have intact := reachableIntact reachable
    have intact' := reachableIntact reachable'
    rcases nextOutcome step done with old | ⟨choice,rfl⟩ | ⟨_,stopped⟩
    · exact (ih pid userId request redisClient t (callBefore reachable step old called) old).grows intact intact'
        (nextGrows step)
    · obtain ⟨call,concluded⟩ := (reachableReport reachable' done).concluded
      cases Option.some.inj (called.symm.trans concluded.called)
      obtain ⟨x,here,key,rfl⟩ := concluded.answered
      by_cases new : x ∈ c.shared.tables.transactions
      · obtain ⟨op,next,r,s',_,_,rfl⟩ := nextStep step
        exact (own userId request redisClient called x new key).grows intact intact' (nextGrows step)
      · obtain ⟨_,_,userId',request',redisClient',same,called',party⟩ := newParty intact intact' step here new
        cases same
        cases Option.some.inj (called.symm.trans called')
        exact party
    · contradiction

end

theorem disclosedToParties [Pydantic] {c : State} (later : Reach machine OwnKeys initial c) :
    ∀ pid call userId response, c.shared.calls[pid]? = some call → call.reader = some userId →
      c.outcome pid = some (.ok response) → ∀ t ∈ response.transactions, IsParty c.shared userId t := by
  intro pid call userId response called reader done t listed
  have reachable : Reachable c := later.weaken (fun _ _ _ => trivial)
  have intact := reachableIntact reachable
  obtain ⟨call',concluded⟩ := (reachableReport reachable done).concluded
  cases Option.some.inj (called.symm.trans concluded.called)
  have answered := concluded.answered
  cases call with
  | sendMoney user request redisClient =>
    cases Option.some.inj reader
    cases response with
    | payment t' =>
      cases List.mem_singleton.mp listed
      exact replayParty later pid userId request redisClient t called done
    | _ => exact absurd answered id
  | getTransactionHistory user page pageSize status =>
    cases Option.some.inj reader
    cases response with
    | history list => exact disclosedParty intact (answered t listed)
    | _ => exact absurd answered id
  | getTransaction user transactionId =>
    cases Option.some.inj reader
    cases response with
    | transaction t' =>
      cases List.mem_singleton.mp listed
      exact disclosedParty intact answered
    | _ => exact absurd answered id
  | _ => contradiction

def ownKeys (c : State) : Happening → Bool
  | .step pid _ => match c.shared.calls[pid]? with
      | some (.sendMoney userId request _) => c.shared.tables.transactions.all (fun x =>
          x.idempotencyKey != request.idempotencyKey ||
            c.shared.tables.wallets.any (fun wallet => wallet.userId == userId && Tables.party wallet.id x))
      | _ => true
  | _ => true

theorem ownKeysSure (c : State) (e : Happening) (h : ownKeys c e = true) : OwnKeys c e := by
  cases e with
  | step pid choice =>
    intro userId request redisClient called x here key
    simp only [ownKeys,called,List.all_eq_true] at h
    have found := h x here
    simp only [key,bne_self_eq_false,Bool.false_or,List.any_eq_true,Bool.and_eq_true,beq_iff_eq] at found
    obtain ⟨wallet,inside,owner,party⟩ := found
    simp only [Tables.party,Bool.or_eq_true,beq_iff_eq] at party
    exact ⟨wallet,inside,owner,party⟩
  | _ => trivial

open JsonMode in
theorem disclosedToPartiesRent : IsParty (stateAfter rentTwice).shared 102
    ⟨407,103,203,⟨3000,-2⟩,"USD","COMPLETED","rent",none,⟨2024,1,1,0,0,0,0⟩⟩ :=
  disclosedToParties (stateMeets rentTwice ownKeysSure (by decide +kernel) (by decide +kernel)) 4
    (.sendMoney 102 rent false) 102
    (.payment ⟨407,103,203,⟨3000,-2⟩,"USD","COMPLETED","rent",none,⟨2024,1,1,0,0,0,0⟩⟩)
    (by decide +kernel) rfl (by decide +kernel) _ (List.mem_singleton_self _)

def borrowedKey : List Happening :=
  opening ++ (serve (.register (.named "c@bank.org")) 3 7 500 ++
    (serve (.sendMoney 102 rent false) 4 11 400 ++ serve (.sendMoney 502 rent false) 5 2 600))

open JsonMode in
def keyBorrowed : Run initial := ⟨borrowedKey,by decide +kernel⟩

open JsonMode in
theorem replayDisclosesOthers : ¬ ∀ c : State, Reachable c → ∀ pid call userId response,
    c.shared.calls[pid]? = some call → call.reader = some userId → c.outcome pid = some (.ok response) →
    ∀ t ∈ response.transactions, IsParty c.shared userId t := by
  intro always
  have party := always (stateAfter borrowedKey) keyBorrowed.reaches 5
    (.sendMoney 502 rent false) 502
    (.payment ⟨407,103,203,⟨3000,-2⟩,"USD","COMPLETED","rent",none,⟨2024,1,1,0,0,0,0⟩⟩)
    (by decide +kernel) rfl (by decide +kernel) _ (List.mem_singleton_self _)
  have outsider : ¬ IsParty (stateAfter borrowedKey).shared 502
      ⟨407,103,203,⟨3000,-2⟩,"USD","COMPLETED","rent",none,⟨2024,1,1,0,0,0,0⟩⟩ := by
    unfold IsParty
    decide +kernel
  exact outsider party

end PaymentSystem
