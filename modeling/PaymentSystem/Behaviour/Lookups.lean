import PaymentSystem.Guarantees.Statuses

/-! What an outcome tells of the rows that the request looked up, after how many commits:
the wallet an uncached balance is of, the transaction that is shown or withheld, the user
that a registration returns. -/
namespace PaymentSystem
open Interleaving (Program)
open Interleaving.Task (Ends Traced endsThen endsLocal endsMono endsTraced neverThen neverAwait neverWeaken)

structure Absent (pid : Nat) (w : World) (id : UUID) (n : Nat) : Prop where
  record : ∃ rec ∈ w.log, rec.pid = pid ∧ rec.commits = n
  within : n ≤ w.wal.length
  none : (tablesAt w.wal n).transactionsById id = []

structure OwnRow (pid : Nat) (w : World) (userId : UUID) (row : Wallet) (n : Nat) : Prop where
  read : ReadAt pid w row n
  owner : row.userId = userId

def LooksUp (pid : Nat) (w : World) : Call → Outcome → Prop
  | .register data, .ok (.user user) =>
      ∃ x ∈ w.tables.users, x.email = data.email ∧ user = UserResponse.modelValidate x
  | .getWallet userId false, .ok (.wallet wallet) => ∃ row n, OwnRow pid w userId row n ∧
      wallet.id = row.id ∧ wallet.balance = row.balance.toDecimal
  | .getWallet userId false, .error .walletNotFound => ∃ n, Walletless pid w userId n
  | .getBalanceFast userId false, .ok (.balance balance) => ∃ row n, OwnRow pid w userId row n ∧
      balance = row.balance.toDecimal
  | .getBalanceFast userId false, .error .walletNotFound => ∃ n, Walletless pid w userId n
  | .getTransaction userId id, .ok (.transaction t) => ∃ row n, OwnRow pid w userId row n ∧
      ∃ x ∈ w.tables.transactions, x.id = id ∧ t = TransactionResponse.modelValidate x ∧ Tables.party row.id x = true
  | .getTransaction userId id, .error (.http status detail) =>
      (status = 404 ∧ detail = "Wallet not found" ∧ ∃ n, Walletless pid w userId n) ∨
      (status = 404 ∧ detail = "Transaction not found" ∧ ∃ n, Absent pid w id n) ∨
      (status = 403 ∧ ∃ row n, OwnRow pid w userId row n ∧
        ∃ x ∈ w.tables.transactions, x.id = id ∧ Tables.party row.id x = false)
  | _, _ => True

def Finds {α : Type} (pid : Nat) (call : Call) (f : α → Response) (r : Except Exn α) (_ : Session) (w : World) : Prop :=
  LooksUp pid w call (r.map f)

section
variable {pid : Nat} {call : Call} {outcome : Outcome} {w w' : World}

theorem Absent.grows {id : UUID} {n : Nat} (h : Absent pid w id n) (grows : Grows w w') : Absent pid w' id n := by
  obtain ⟨rec,here,known⟩ := h.record
  exact ⟨⟨rec,grows.member here,known⟩,h.within.trans grows.wal.length_le,
    by rw [grows.tablesAt h.within]; exact h.none⟩

theorem OwnRow.grows {userId : UUID} {row : Wallet} {n : Nat} (h : OwnRow pid w userId row n) (grows : Grows w w') :
    OwnRow pid w' userId row n := ⟨h.read.grows grows,h.owner⟩

theorem LooksUp.grows [Pydantic] (h : LooksUp pid w call outcome) (intact : Intact w) (intact' : Intact w')
    (grows : Grows w w') : LooksUp pid w' call outcome := by
  have evolves := intact.evolves intact' grows
  unfold LooksUp at h ⊢
  split at h
  · obtain ⟨x,here,known⟩ := h
    exact ⟨x,evolves.users.subset here,known⟩
  · obtain ⟨row,n,own,known⟩ := h
    exact ⟨row,n,own.grows grows,known⟩
  · obtain ⟨n,none⟩ := h
    exact ⟨n,none.grows grows⟩
  · obtain ⟨row,n,own,known⟩ := h
    exact ⟨row,n,own.grows grows,known⟩
  · obtain ⟨n,none⟩ := h
    exact ⟨n,none.grows grows⟩
  · obtain ⟨row,n,own,x,here,known⟩ := h
    exact ⟨row,n,own.grows grows,x,evolves.transactions.subset here,known⟩
  · rcases h with ⟨status,detail,n,none⟩ | ⟨status,detail,n,none⟩ | ⟨status,row,n,own,x,here,known⟩
    · exact .inl ⟨status,detail,n,none.grows grows⟩
    · exact .inr (.inl ⟨status,detail,n,none.grows grows⟩)
    · exact .inr (.inr ⟨status,row,n,own.grows grows,x,evolves.transactions.subset here,known⟩)
  · trivial

end

section
variable [Pydantic]

/-! The lookups. -/

variable {pid : Nat} {w : World} {data : UserCreate} {userId transactionId : UUID}

theorem endsLooksUpWallet (intact : Intact w) (working : Working pid (.getWallet userId false) [] [] w) :
    Ends machine outline pid (WalletService.getWallet userId false) Session.new w
      (Finds pid (.getWallet userId false) .wallet) := by
  apply endsThen intact
  refine endsGetByUserId intact working rfl userId (fun _ _ _ _ _ => trivial)
    (fun w₂ n _ _ _ none => ⟨n,none⟩) ?_
  intro w₁ row n _ _ _ read _ owner
  change Ends machine outline pid (WalletResponse.modelValidate ⟨row.id⟩) (Session.new.merge row) w₁ _
  unfold Ends
  rw [modelValidateLoaded (newMerge row)]
  exact ⟨row,n,⟨read,owner⟩,rfl,rfl⟩

theorem endsLooksUpBalance (intact : Intact w) (working : Working pid (.getBalanceFast userId false) [] [] w) :
    Ends machine outline pid (WalletService.getBalanceFast userId false) Session.new w
      (Finds pid (.getBalanceFast userId false) .balance) := by
  apply endsThen intact
  refine endsGetByUserId intact working rfl userId (fun _ _ _ _ _ => trivial)
    (fun w₂ n _ _ _ none => ⟨n,none⟩) ?_
  intro w₁ row n _ _ _ read _ owner
  change Ends machine outline pid (WalletRef.balance ⟨row.id⟩) (Session.new.merge row) w₁ _
  unfold Ends
  rw [balanceLoaded (newMerge row)]
  exact ⟨row,n,⟨read,owner⟩,rfl⟩

theorem endsLooksUpTransaction (intact : Intact w)
    (working : Working pid (.getTransaction userId transactionId) [] [] w) :
    Ends machine outline pid (PaymentApi.getTransaction userId transactionId) Session.new w
      (Finds pid (.getTransaction userId transactionId) .transaction) := by
  apply endsThen intact
  refine endsGetByUserId intact working rfl userId (fun _ _ _ _ _ => trivial)
    (fun w₂ n _ _ _ none => .inl ⟨rfl,rfl,n,none⟩) ?_
  intro w₁ row n grows₁ intact₁ working₁ read _ owner
  apply endsThen intact₁
  apply endsThen intact₁
  refine endsExecute rfl ?_
  apply endsCall
  intro w₂ later₂ intact₂
  have working₂ := working₁.later later₂
  refine ⟨⟨?_,⟨fun _ => working₂.pending,fun _ => .inr ⟨userId,transactionId,working₂.call⟩⟩,
    startedOf working₂.call⟩,?_⟩
  · intro r wanted
    simp [Op.wants] at wanted
  · intro choice r s' attempted intact'
    rcases attemptCases attempted with ⟨fault,ran⟩ | ⟨fault,rfl⟩
    · cases ran
      have seen : (w₂.stores.db.view pid).transactionsById transactionId =
          w₂.tables.transactionsById transactionId := by
        rw [Database.viewNothing working₂.pending]
      rw [seen] at intact' ⊢
      have own : OwnRow pid (w₂.called pid (.selectTransactionById transactionId) choice.fault
          (.ok (w₂.tables.transactionsById transactionId)) w₂.stores) userId row n :=
        ⟨read.grows (later₂.grows.trans (calledGrows (List.prefix_refl _))),owner⟩
      rcases intact₂.keyed.transactionLookup transactionId with none | ⟨x,here,key,one⟩
      · rw [none]
        refine .inr (.inl ⟨rfl,rfl,w₂.wal.length,⟨_,calledLast,rfl,rfl⟩,Nat.le_refl _,?_⟩)
        change (tablesAt w₂.wal w₂.wal.length).transactionsById transactionId = []
        rw [intact₂.now,none]
      · rw [one] at own ⊢
        refine endsLocal (idLoaded (newMerge row)) ?_
        by_cases outsider : x.senderWalletId ≠ row.attributes.id ∧ x.receiverWalletId ≠ row.attributes.id
        · simp only [if_pos outsider]
          refine .inr (.inr ⟨rfl,row,n,own,x,here,key,?_⟩)
          simp only [Tables.party,Bool.or_eq_false_iff,beq_eq_false_iff_ne]
          exact outsider
        · simp only [if_neg outsider]
          refine ⟨row,n,own,x,here,key,rfl,?_⟩
          simp only [Tables.party,Bool.or_eq_true,beq_iff_eq]
          by_contra neither
          exact outsider (not_or.mp neither)
    · trivial

theorem endsEnrolled (intact : Intact w) (working : Working pid (.register data) [] [] w) :
    Ends machine outline pid (UserService.register data) Session.new w
      (fun r l w => Finds pid (.register data) .user r l w) :=
  endsRegister intact working rfl (fun _ _ _ _ => trivial) (fun user _ _ here email => ⟨user,here,email,rfl⟩)

theorem endsFinds {α : Type} {t : Py α} {f : α → Response} {call : Call} (intact : Intact w)
    (h : Ends machine outline pid t Session.new w (Finds pid call f)) :
    Ends machine outline pid (do return f (← t)) Session.new w (fun r _ w => LooksUp pid w call r) :=
  Interleaving.Task.endsBind h intact (fun _ _ _ _ known => known) (fun _ _ _ _ known => known)

theorem concludableLooksUp : Concludable (fun pid w call outcome => LooksUp pid w call outcome) where
  stays := fun _ _ _ _ _ intact intact' grows _ known => known.grows intact intact' grows
  stopped := by
    intro pid w call _
    cases call with
    | getWallet userId redisClient => cases redisClient <;> trivial
    | getBalanceFast userId redisClient => cases redisClient <;> trivial
    | _ => trivial
  service := by
    intro pid w call intact working
    have unknown : (∀ w r, LooksUp pid w call r) →
        Ends machine outline pid call.service Session.new w (fun r _ w => LooksUp pid w call r) :=
      fun all => endsMono (endsService intact working) intact (fun r _ w _ _ => all w r)
    cases call with
    | register data => exact endsFinds intact (endsEnrolled intact working)
    | getWallet userId redisClient =>
      cases redisClient with
      | false => exact endsFinds intact (endsLooksUpWallet intact working)
      | true => exact unknown (fun _ _ => trivial)
    | getBalanceFast userId redisClient =>
      cases redisClient with
      | false => exact endsFinds intact (endsLooksUpBalance intact working)
      | true => exact unknown (fun _ _ => trivial)
    | getTransaction userId transactionId => exact endsFinds intact (endsLooksUpTransaction intact working)
    | _ => exact unknown (fun _ _ => trivial)

theorem reachableLooksUp {c : State} (reachable : Reachable c) {call : Call} {outcome : Outcome}
    (called : c.shared.calls[pid]? = some call) (done : c.outcome pid = some outcome) :
    LooksUp pid c.shared call outcome := concludableLooksUp.reachable reachable called done

/-! The email that is in use already. -/

def Exn.isKnown : Exn → Bool
  | .userAlreadyExists _ => true
  | _ => false

def FoundEmail (data : UserCreate) (trace : List Talk) : Prop :=
  ∃ rows : List User, rows ≠ [] ∧ (⟨.selectUserByEmail data.email,.ok rows⟩ : Talk) ∈ trace

def Spots {α : Type} (data : UserCreate) (r : Except Exn α) (_ : Session) (trace : List Talk) : Prop :=
  EndsIn Exn.isKnown r → FoundEmail data trace

omit [Pydantic] in
theorem unknownAwait (op : Op) : Firm (EndsIn Exn.isKnown) (await op) := by
  apply neverAwait
  rintro (e | v) credible known
  · rcases credible e rfl with same | ⟨_,check⟩
    · rw [same] at known
      cases op <;> simp [EndsIn,Exn.isKnown,Op.failure,Op.isRedis] at known
    · cases e <;> simp [EndsIn,Exn.isKnown,Exn.ofCheck] at known check
  · exact known

omit [Pydantic] in
theorem unknownRefresh (user : User) : Firm (EndsIn Exn.isKnown) (refreshUser user) := by
  refine firmThen (firmStatement (unknownAwait _)) ?_
  intro rows
  split
  · exact firmPure _
  · exact firmThrow rfl

omit [Pydantic] in
theorem tracedExecute {op : Op} {goal : Res op → Session → List Talk → Prop} {l : Session} {trace : List Talk}
    (clean : l.dirty = []) (rest : ∀ r, Credible ⟨op,r⟩ → goal r l (trace ++ [⟨op,r⟩])) :
    Traced Credible (execute op) l trace goal := by
  unfold Traced Ends
  rw [executeClean clean]
  exact endsTraced trivial rest

omit [Pydantic] in
theorem tracedRegister (data : UserCreate) {l : Session} (clean : l.dirty = []) : Traced Credible
    (UserService.register data) l [] (Spots data) := by
  apply endsThen trivial
  apply endsThen trivial
  refine tracedExecute clean ?_
  rintro (e | rows) credible
  · intro known
    rcases credible e rfl with same | ⟨checks,_⟩
    · rw [same] at known
      simp [EndsIn,Exn.isKnown,Op.failure,Op.isRedis] at known
    · contradiction
  · have found : (⟨.selectUserByEmail data.email,.ok rows⟩ : Talk) ∈
        ([] ++ [⟨.selectUserByEmail data.email,.ok rows⟩] : List Talk) := List.mem_singleton_self _
    cases rows with
    | nil =>
      -- behind the lookup nothing raises UserAlreadyExists
      have rest : Firm (EndsIn Exn.isKnown) (do
          let passwordHash : String ← await (.hashPassword data.password)
          let user ← UserRepository.create data.email passwordHash data.fullName
          let _ ← WalletRepository.create user.id
          commit
          let user ← refreshUser user
          pure (UserResponse.modelValidate user)) :=
        firmThen (unknownAwait _) (fun _ => firmThen (firmStatement (unknownAwait _)) (fun _ =>
          firmThen (firmStatement (unknownAwait _)) (fun _ => firmThen (firmCommitted (unknownAwait _)) (fun _ =>
            firmThen (unknownRefresh _) (fun _ => firmPure _)))))
      have unspotted := endsMono (rest l [⟨.selectUserByEmail data.email,.ok []⟩] clean) trivial
        (fun r _ trace _ known => (fun marked => absurd marked known.2 : Spots data r _ trace))
      exact unspotted
    | cons user more =>
      cases more with
      | nil => exact fun _ => ⟨_,by simp,found⟩
      | cons other more => exact fun _ => ⟨_,by simp,found⟩

theorem spotsProgram (data : UserCreate) : Interleaving.Traces Credible (fun _ _ => True)
    (fun outcome trace => EndsIn Exn.isKnown outcome → FoundEmail data trace) (Call.program (.register data)) [] := by
  have service : Traced Credible (Call.service (.register data)) Session.new [] (Spots data) :=
    Interleaving.Task.endsBind (tracedRegister data rfl) trivial (fun _ _ _ _ known => known)
      (fun _ _ _ _ known => known)
  refine Interleaving.safeBind service trivial ?_
  rintro ⟨r,l⟩ trace _ known
  refine Interleaving.tracesCall trivial ?_
  rintro reply _ marked
  obtain ⟨rows,nonempty,here⟩ := known marked
  exact ⟨rows,nonempty,List.mem_append_left _ here⟩

theorem emailSeen {c : State} (reachable : Reachable c) {rec : Record} {call : Call} (here : rec ∈ c.shared.log)
    (called : c.shared.calls[rec.pid]? = some call) {email : String} {rows : List User}
    (talk : rec.talk rec.pid = some ⟨.selectUserByEmail email,.ok rows⟩) :
    rows = (tablesAt c.shared.wal rec.commits).usersByEmail email := by
  refine (reachRecords (Q := fun w rec _ => rec.commits ≤ w.wal.length ∧ ∀ rows : List User, rec.talk rec.pid =
    some ⟨.selectUserByEmail email,.ok rows⟩ → rows = (tablesAt w.wal rec.commits).usersByEmail email)
    ?_ ?_ reachable rec here call called).2 rows talk
  · rintro w w' rec _ _ _ grows ⟨within,known⟩
    refine ⟨within.trans grows.wal.length_le,?_⟩
    rw [grows.tablesAt within]
    exact known
  · intro c c' e rec call before _ step logged _
    have intact := reachableIntact before
    have grows := nextGrows step
    cases logged with
    | stop => exact ⟨grows.wal.length_le,fun rows talk => by contradiction⟩
    | @step pid choice op next r s' running ran =>
      refine ⟨grows.wal.length_le,fun rows talk => ?_⟩
      have same : (⟨op,r⟩ : Talk) = ⟨.selectUserByEmail email,.ok rows⟩ :=
        Option.some.inj ((if_pos rfl : _ = some (⟨op,r⟩ : Talk)).symm.trans talk)
      cases same
      change rows = (tablesAt c'.shared.wal c.shared.wal.length).usersByEmail email
      rw [grows.tablesAt (Nat.le_refl _),intact.now]
      rcases attemptCases ran with ⟨_,performed⟩ | ⟨_,failed⟩
      · have pending := (reachableDue before running).2.1.1 rfl
        have view := Database.viewNothing pending
        cases performed
        exact congrArg (fun t : Tables => t.usersByEmail email) view
      · contradiction

theorem knownSeen {c : State} (reachable : Reachable c) {pid : Nat} {email : String}
    (called : c.shared.calls[pid]? = some (.register data)) (done : c.outcome pid = some (.error (.userAlreadyExists email))) :
    ∃ rec ∈ c.shared.log, rec.pid = pid ∧ (tablesAt c.shared.wal rec.commits).usersByEmail data.email ≠ [] := by
  rcases talksEnd reachable called done (spotsProgram data) with found | stopped
  · obtain ⟨rows,nonempty,talk⟩ := found rfl
    obtain ⟨rec,here,rfl,same⟩ := talksMem talk
    exact ⟨rec,here,rfl,emailSeen reachable here called same ▸ nonempty⟩
  · cases stopped

end
end PaymentSystem
