import PaymentSystem.Model.Postgres

/-! What a write does to the rows: which keys are in use afterwards, what stays as
it was, and how a wallet row can change over time. -/
namespace PaymentSystem
namespace Tables
variable {t : Tables} {id : UUID} {balance : Money} {version : Int}

@[simp] theorem updateWalletIds :
    (t.updateWallet id balance version).wallets.map Wallet.id = t.wallets.map Wallet.id := by
  simp only [updateWallet,List.map_map]
  apply List.map_congr_left
  intro w _
  simp only [Function.comp]
  split <;> rfl

@[simp] theorem updateWalletOwners :
    (t.updateWallet id balance version).wallets.map Wallet.userId = t.wallets.map Wallet.userId := by
  simp only [updateWallet,List.map_map]
  apply List.map_congr_left
  intro w _
  simp only [Function.comp]
  split <;> rfl

@[simp] theorem updateWalletTransactions :
    (t.updateWallet id balance version).transactions = t.transactions := rfl

theorem updateWalletMem {w : Wallet} (h : w ∈ (t.updateWallet id balance version).wallets) :
    (w ∈ t.wallets ∧ w.id ≠ id) ∨
      ∃ old ∈ t.wallets, old.id = id ∧ w = {old with balance := balance, version := version} := by
  obtain ⟨old,here,same⟩ := List.mem_map.mp h
  by_cases this : old.id = id
  · rw [if_pos this] at same
    exact .inr ⟨old,here,this,same.symm⟩
  · rw [if_neg this] at same
    subst same
    exact .inl ⟨here,this⟩

theorem updateWalletOther {w : Wallet} (here : w ∈ t.wallets) (other : w.id ≠ id) :
    w ∈ (t.updateWallet id balance version).wallets :=
  List.mem_map.mpr ⟨w,here,if_neg other⟩

theorem updateWalletSelf {w : Wallet} (here : w ∈ t.wallets) (this : w.id = id) :
    {w with balance := balance, version := version} ∈ (t.updateWallet id balance version).wallets :=
  List.mem_map.mpr ⟨w,here,if_pos this⟩

/-! Keys in use. -/

theorem takenUser : t.taken (.user id) = true ↔ ∃ u ∈ t.users, u.id = id := by
  simp [taken]

theorem takenEmail {email : String} : t.taken (.email email) = true ↔ ∃ u ∈ t.users, u.email = email := by
  simp [taken]

theorem takenWallet : t.taken (.wallet id) = true ↔ id ∈ t.wallets.map Wallet.id := by
  simp [taken]

theorem takenOwner : t.taken (.walletOwner id) = true ↔ id ∈ t.wallets.map Wallet.userId := by
  simp [taken]

theorem takenTransaction : t.taken (.transaction id) = true ↔ ∃ x ∈ t.transactions, x.id = id := by
  simp [taken]

theorem takenKey {key : String} :
    t.taken (.idempotencyKey key) = true ↔ ∃ x ∈ t.transactions, x.idempotencyKey = key := by
  simp [taken]

@[simp] theorem takenUpdate (r : Resource) :
    (t.updateWallet id balance version).taken r = t.taken r := by
  cases r with
  | wallet a => rw [Bool.eq_iff_iff,takenWallet,takenWallet,updateWalletIds]
  | walletOwner a => rw [Bool.eq_iff_iff,takenOwner,takenOwner,updateWalletOwners]
  | _ => rfl

theorem takenApply {write : Write} {r : Resource} (outside : r ∉ write.resources) :
    (t.apply write).taken r = t.taken r := by
  cases write with
  | updateWallet a b v => exact takenUpdate r
  | insertUser row =>
    have other : r ≠ .user row.id ∧ r ≠ .email row.email := by simpa [Write.resources] using outside
    cases r with
    | user id =>
      have apart : row.id ≠ id := fun same => other.1 (same ▸ rfl)
      simp [apply,taken,apart]
    | email value =>
      have apart : row.email ≠ value := fun same => other.2 (same ▸ rfl)
      simp [apply,taken,apart]
    | _ => rfl
  | insertWallet row =>
    have other : r ≠ .wallet row.id ∧ r ≠ .walletOwner row.userId := by
      simpa [Write.resources] using outside
    cases r with
    | wallet id =>
      have apart : row.id ≠ id := fun same => other.1 (same ▸ rfl)
      simp [apply,taken,apart]
    | walletOwner id =>
      have apart : row.userId ≠ id := fun same => other.2 (same ▸ rfl)
      simp [apply,taken,apart]
    | _ => rfl
  | insertTransaction row =>
    have other : r ≠ .transaction row.id ∧ r ≠ .idempotencyKey row.idempotencyKey := by
      simpa [Write.resources] using outside
    cases r with
    | transaction id =>
      have apart : row.id ≠ id := fun same => other.1 (same ▸ rfl)
      simp [apply,taken,apart]
    | idempotencyKey value =>
      have apart : row.idempotencyKey ≠ value := fun same => other.2 (same ▸ rfl)
      simp [apply,taken,apart]
    | _ => rfl

theorem takenApplyAll {writes : List Write} {r : Resource} (outside : ∀ w ∈ writes, r ∉ w.resources) :
    (t.applyAll writes).taken r = t.taken r := by
  induction writes generalizing t with
  | nil => rfl
  | cons write rest ih =>
    have first := outside write (List.mem_cons_self ..)
    have later : ∀ w ∈ rest, r ∉ w.resources := fun w hw => outside w (List.mem_cons_of_mem _ hw)
    exact (ih later).trans (takenApply first)

theorem takenStay {write : Write} {r : Resource} (h : t.taken r = true) : (t.apply write).taken r = true := by
  cases write with
  | updateWallet a b v => exact (takenUpdate r).trans h
  | insertUser row => cases r <;> simp_all [apply,taken]
  | insertWallet row => cases r <;> simp_all [apply,taken]
  | insertTransaction row => cases r <;> simp_all [apply,taken]

theorem takenStays {writes : List Write} {r : Resource} (h : t.taken r = true) :
    (t.applyAll writes).taken r = true := by
  induction writes generalizing t with
  | nil => exact h
  | cons write rest ih => exact ih (takenStay h)

theorem walletsByIdApply {write : Write} (outside : .wallet id ∉ write.resources) :
    (t.apply write).walletsById id = t.walletsById id := by
  cases write with
  | insertUser row => rfl
  | insertTransaction row => rfl
  | insertWallet row =>
    have other : row.id ≠ id := by
      rintro rfl
      exact outside (List.mem_cons_self ..)
    simp [apply,walletsById,other]
  | updateWallet a b v =>
    have other : a ≠ id := by
      rintro rfl
      exact outside (List.mem_cons_self ..)
    simp only [apply,updateWallet,walletsById]
    induction t.wallets with
    | nil => rfl
    | cons w rest ih =>
      simp only [List.map_cons,List.filter_cons,ih]
      by_cases this : w.id = a
      · have not : ¬ w.id = id := this ▸ other
        simp [this,other]
      · simp [this]

theorem walletsByIdApplyAll {writes : List Write} (outside : ∀ w ∈ writes, .wallet id ∉ w.resources) :
    (t.applyAll writes).walletsById id = t.walletsById id := by
  induction writes generalizing t with
  | nil => rfl
  | cons write rest ih =>
    have first := outside write (List.mem_cons_self ..)
    have later : ∀ w ∈ rest, .wallet id ∉ w.resources := fun w hw => outside w (List.mem_cons_of_mem _ hw)
    exact (ih later).trans (walletsByIdApply first)

theorem walletsByIdMem {w : Wallet} : w ∈ t.walletsById id ↔ w ∈ t.wallets ∧ w.id = id := by
  simp [walletsById]

theorem walletsByUserIdMem {w : Wallet} : w ∈ t.walletsByUserId id ↔ w ∈ t.wallets ∧ w.userId = id := by
  simp [walletsByUserId]

theorem transactionsByKeyMem {x : Transaction} {key : String} :
    x ∈ t.transactionsByKey key ↔ x ∈ t.transactions ∧ x.idempotencyKey = key := by
  simp [transactionsByKey]

theorem transactionsByIdMem {x : Transaction} :
    x ∈ t.transactionsById id ↔ x ∈ t.transactions ∧ x.id = id := by
  simp [transactionsById]

/-! Keys as lookups need them. -/

structure Keyed (t : Tables) : Prop where
  walletIds : (t.wallets.map Wallet.id).Nodup
  owners : (t.wallets.map Wallet.userId).Nodup
  transactionIds : (t.transactions.map Transaction.id).Nodup
  keys : (t.transactions.map Transaction.idempotencyKey).Nodup
  parties : ∀ x ∈ t.transactions,
    x.senderWalletId ∈ t.wallets.map Wallet.id ∧ x.receiverWalletId ∈ t.wallets.map Wallet.id
  keysFit : ∀ x ∈ t.transactions, Database.textFits x.idempotencyKey = true

theorem Keyed.update (keyed : t.Keyed) (id : UUID) (balance : Money) (version : Int) :
    (t.updateWallet id balance version).Keyed := {
  walletIds := by rw [updateWalletIds]; exact keyed.walletIds
  owners := by rw [updateWalletOwners]; exact keyed.owners
  transactionIds := keyed.transactionIds
  keys := keyed.keys
  parties := by
    intro x hx
    rw [updateWalletIds]
    exact keyed.parties x hx
  keysFit := keyed.keysFit }

theorem uniqueBy {α β : Type} {f : α → β} {rows : List α} (nodup : (rows.map f).Nodup) {a b : α}
    (ha : a ∈ rows) (hb : b ∈ rows) (same : f a = f b) : a = b :=
  List.inj_on_of_nodup_map nodup ha hb same

theorem filterUnique {α β : Type} [DecidableEq β] {f : α → β} {rows : List α} (nodup : (rows.map f).Nodup)
    {a : α} (ha : a ∈ rows) : rows.filter (fun x => f x == f a) = [a] := by
  induction rows with
  | nil => simp at ha
  | cons x rest ih =>
    rw [List.map_cons,List.nodup_cons] at nodup
    obtain ⟨fresh,nodup⟩ := nodup
    rcases List.mem_cons.mp ha with rfl | ha
    · have none : rest.filter (fun x => f x == f a) = [] := by
        apply List.filter_eq_nil_iff.mpr
        intro y hy same
        exact fresh (List.mem_map.mpr ⟨y,hy,by simpa using same⟩)
      simp [none]
    · have other : f x ≠ f a := fun same => fresh (List.mem_map.mpr ⟨a,ha,same.symm⟩)
      simp [other,ih nodup ha]

theorem filterAtMost {α β : Type} [DecidableEq β] {f : α → β} {rows : List α} (nodup : (rows.map f).Nodup)
    (b : β) : rows.filter (fun x => f x == b) = [] ∨
      ∃ a ∈ rows, f a = b ∧ rows.filter (fun x => f x == b) = [a] := by
  by_cases here : ∃ a ∈ rows, f a = b
  · obtain ⟨a,ha,rfl⟩ := here
    exact .inr ⟨a,ha,rfl,filterUnique nodup ha⟩
  · refine .inl (List.filter_eq_nil_iff.mpr ?_)
    intro x hx same
    exact here ⟨x,hx,by simpa using same⟩

theorem Keyed.byId (keyed : t.Keyed) {w : Wallet} (here : w ∈ t.wallets) : t.walletsById w.id = [w] :=
  filterUnique keyed.walletIds here

theorem Keyed.byOwner (keyed : t.Keyed) {w : Wallet} (here : w ∈ t.wallets) :
    t.walletsByUserId w.userId = [w] :=
  filterUnique keyed.owners here

theorem Keyed.byKey (keyed : t.Keyed) {x : Transaction} (here : x ∈ t.transactions) :
    t.transactionsByKey x.idempotencyKey = [x] :=
  filterUnique keyed.keys here

theorem Keyed.byTransactionId (keyed : t.Keyed) {x : Transaction} (here : x ∈ t.transactions) :
    t.transactionsById x.id = [x] :=
  filterUnique keyed.transactionIds here

theorem Keyed.ownerLookup (keyed : t.Keyed) (userId : UUID) : t.walletsByUserId userId = [] ∨
    ∃ w ∈ t.wallets, w.userId = userId ∧ t.walletsByUserId userId = [w] :=
  filterAtMost keyed.owners userId

theorem Keyed.keyLookup (keyed : t.Keyed) (key : String) : t.transactionsByKey key = [] ∨
    ∃ x ∈ t.transactions, x.idempotencyKey = key ∧ t.transactionsByKey key = [x] :=
  filterAtMost keyed.keys key

theorem Keyed.transactionLookup (keyed : t.Keyed) (id : UUID) : t.transactionsById id = [] ∨
    ∃ x ∈ t.transactions, x.id = id ∧ t.transactionsById id = [x] :=
  filterAtMost keyed.transactionIds id

end Tables

/-! Wallet rows over time. -/

def Wallet.Becomes (a b : Wallet) : Prop :=
  a = b ∨ (a.id = b.id ∧ a.userId = b.userId ∧ a.currency = b.currency ∧ a.createdAt = b.createdAt ∧
    a.version < b.version)

theorem Wallet.Becomes.trans {a b c : Wallet} (h : a.Becomes b) (h' : b.Becomes c) : a.Becomes c := by
  rcases h with rfl | ⟨id,owner,currency,created,version⟩
  · exact h'
  · rcases h' with rfl | ⟨id',owner',currency',created',version'⟩
    · exact .inr ⟨id,owner,currency,created,version⟩
    · exact .inr ⟨id.trans id',owner.trans owner',currency.trans currency',created.trans created',
        version.trans version'⟩

theorem Wallet.Becomes.id {a b : Wallet} (h : a.Becomes b) : a.id = b.id := by
  rcases h with rfl | h
  · rfl
  · exact h.1

theorem Wallet.Becomes.userId {a b : Wallet} (h : a.Becomes b) : a.userId = b.userId := by
  rcases h with rfl | h
  · rfl
  · exact h.2.1

theorem Wallet.Becomes.eq {a b : Wallet} (h : a.Becomes b) (same : b.version = a.version) : a = b := by
  rcases h with rfl | h
  · rfl
  · exact absurd h.2.2.2.2 (by omega)

structure Tables.Evolves (t t' : Tables) : Prop where
  wallets : ∀ w ∈ t.wallets, ∃ w' ∈ t'.wallets, w.Becomes w'
  users : t.users <+: t'.users
  transactions : t.transactions <+: t'.transactions

theorem Tables.Evolves.refl (t : Tables) : t.Evolves t :=
  ⟨fun w hw => ⟨w,hw,.inl rfl⟩,List.prefix_refl _,List.prefix_refl _⟩

theorem Tables.Evolves.trans {a b c : Tables} (h : a.Evolves b) (h' : b.Evolves c) : a.Evolves c := by
  refine ⟨?_,h.users.trans h'.users,h.transactions.trans h'.transactions⟩
  intro w hw
  obtain ⟨w',hw',become⟩ := h.wallets w hw
  obtain ⟨w'',hw'',become'⟩ := h'.wallets w' hw'
  exact ⟨w'',hw'',become.trans become'⟩

end PaymentSystem
