import PaymentSystem.Behaviour.Commits

/-! Registration, whole. It ends in UserAlreadyExists by its lookup of the email alone; what
the hashing of the password or an INSERT raises is not caught. -/
namespace PaymentSystem
open Interleaving.Task (Ends endsThen)

inductive Declined (pid : Nat) (data : UserCreate) (w : World) : Exn → Prop where
  | failed {e} (failed : Failed pid w) : Declined pid data w e
  | found (here : w.tables.taken (.email data.email) = true) (once : ∀ c ∈ w.wal, c.pid ≠ pid) :
      Declined pid data w (.userAlreadyExists data.email)
  | unhashed {n} (here : .called pid (.hashPassword data.password) .none (.error .nullPasswordError) n ∈ w.log) :
      Declined pid data w .nullPasswordError
  | refused {e hash n} (here : .called pid (.insertUser data.email hash data.fullName) .none (.error e) n ∈ w.log) :
      Declined pid data w e
  | collision {userId n} (here : .called pid (.insertWallet userId) .none
      (.error (.integrityError .walletsPrimaryKey)) n ∈ w.log) :
      Declined pid data w (.integrityError .walletsPrimaryKey)

theorem Database.insertWalletRefused {db db' : Database} {pid : Nat} {row : Wallet} {e : Exn}
    (zero : row.balance.units = 0) (owner : (db.view pid).taken (.walletOwner row.userId) = false)
    (user : (db.view pid).taken (.user row.userId) = true)
    (h : db.insertWallet pid row = some (.error e,db')) : e = .integrityError .walletsPrimaryKey := by
  have nonneg : ¬ row.balance.units < 0 := by omega
  simp only [insertWallet,if_neg nonneg,user] at h
  split at h
  · contradiction
  · rename_i found
    cases h
    rcases uniqueCheckViolated found with rfl | ⟨_,taken⟩
    · rfl
    · rw [owner] at taken
      contradiction
  · cases h

section
variable {pid : Nat} {data : UserCreate} {w : World}

theorem registerEntry {user : User} {wallet : Wallet} {w₁ w₂ w₃ : World}
    (inserted : Working pid (.register data) [.user user.id,.email user.email] [.insertUser user] w)
    (freshUser : ∀ r ∈ (Write.insertUser user).resources, w.tables.taken r = false) (later₁ : Later pid w w₁)
    (freshWallet : ∀ r ∈ (Write.insertWallet wallet).resources, w₁.tables.taken r = false)
    (still₂ : w₂.tables = w₁.tables)
    (both : Working pid (.register data) [.wallet wallet.id,.walletOwner wallet.userId,.user user.id,.email user.email]
      [.insertUser user,.insertWallet wallet] w₂) (later₃ : Later pid w₂ w₃)
    (email : user.email = data.email) (fullName : user.fullName = data.fullName) (owner : wallet.userId = user.id)
    (zero : wallet.balance.units = 0) (dollars : wallet.currency = "USD") (one : wallet.version = 1) :
    Entry w₃.calls w₃.tables pid [.insertUser user,.insertWallet wallet] := by
  have still : ∀ r ∈ [Resource.wallet wallet.id,.walletOwner wallet.userId,.user user.id,.email user.email],
      w₁.tables.taken r = false → w₃.tables.taken r = false := by
    intro r here free
    rw [later₃.taken r ((both.locks r).mpr here),still₂,free]
  have users : ∀ r ∈ (Write.insertUser user).resources, w₁.tables.taken r = false := by
    intro r here
    rw [later₁.taken r ((inserted.locks r).mpr here)]
    exact freshUser r here
  exact .register (later₃.grows.call both.call) email fullName (still _ (by simp) (users _ (by simp [Write.resources])))
    (still _ (by simp) (users _ (by simp [Write.resources])))
    (still _ (by simp) (freshWallet _ (by simp [Write.resources])))
    (still _ (by simp) (freshWallet _ (by simp [Write.resources]))) owner zero dollars one

end

section
variable [Pydantic] {pid : Nat} {data : UserCreate} {w : World} {l : Session}

theorem oneOfEmail (intact : Intact w) {email : String} {first second : User} {more : List User}
    (rows : w.tables.usersByEmail email = first :: second :: more) : False := by
  have sub : (first :: second :: more).Sublist w.tables.users := rows ▸ List.filter_sublist
  have distinct := intact.paired.emails.sublist (sub.map User.email)
  have email₁ : first.email = email := by
    have here : first ∈ w.tables.usersByEmail email := rows ▸ List.mem_cons_self ..
    simpa [Tables.usersByEmail] using (List.mem_filter.mp here).2
  have email₂ : second.email = email := by
    have here : second ∈ w.tables.usersByEmail email := rows ▸ List.mem_cons_of_mem _ (List.mem_cons_self ..)
    simpa [Tables.usersByEmail] using (List.mem_filter.mp here).2
  simp [email₁,email₂] at distinct

theorem endsHashPassword {goal : Except Exn String → Session → World → Prop}
    (working : Working pid (.register data) [] [] w)
    (declined : ∀ e w₂, Intact w₂ → Uncommitted pid (.register data) w₂ → Declined pid data w₂ e → goal (.error e) l w₂)
    (hashed : ∀ hash w₂, Intact w₂ → Working pid (.register data) [] [] w₂ → goal (.ok hash) l w₂) :
    Ends machine outline pid (await (.hashPassword data.password)) l w goal := by
  refine endsSelect rfl rfl (fun _ pending _ => ⟨fun _ => pending,isNot rfl⟩) working
    (fun w₂ _ intact uncommitted failed => declined _ w₂ intact uncommitted (.failed failed)) ?_
  intro w₁ choice r s' later intact₁ working₁ ran intact'
  obtain ⟨rfl,⟨_,rfl⟩ | ⟨_,rfl⟩⟩ := checkedCases ran
  · exact hashed _ _ intact' (working₁.calledSame rfl rfl)
  · exact declined _ _ intact' (working₁.toUncommitted.called rfl rfl) (.unhashed calledLast)

theorem endsCreateUser {goal : Except Exn User → Session → World → Prop}
    (working : Working pid (.register data) [] [] w) (clean : l.dirty = []) (hash : String)
    (declined : ∀ e w₂, Intact w₂ → Uncommitted pid (.register data) w₂ → Declined pid data w₂ e → goal (.error e) l w₂)
    (staged : ∀ w₂ row, row.email = data.email → row.fullName = data.fullName →
      (∀ r ∈ (Write.insertUser row).resources, w₂.tables.taken r = false) → Intact w₂ →
      Working pid (.register data) [.user row.id,.email row.email] [.insertUser row] w₂ → goal (.ok row) l w₂) :
    Ends machine outline pid (UserRepository.create data.email hash data.fullName) l w goal := by
  apply endsExecute clean
  refine endsEarly rfl working (fun r _ => .inr (by simp)) (fun _ _ _ working₁ => ⟨data,working₁.call⟩)
    (fun w₂ _ intact uncommitted failed _ => declined _ w₂ intact uncommitted (.failed failed)) ?_
  intro w₁ choice r s' later intact₁ working₁ ran intact'
  obtain ⟨db',inserted,rfl⟩ := writesSome ran
  rcases Database.insertUserCases inserted with ⟨rfl,e,rfl,_⟩ | ⟨rfl,rfl,fresh⟩
  · exact declined e _ intact' (working₁.toUncommitted.called rfl rfl) (.refused calledLast)
  · refine staged _ _ rfl rfl ?_ intact' (working₁.staged rfl (.insertUser _) rfl)
    intro r here
    have free := (fresh r here).2
    rwa [Database.viewNothing working₁.pending] at free

theorem endsCreateWallet {goal : Except Exn Wallet → Session → World → Prop} {user : User}
    (working : Working pid (.register data) [.user user.id,.email user.email] [.insertUser user] w)
    (freshUser : w.tables.taken (.user user.id) = false) (clean : l.dirty = [])
    (declined : ∀ e w₂, Intact w₂ → Uncommitted pid (.register data) w₂ → Declined pid data w₂ e → goal (.error e) l w₂)
    (staged : ∀ w₁ w₂ row, Later pid w w₁ → row.userId = user.id → row.balance.units = 0 →
      row.currency = "USD" → row.version = 1 → (∀ r ∈ (Write.insertWallet row).resources, w₁.tables.taken r = false) →
      Intact w₂ → Working pid (.register data) [.wallet row.id,.walletOwner row.userId,.user user.id,.email user.email]
        [.insertUser user,.insertWallet row] w₂ → w₂.tables = w₁.tables → goal (.ok row) l w₂) :
    Ends machine outline pid (WalletRepository.create user.id) l w goal := by
  apply endsExecute clean
  refine endsEarly rfl working ?_ (fun _ _ _ working₁ => ⟨data,working₁.call⟩)
    (fun w₂ _ intact uncommitted failed _ => declined _ w₂ intact uncommitted (.failed failed)) ?_
  · intro r wanted
    cases Option.some.inj wanted
    exact .inr (by simp [Resource.rank])
  · intro w₁ choice r s' later intact₁ working₁ ran intact'
    have apart : ∀ resource, resource ∉ (Write.insertUser user).resources →
        (w₁.db.view pid).taken resource = w₁.tables.taken resource := by
      intro resource outside
      change (w₁.tables.applyAll (w₁.db.pending pid)).taken resource = _
      rw [working₁.pending]
      refine Tables.takenApplyAll ?_
      intro write here
      rw [List.mem_singleton.mp here]
      exact outside
    obtain ⟨db',inserted,rfl⟩ := writesSome ran
    rcases Database.insertWalletCases inserted with ⟨rfl,e,rfl,_⟩ | ⟨rfl,rfl,fresh⟩
    · have noUser : w₁.tables.taken (.user user.id) = false := by
        rw [later.taken _ ((working.locks _).mpr (by simp)),freshUser]
      have noOwner : (w₁.db.view pid).taken (.walletOwner user.id) = false := by
        rw [apart _ (by simp [Write.resources])]
        by_contra taken
        have owned := Tables.takenOwner.mp (Bool.not_eq_false _ ▸ taken)
        rw [intact₁.paired.owners] at owned
        obtain ⟨u,here,same⟩ := List.mem_map.mp owned
        rw [Tables.takenUser.mpr ⟨u,here,same⟩] at noUser
        contradiction
      have ownUser : (w₁.db.view pid).taken (.user user.id) = true := by
        change (w₁.tables.applyAll (w₁.db.pending pid)).taken (.user user.id) = true
        rw [working₁.pending]
        exact Tables.takenUser.mpr ⟨user,List.mem_append_right _ (List.mem_singleton_self _),rfl⟩
      cases Database.insertWalletRefused rfl noOwner ownUser inserted
      exact declined _ _ intact' (working₁.toUncommitted.called rfl rfl) (.collision calledLast)
    · refine staged w₁ _ _ later rfl rfl rfl rfl ?_ intact' (working₁.staged rfl (.insertWallet _) rfl) rfl
      intro r here
      rw [← apart r]
      · exact (fresh r here).2
      · simp only [Write.resources,List.mem_cons,List.not_mem_nil,or_false] at here ⊢
        rcases here with rfl | rfl <;> simp

theorem endsGetByEmail {goal : Except Exn (Option User) → Session → World → Prop} (intact : Intact w)
    (working : Working pid (.register data) [] [] w) (clean : l.dirty = [])
    (declined : ∀ e w₂, Intact w₂ → Uncommitted pid (.register data) w₂ → Declined pid data w₂ e → goal (.error e) l w₂)
    (missing : ∀ w₂, Intact w₂ → Working pid (.register data) [] [] w₂ → goal (.ok none) l w₂)
    (found : ∀ user w₂, Intact w₂ → Working pid (.register data) [] [] w₂ → user ∈ w₂.tables.users →
      user.email = data.email → goal (.ok (some user)) l w₂) :
    Ends machine outline pid (UserRepository.getByEmail data.email) l w goal := by
  apply endsThen intact
  apply endsExecute clean
  refine endsSelect rfl rfl (fun _ pending _ => ⟨fun _ => pending,isNot rfl⟩) working
    (fun w₂ _ intact uncommitted failed => declined _ w₂ intact uncommitted (.failed failed)) ?_
  intro w₁ choice r s' later intact₁ working₁ ran intact'
  cases ran
  have seen : (w₁.stores.db.view pid).usersByEmail data.email = w₁.tables.usersByEmail data.email := by
    rw [Database.viewNothing working₁.pending]
  have working₂ : Working pid (.register data) [] []
      (w₁.called pid (.selectUserByEmail data.email) .none
        (.ok ((w₁.stores.db.view pid).usersByEmail data.email)) w₁.stores) := working₁.calledSame rfl rfl
  rw [seen] at working₂ intact' ⊢
  cases rows : w₁.tables.usersByEmail data.email with
  | nil =>
    rw [rows] at working₂ intact'
    exact missing _ intact' working₂
  | cons user more =>
    cases more with
    | cons second more => exact (oneOfEmail intact₁ rows).elim
    | nil =>
      rw [rows] at working₂ intact'
      have here : user ∈ w₁.tables.usersByEmail data.email := rows ▸ List.mem_cons_self ..
      obtain ⟨inside,same⟩ := List.mem_filter.mp here
      exact found user _ intact' working₂ inside (by simpa using same)

theorem endsRegister {goal : Except Exn UserResponse → World → Prop} (intact : Intact w)
    (working : Working pid (.register data) [] [] w) (clean : l.dirty = [])
    (declined : ∀ e w₂, Wrecked pid w₂ → Declined pid data w₂ e → goal (.error e) w₂)
    (returned : ∀ user w₂, Committed pid (.register data) [] w₂ → user ∈ w₂.tables.users →
      user.email = data.email → goal (.ok (UserResponse.modelValidate user)) w₂) :
    Ends machine outline pid (UserService.register data) l w (fun r _ w => goal r w) := by
  have early : ∀ e w₂, Intact w₂ → Uncommitted pid (.register data) w₂ → Declined pid data w₂ e → goal (.error e) w₂ :=
    fun e w₂ _ uncommitted why => declined e w₂ uncommitted.wrecked why
  apply endsThen intact
  refine endsGetByEmail intact working clean early ?_ ?_
  · intro w₁ intact₁ working₁
    apply endsThen intact₁
    refine endsHashPassword working₁ early ?_
    intro hash w₂ intact₂ working₂
    apply endsThen intact₂
    refine endsCreateUser working₂ clean hash early ?_
    intro w₃ user email fullName freshUser intact₃ working₃
    apply endsThen intact₃
    refine endsCreateWallet working₃ (freshUser _ (by simp [Write.resources])) clean early ?_
    intro w₄ w₅ wallet later₄ owner zero dollars one freshWallet intact₅ working₅ tables₅
    apply endsThen intact₅
    refine endsCommit [] working₅ clean (by simp) ?_ (fun id moves => by simp [Commit.moves] at moves)
      (fun w₆ _ _ _ wrecked failed => declined _ w₆ wrecked (.failed failed)) ?_
    · intro w₆ later₆ _ _
      exact registerEntry working₃ freshUser later₄ freshWallet tables₅ working₅ later₆ email fullName owner zero
        dollars one
    · intro w₆ w₇ later₆ _ _ grows₇ intact₇ committed₇ tables₇
      have here : user ∈ w₇.tables.users := by
        rw [tables₇]
        exact List.mem_append_right _ (List.mem_singleton_self _)
      apply endsThen intact₇
      refine endsRefreshUser intact₇ committed₇ clean here
        (fun w₈ _ _ _ wrecked failed => declined _ w₈ wrecked (.failed failed)) ?_
      intro w₈ row grows₈ intact₈ committed₈ inside same
      have kept := (intact₇.evolves intact₈ grows₈).users.subset here
      cases Tables.uniqueBy intact₈.paired.userIds inside kept same
      exact returned user w₈ committed₈ inside email
  · intro user w₁ _ working₁ here same
    exact declined _ w₁ working₁.wrecked (.found (Tables.takenEmail.mpr ⟨user,here,same⟩) working₁.once)

end
end PaymentSystem
