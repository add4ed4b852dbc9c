import PaymentSystem.Service.Login
import PaymentSystem.Behaviour.Lookups
import PaymentSystem.System.Staging

/-! Where the password hash of a user comes from, and what a login and a profile find. A
user row is inserted by the registration of its email only, with a hash that was computed
for the password of that registration. -/
namespace PaymentSystem
open Interleaving (Reach Traces tracer tracing)
open Interleaving.Task (Ends endsThen endsTraced endsMono)

def Hashed (data : UserCreate) (trace : List Talk) (op : Op) : Prop :=
  ∀ email passwordHash fullName, op = .insertUser email passwordHash fullName → email = data.email ∧
    fullName = data.fullName ∧ (⟨.hashPassword data.password,.ok passwordHash⟩ : Talk) ∈ trace

abbrev Hashes {α : Type} (data : UserCreate) (t : Py α) (l : Session) (trace : List Talk)
    (goal : Except Exn α → Session → List Talk → Prop) : Prop :=
  Ends tracer (tracing (fun _ => True) (Hashed data)) 0 t l trace goal

def Anyhow {α : Type} (_ : Except Exn α) (_ : Session) (_ : List Talk) : Prop := True

section
variable {α : Type} {data : UserCreate} {l : Session} {trace : List Talk} {op : Op}

theorem hashedOther (other : ∀ email passwordHash fullName, op ≠ .insertUser email passwordHash fullName) :
    Hashed data trace op := fun _ _ _ same => absurd same (other _ _ _)

theorem hashesExecute {goal : Res op → Session → List Talk → Prop} (clean : l.dirty = []) (due : Hashed data trace op)
    (rest : ∀ r, goal r l (trace ++ [⟨op,r⟩])) : Hashes data (execute op) l trace goal := by
  unfold Hashes Ends
  rw [executeClean clean]
  exact endsTraced due (fun r _ => rest r)

theorem hashesCommit {goal : Except Exn Unit → Session → List Talk → Prop} (clean : l.dirty = [])
    (rest : ∀ r, goal r l (trace ++ [⟨.commit,r⟩])) : Hashes data commit l trace goal := by
  unfold Hashes Ends
  rw [commitClean clean]
  exact endsTraced (hashedOther (by simp)) (fun r _ => rest r)

theorem hashesRegister (clean : l.dirty = []) : Hashes data (UserService.register data) l [] Anyhow := by
  apply endsThen trivial
  apply endsThen trivial
  refine hashesExecute clean (hashedOther (by simp)) ?_
  rintro (e | rows)
  · trivial
  · cases rows with
    | cons user more => cases more <;> trivial
    | nil =>
      change Hashes data (_ >>= _) l _ Anyhow
      apply endsThen trivial
      refine endsTraced (hashedOther (by simp)) ?_
      rintro (e | passwordHash) _
      · trivial
      apply endsThen trivial
      refine hashesExecute clean ?_ ?_
      · rintro email hash fullName same
        cases same
        exact ⟨rfl,rfl,by simp⟩
      rintro (e | user)
      · trivial
      apply endsThen trivial
      refine hashesExecute clean (hashedOther (by simp)) ?_
      rintro (e | wallet)
      · trivial
      apply endsThen trivial
      refine hashesCommit clean ?_
      rintro (e | _)
      · trivial
      apply endsThen trivial
      apply endsThen trivial
      refine hashesExecute clean (hashedOther (by simp)) ?_
      rintro (e | rows)
      · trivial
      cases rows <;> trivial

theorem hashesProgram [Pydantic] : Traces (fun _ => True) (Hashed data) (fun _ _ => True) (Call.program (.register data)) [] := by
  have service : Hashes data (Call.service (.register data)) Session.new [] Anyhow :=
    Interleaving.Task.endsBind (hashesRegister rfl) trivial (fun _ _ _ _ _ => trivial) (fun _ _ _ _ _ => trivial)
  refine Interleaving.safeBind service trivial ?_
  rintro ⟨r,l⟩ trace _ _
  exact Interleaving.tracesCall (hashedOther (by simp)) (fun _ _ => trivial)

end

/-! Inserted users, from the statement to the commit. -/

def Inserts (pid : Nat) (x : User) (w : World) : Prop :=
  ∃ r, (⟨.insertUser x.email x.passwordHash x.fullName,r⟩ : Talk) ∈ w.talks pid

structure Inserted (w : World) : Prop where
  pending : ∀ pid x, Write.insertUser x ∈ w.db.pending pid → Inserts pid x w
  committed : ∀ commit ∈ w.wal, ∀ x, Write.insertUser x ∈ commit.writes → Inserts commit.pid x w

section
variable {pid : Nat} {x : User} {w w' : World}

theorem Inserts.grows (h : Inserts pid x w) (grows : Grows w w') : Inserts pid x w' := by
  obtain ⟨r,here⟩ := h
  obtain ⟨rec,inside,_,talk⟩ := talksMem here
  exact ⟨r,talksOfMem (grows.member inside) talk⟩

end

section
variable [Pydantic] {c c' : State} {e : Happening} {x : User} {pid : Nat}

theorem insertedNext (inserted : Inserted c.shared) (step : machine.next c e = some c') : Inserted c'.shared := by
  have grows := nextGrows step
  refine ⟨?_,?_⟩
  · intro other y here
    cases e with
    | start job =>
      cases Option.some.inj step
      exact (inserted.pending other y here).grows grows
    | step pid choice =>
      obtain ⟨op,next,r,s',_,attempted,rfl⟩ := nextStep step
      rcases attemptStages attempted here with old | ⟨rfl,stages⟩
      · exact (inserted.pending other y old).grows grows
      · cases stages
        exact ⟨r,talksOfMem calledLast (if_pos rfl)⟩
    | stop pid =>
      obtain ⟨_,rfl⟩ := nextStop step
      exact (inserted.pending other y (releasedMem here)).grows grows
    | drift key =>
      cases Option.some.inj step
      exact (inserted.pending other y here).grows grows
  · intro commit here y inside
    rcases nextWal step with same | ⟨pid,choice,next,_,_,_,more⟩
    · exact (inserted.committed commit (same ▸ here) y inside).grows grows
    · rw [more] at here
      rcases List.mem_append.mp here with old | added
      · exact (inserted.committed commit old y inside).grows grows
      · cases List.mem_singleton.mp added
        exact (inserted.pending pid y inside).grows grows

theorem reachableInserted (reachable : Reachable c) : Inserted c.shared := by
  induction reachable with
  | refl => exact ⟨fun _ _ here => by contradiction,fun _ here => by contradiction⟩
  | next _ _ step ih => exact insertedNext ih step

theorem committedHashed (reachable : Reachable c) {commit : Commit} (here : commit ∈ c.shared.wal)
    (inside : Write.insertUser x ∈ commit.writes) {data : UserCreate}
    (called : c.shared.calls[commit.pid]? = some (.register data)) : x.email = data.email ∧ x.fullName = data.fullName ∧
      (⟨.hashPassword data.password,.ok x.passwordHash⟩ : Talk) ∈ c.shared.talks commit.pid := by
  obtain ⟨r,talk⟩ := (reachableInserted reachable).committed commit here x inside
  obtain ⟨q,leads,_⟩ := reachLeads reachable called
  obtain ⟨before,after,split⟩ := List.append_of_mem talk
  obtain ⟨email,fullName,hashed⟩ := Interleaving.leadsDue leads hashesProgram (fun _ _ => trivial) split _ _ _ rfl
  exact ⟨email,fullName,split ▸ List.mem_append_left _ hashed⟩

omit [Pydantic] in
theorem userCommitted {wal : List Commit} (here : x ∈ (PaymentSystem.replay wal).users) :
    ∃ commit ∈ wal, Write.insertUser x ∈ commit.writes := by
  have applied : ∀ (writes : List Write) (t : Tables), x ∈ (t.applyAll writes).users →
      x ∈ t.users ∨ Write.insertUser x ∈ writes := by
    intro writes
    induction writes with
    | nil => exact fun t here => .inl here
    | cons write writes ih =>
      intro t here
      rcases ih _ here with old | later
      · cases write with
        | insertUser row =>
          rcases List.mem_append.mp old with old | added
          · exact .inl old
          · rw [List.mem_singleton.mp added]
            exact .inr (List.mem_cons_self ..)
        | _ => exact .inl old
      · exact .inr (List.mem_cons_of_mem _ later)
  induction wal using List.reverseRecOn with
  | nil => contradiction
  | append_singleton wal commit ih =>
    rw [replaySnoc] at here
    rcases applied _ _ here with old | added
    · obtain ⟨commit,inside,known⟩ := ih old
      exact ⟨commit,List.mem_append_left _ inside,known⟩
    · exact ⟨commit,List.mem_append_right _ (List.mem_singleton_self _),added⟩

structure SignedUp (pid : Nat) (w : World) (data : UserCreate) (x : User) : Prop where
  called : w.calls[pid]? = some (.register data)
  here : x ∈ w.tables.users
  email : x.email = data.email
  fullName : x.fullName = data.fullName
  hashed : (⟨.hashPassword data.password,.ok x.passwordHash⟩ : Talk) ∈ w.talks pid

theorem commitRegistered (reachable : Reachable c) {commit : Commit} (here : commit ∈ c.shared.wal)
    (inside : Write.insertUser x ∈ commit.writes) : ∃ data, SignedUp commit.pid c.shared data x := by
  have intact := reachableIntact reachable
  obtain ⟨i,within,found⟩ := List.getElem_of_mem here
  have stored : c.shared.wal[i]? = some commit := List.getElem?_eq_some_iff.mpr ⟨within,found⟩
  have entry := intact.legal.entryAt stored
  have after := intact.evolved (i + 1)
  rw [tablesAtSucc stored] at after
  obtain ⟨committer,writes⟩ := commit
  change Entry _ _ committer writes at entry
  cases entry with
  | @register data user wallet called =>
    simp only [List.mem_cons,Write.insertUser.injEq,List.not_mem_nil,or_false,reduceCtorEq] at inside
    subst inside
    obtain ⟨email,fullName,hashed⟩ := committedHashed reachable here (List.mem_cons_self ..) called
    exact ⟨data,called,after.users.subset (List.mem_append_right _ (List.mem_singleton_self _)),email,fullName,hashed⟩
  | topUp => simp at inside
  | send => simp at inside

theorem usersRegistered (reachable : Reachable c) (here : x ∈ c.shared.tables.users) :
    ∃ pid data, SignedUp pid c.shared data x := by
  rw [(reachableIntact reachable).replayed] at here
  obtain ⟨commit,inside,write⟩ := userCommitted here
  obtain ⟨data,registered⟩ := commitRegistered reachable inside write
  exact ⟨commit.pid,data,registered⟩

theorem returnedRegistered (reachable : Reachable c) {data : UserCreate} {user : UserResponse}
    (called : c.shared.calls[pid]? = some (.register data)) (done : c.outcome pid = some (.ok (.user user))) :
    ∃ x, SignedUp pid c.shared data x ∧ user = UserResponse.modelValidate x := by
  have intact := reachableIntact reachable
  obtain ⟨x,inside,email,same⟩ : ∃ x ∈ c.shared.tables.users, x.email = data.email ∧
      user = UserResponse.modelValidate x := reachableLooksUp reachable called done
  obtain ⟨commit,here,own⟩ : CommittedBy pid c.shared := effectedOk reachable called done
  obtain ⟨i,within,found⟩ := List.getElem_of_mem here
  have entry := intact.legal.entryAt (List.getElem?_eq_some_iff.mpr ⟨within,found⟩)
  rw [own] at entry
  have write : ∃ y, Write.insertUser y ∈ commit.writes := by
    generalize commit.writes = writes at entry
    cases entry with
    | register => exact ⟨_,List.mem_cons_self ..⟩
    | topUp call => cases Option.some.inj (called.symm.trans call)
    | send call => cases Option.some.inj (called.symm.trans call)
  obtain ⟨y,write⟩ := write
  obtain ⟨data',registered⟩ := commitRegistered reachable here write
  rw [own] at registered
  cases Option.some.inj (called.symm.trans registered.called)
  cases Tables.uniqueBy intact.paired.emails inside registered.here (email.trans registered.email.symm)
  exact ⟨x,registered,same⟩

/-- hash_password returns what verify_password takes for a hash of the password. -/
def HashesVerify [CryptContext] (c : State) (e : Happening) : Prop :=
  ∀ pid choice password, e = .step pid choice → c.awaits pid = some (.hashPassword password) →
    choice.fault = .none → hashable password = true → verifyPassword password choice.hash = .ok true

theorem hashVerifies [CryptContext] (run : Reach machine HashesVerify initial c) {password passwordHash : String}
    (talk : (⟨.hashPassword password,.ok passwordHash⟩ : Talk) ∈ c.shared.talks pid) :
    verifyPassword password passwordHash = .ok true := by
  obtain ⟨rec,here,rfl,said⟩ := talksMem talk
  refine (reachLog (P := fun rec => rec.talk rec.pid = some ⟨.hashPassword password,.ok passwordHash⟩ →
    verifyPassword password passwordHash = .ok true) run ?_ rec here).elim (fun old => by contradiction)
    (fun known => known said)
  rintro c e rec _ verified logged same
  cases logged with
  | stop => contradiction
  | @step pid choice op next r s' running ran =>
    have same' : (⟨op,r⟩ : Talk) = ⟨.hashPassword password,.ok passwordHash⟩ :=
      Option.some.inj ((if_pos rfl : _ = some (⟨op,r⟩ : Talk)).symm.trans same)
    cases same'
    rcases attemptCases ran with ⟨fault,performed⟩ | ⟨_,failed⟩
    · obtain ⟨fits,rfl,_⟩ := checkedOk performed
      exact verified pid choice password rfl (callAwaits running) fault fits
    · contradiction

/-! Logins and profiles, on any rows of a run. -/

def asking (session : Nat) (choice : Choice) (s : Stores) (op : Op) : Option (Res op × Stores) :=
  attempt session s op choice

def loginOutcome [CryptContext] [Jose] (found : Option User) (password : String) (now : Int) :
    Except Exn TokenResponse :=
  match found with
  | none => .error (userNotFoundException "")
  | some user => (verifyPassword password user.passwordHash).bind (fun verified =>
      if verified then .ok ⟨createAccessToken (uuidStr user.id) none now,"bearer"⟩
      else .error (userNotFoundException ""))

def profileOutcome (found : Option User) (userId : UUID) : Except Exn UserResponse :=
  match found with
  | none => .error (userNotFoundException (uuidStr userId))
  | some user => .ok (UserResponse.modelValidate user)

variable {session : Nat} {choice : Choice} {now : Int} {userId : UUID} {data : UserLogin}

theorem emailLookup (reachable : Reachable c) (email : String) : c.shared.tables.usersByEmail email = [] ∨
    ∃ x ∈ c.shared.tables.users, x.email = email ∧ c.shared.tables.usersByEmail email = [x] :=
  Tables.filterAtMost ((reachableIntact reachable).paired).emails email

theorem userLookup (reachable : Reachable c) (id : UUID) : c.shared.tables.usersById id = [] ∨
    ∃ x ∈ c.shared.tables.users, x.id = id ∧ c.shared.tables.usersById id = [x] :=
  Tables.filterAtMost ((reachableIntact reachable).paired).userIds id

theorem loginAlone [CryptContext] [Jose] (reachable : Reachable c) (idle : c.shared.db.pending session = [])
    (calm : choice.fault = .none) : (UserService.login data now Session.new).alone (asking session choice)
      c.shared.stores = some ((loginOutcome (c.shared.tables.usersByEmail data.email).head? data.password now,
        Session.new),c.shared.stores) := by
  have got : asking session choice c.shared.stores (.selectUserByEmail data.email) =
      some (.ok (c.shared.tables.usersByEmail data.email),c.shared.stores) := by
    have seen : c.shared.db.view session = c.shared.tables := Database.viewNothing idle
    rw [asking,attempt,calm,← seen]
    rfl
  have looked := aloneExecute (rfl : Session.new.dirty = []) got
  rcases emailLookup reachable data.email with none | ⟨x,_,_,one⟩
  · rw [none] at looked ⊢
    exact (Interleaving.Task.aloneThen ((Interleaving.Task.aloneThen looked).trans rfl)).trans rfl
  · rw [one] at looked ⊢
    refine (Interleaving.Task.aloneThen ((Interleaving.Task.aloneThen looked).trans rfl)).trans ?_
    simp only [loginOutcome,List.head?_cons]
    rcases verifyPassword data.password x.passwordHash with e | verified
    · rfl
    · cases verified <;> rfl

omit [Pydantic] in
theorem loginRaises [CryptContext] [Jose] (raises : choice.fault ≠ .none) (s : Stores) :
    ∃ s', (UserService.login data now Session.new).alone (asking session choice) s =
      some ((.error .operationalError,Session.new),s') := by
  have failed : ∃ s', asking session choice s (.selectUserByEmail data.email) = some (.error .operationalError,s') := by
    simp only [asking,attempt]
    split
    · contradiction
    · exact ⟨_,rfl⟩
    · exact ⟨_,rfl⟩
  obtain ⟨s',failed⟩ := failed
  exact ⟨s',Interleaving.Task.aloneRaised (Interleaving.Task.aloneRaised (aloneExecute rfl failed))⟩

theorem profileAlone (reachable : Reachable c) (idle : c.shared.db.pending session = [])
    (calm : choice.fault = .none) : (UserService.getUser userId Session.new).alone (asking session choice)
      c.shared.stores = some ((profileOutcome (c.shared.tables.usersById userId).head? userId,Session.new),
        c.shared.stores) := by
  have got : asking session choice c.shared.stores (.selectUserById userId) =
      some (.ok (c.shared.tables.usersById userId),c.shared.stores) := by
    have seen : c.shared.db.view session = c.shared.tables := Database.viewNothing idle
    rw [asking,attempt,calm,← seen]
    rfl
  have looked := aloneExecute (rfl : Session.new.dirty = []) got
  rcases userLookup reachable userId with none | ⟨x,_,_,one⟩
  · rw [none] at looked ⊢
    exact (Interleaving.Task.aloneThen ((Interleaving.Task.aloneThen looked).trans rfl)).trans rfl
  · rw [one] at looked ⊢
    exact (Interleaving.Task.aloneThen ((Interleaving.Task.aloneThen looked).trans rfl)).trans rfl

end
end PaymentSystem
