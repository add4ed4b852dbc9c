import PaymentSystem.Guarantees.Registration

/-! Racing registrations. A registration ends in UserAlreadyExists by its lookup of the
email alone; what its INSERT meets is not caught. So exactly one of the registrations of
an email returns, and the others are told so, in runs in which no INSERT comes to a
committed email. -/
namespace PaymentSystem
open Interleaving (Program Task Reach)
open Interleaving.Task (Ends)

def Registered (pid : Nat) (data : UserCreate) (w : World) {α : Type} : Except Exn α → Prop
  | .ok _ => CommittedBy pid w
  | .error e => Declined pid data w e

section
variable [Pydantic] {pid : Nat} {data : UserCreate} {w w' : World}

theorem emailStays {email : String} (intact : Intact w) (intact' : Intact w') (grows : Grows w w')
    (taken : w.tables.taken (.email email) = true) : w'.tables.taken (.email email) = true := by
  obtain ⟨u,here,same⟩ := Tables.takenEmail.mp taken
  exact Tables.takenEmail.mpr ⟨u,(intact.evolves intact' grows).users.subset here,same⟩

theorem Registered.grows {α : Type} {outcome : Except Exn α} (h : Registered pid data w outcome) (intact : Intact w)
    (intact' : Intact w') (grows : Grows w w') (commits : ∀ c ∈ w'.wal, c.pid = pid → c ∈ w.wal) :
    Registered pid data w' outcome := by
  cases outcome with
  | ok a => exact CommittedBy.grows h grows
  | error e =>
    cases (show Declined pid data w e from h) with
    | failed failed => exact .failed (failed.grows grows)
    | found here once =>
      exact .found (emailStays intact intact' grows here) (fun c hc own => once c (commits c hc own) own)
    | unhashed here => exact .unhashed (grows.member here)
    | refused here => exact .refused (grows.member here)
    | collision here => exact .collision (grows.member here)

theorem endsRegistered (intact : Intact w) (working : Working pid (.register data) [] [] w) :
    Ends machine outline pid (Call.service (.register data)) Session.new w (fun r _ w => Registered pid data w r) := by
  have registered : Ends machine outline pid (UserService.register data) Session.new w
      (fun r _ w => Registered pid data w r) :=
    endsRegister intact working rfl (fun _ _ _ known => known) (fun _ _ committed _ _ => committed.commit)
  exact Task.endsBind registered intact (fun _ _ _ _ known => known) (fun _ _ _ _ known => known)

theorem concludableRegistered :
    Concludable (fun pid w call outcome => ∀ data, call = .register data → Registered pid data w outcome) where
  stays := fun _ _ _ _ _ intact intact' grows commits known data same =>
    (known data same).grows intact intact' grows commits
  stopped := fun _ _ _ failed _ _ => Declined.failed failed
  service := by
    intro pid w call intact working
    cases call with
    | register data =>
      refine Task.endsMono (endsRegistered intact working) intact ?_
      rintro r _ w' _ registered data' same
      cases same
      exact registered
    | _ =>
      refine Task.endsMono (endsService intact working) intact ?_
      intro r _ w' _ _ data' same
      contradiction

theorem reachableRegistered {c : State} (reachable : Reachable c) {outcome : Outcome}
    (called : c.shared.calls[pid]? = some (.register data)) (done : c.outcome pid = some outcome) :
    Registered pid data c.shared outcome := concludableRegistered.reachable reachable called done data rfl

end

/-! Runs in which nothing fails the registrations of one email. -/

def State.registers (c : State) (email : String) (pid : Nat) : Bool :=
  match c.shared.calls[pid]? with
  | some (.register data) => data.email == email
  | _ => false

def Database.unused (db : Database) (pid : Nat) (r : Resource) : Bool := !db.heldByOther pid r && !(db.view pid).taken r

def State.newIds (c : State) (pid : Nat) (choice : Choice) : Bool :=
  match c.awaits pid with
  | some (.insertUser _ _ _) => c.shared.db.unused pid (.user choice.uuid)
  | some (.insertWallet _) => c.shared.db.unused pid (.wallet choice.uuid)
  | _ => true

/-- No call of the registrations fails, none of them is stopped, and their ids are new. -/
def unfailing (email : String) (c : State) : Happening → Bool
  | .step pid choice => !c.registers email pid || (choice.fault == .none && c.newIds pid choice)
  | .stop pid => !c.registers email pid
  | _ => true

/-- No INSERT of theirs sees the email there already, or has a text that cannot be stored;
and their passwords can be hashed. -/
def uncontested (email : String) (c : State) : Happening → Bool
  | .step pid _ => !c.registers email pid || (match c.awaits pid with
      | some (.hashPassword password) => hashable password
      | some (.insertUser email' _ fullName) => !(c.shared.db.view pid).taken (.email email') &&
          (Database.textFits email' && Database.textFits fullName)
      | _ => true)
  | _ => true

namespace Database
variable {db db' : Database} {pid : Nat}

theorem uniqueCheckUnused {primaryKey unique : Resource} {onPrimaryKey onUnique : Constraint}
    (unused : db.unused pid primaryKey = true) (apart : onUnique ≠ onPrimaryKey) :
    db.uniqueCheck pid primaryKey unique onPrimaryKey onUnique ≠ some (some onPrimaryKey) := by
  simp only [Database.unused,Bool.and_eq_true,Bool.not_eq_true'] at unused
  unfold uniqueCheck
  rw [unused.1,unused.2,Bool.or_self,if_neg Bool.false_ne_true]
  split
  · simp
  · split <;> simp [apart]

theorem insertUserAccepted {row : User} {e : Exn} (texts : (textFits row.email && textFits row.fullName) = true)
    (unused : db.unused pid (.user row.id) = true) (untaken : (db.view pid).taken (.email row.email) = false) :
    db.insertUser pid row ≠ some (.error e,db') := by
  intro inserted
  simp only [insertUser,texts,Bool.not_true,Bool.false_eq_true,if_false] at inserted
  split at inserted
  · contradiction
  · rename_i violated found
    rcases uniqueCheckViolated found with rfl | ⟨_,taken⟩
    · exact uniqueCheckUnused unused (by decide) found
    · rw [untaken] at taken
      contradiction
  · cases inserted

theorem insertWalletNewId {row : Wallet} (unused : db.unused pid (.wallet row.id) = true) :
    db.insertWallet pid row ≠ some (.error (.integrityError .walletsPrimaryKey),db') := by
  intro inserted
  simp only [insertWallet] at inserted
  split at inserted
  · cases inserted
  · split at inserted
    · contradiction
    · rename_i violated found
      cases inserted
      exact uniqueCheckUnused unused (by decide) found
    · split at inserted <;> cases inserted

end Database

section
variable {c : State} {email : String} {pid : Nat}

theorem dataRegisters {data : UserCreate} (called : c.shared.calls[pid]? = some (.register data))
    (same : data.email = email) : c.registers email pid = true := by
  simp [State.registers,called,same]

end

structure Record.Unharmed (data : UserCreate) (rec : Record) : Prop where
  performed : rec.failed = false
  hash : ∀ pid e n, rec ≠ .called pid (.hashPassword data.password) .none (.error e) n
  user : ∀ pid hash e n, rec ≠ .called pid (.insertUser data.email hash data.fullName) .none (.error e) n
  wallet : ∀ pid userId n,
    rec ≠ .called pid (.insertWallet userId) .none (.error (.integrityError .walletsPrimaryKey)) n

abbrev Racing (email : String) (c : State) (e : Happening) : Prop :=
  unfailing email c e = true ∧ uncontested email c e = true

theorem recordUnharmed {c : State} {email : String} {e : Happening} {rec : Record} {data : UserCreate} (ok : Racing email c e)
    (logged : Logged c e rec) (called : c.shared.calls[rec.pid]? = some (.register data)) (same : data.email = email) :
    rec.Unharmed data := by
  obtain ⟨unfailed,free⟩ := ok
  cases logged with
  | @stop pid op next running =>
    have registers : c.registers email pid = true := dataRegisters called same
    simp only [unfailing,registers,Bool.not_true,Bool.false_eq_true] at unfailed
  | @step pid choice op next r s' running ran =>
    have registers : c.registers email pid = true := dataRegisters called same
    simp only [unfailing,registers,Bool.not_true,Bool.false_or,Bool.and_eq_true,beq_iff_eq] at unfailed
    obtain ⟨fault,ids⟩ := unfailed
    simp only [uncontested,registers,Bool.not_true,Bool.false_or,callAwaits running] at free
    simp only [State.newIds,callAwaits running] at ids
    simp only [attempt,fault] at ran
    rw [fault]
    refine ⟨rfl,?_,?_,?_⟩
    · intro pid' e n record
      cases record
      obtain ⟨_,⟨_,same⟩ | ⟨misfit,_⟩⟩ := checkedCases ran
      · cases same
      · exact Bool.false_ne_true (misfit.symm.trans free)
    · intro pid' hash e n record
      cases record
      simp only [Bool.and_eq_true,Bool.not_eq_true'] at free
      obtain ⟨db',inserted,_⟩ := writesSome ran
      exact Database.insertUserAccepted (by simpa using free.2) ids free.1 inserted
    · intro pid' userId n record
      cases record
      obtain ⟨db',inserted,_⟩ := writesSome ran
      exact Database.insertWalletNewId ids inserted

section
variable [Pydantic] {c : State} {email : String}

theorem allUnharmed (run : Reach machine (Racing email) initial c) : ∀ rec ∈ c.shared.log, ∀ data,
    c.shared.calls[rec.pid]? = some (.register data) → data.email = email → rec.Unharmed data := by
  intro rec here data called same
  refine reachRecords (Q := fun _ rec call => call = .register data → rec.Unharmed data) ?_ ?_ run rec here _ called rfl
  · intro _ _ _ _ _ _ _ unharmed
    exact unharmed
  · rintro c c' e rec call _ ok _ logged called rfl
    exact recordUnharmed ok logged called same

theorem noneFailed (run : Reach machine (Racing email) initial c) {pid : Nat} {data : UserCreate}
    (called : c.shared.calls[pid]? = some (.register data)) (same : data.email = email) : ¬ Failed pid c.shared := by
  rintro ⟨rec,here,rfl,failed⟩
  rw [(allUnharmed run rec here data called same).performed] at failed
  contradiction

theorem racedOutcome (run : Reach machine (Racing email) initial c) {pid : Nat} {data : UserCreate}
    {outcome : Outcome} (called : c.shared.calls[pid]? = some (.register data)) (same : data.email = email)
    (done : c.outcome pid = some outcome) :
    (CommittedBy pid c.shared ∧ ∃ user, outcome = .ok (.user user)) ∨
      (¬ CommittedBy pid c.shared ∧ outcome = .error (.userAlreadyExists email) ∧
        c.shared.tables.taken (.email email) = true) := by
  have reachable : Reachable c := run.weaken (fun _ _ _ => trivial)
  have registered := reachableRegistered reachable called done
  obtain ⟨call,concluded⟩ := (reachableReport reachable done).concluded
  cases Option.some.inj (called.symm.trans concluded.called)
  cases outcome with
  | ok response =>
    refine .inl ⟨registered,?_⟩
    have answered := concluded.answered
    cases response with
    | user user => exact ⟨user,rfl⟩
    | _ => exact absurd answered id
  | error e =>
    cases (show Declined pid data c.shared e from registered) with
    | failed failed => exact absurd failed (noneFailed run called same)
    | found here once =>
      refine .inr ⟨?_,by rw [same],same ▸ here⟩
      rintro ⟨commit,inside,own⟩
      exact once commit inside own
    | unhashed here => exact absurd rfl ((allUnharmed run _ here data called same).hash _ _ _)
    | refused here => exact absurd rfl ((allUnharmed run _ here data called same).user _ _ _ _)
    | collision here => exact absurd rfl ((allUnharmed run _ here data called same).wallet _ _ _)

end

/-! Who registered an email. -/

section
variable {calls : List Call} {t : Tables} {wal : List Commit} {pid : Nat} {writes : List Write}

def Registrant (calls : List Call) (email : String) (pid : Nat) : Prop :=
  ∃ data, calls[pid]? = some (.register data) ∧ data.email = email

theorem Entry.registrant (h : Entry calls t pid writes) (email : String) :
    ((t.applyAll writes).taken (.email email) = true ↔ t.taken (.email email) = true ∨ Registrant calls email pid) ∧
      (Registrant calls email pid → t.taken (.email email) = false) := by
  have other : (∀ data, calls[pid]? ≠ some (.register data)) → (∀ w ∈ writes, .email email ∉ w.resources) →
      ((t.applyAll writes).taken (.email email) = true ↔ t.taken (.email email) = true ∨ Registrant calls email pid) ∧
        (Registrant calls email pid → t.taken (.email email) = false) := by
    intro foreign outside
    have notTheirs : ¬ Registrant calls email pid := fun ⟨data,called,_⟩ => foreign data called
    rw [Tables.takenApplyAll outside]
    exact ⟨⟨.inl,fun known => known.resolve_right notTheirs⟩,fun mine => absurd mine notTheirs⟩
  cases h with
  | @register data user wallet called same _ _ freshEmail =>
    have mine : Registrant calls email pid ↔ user.email = email := by
      constructor
      · rintro ⟨data',called',same'⟩
        cases Option.some.inj (called.symm.trans called')
        exact same.trans same'
      · intro own
        exact ⟨data,called,same.symm.trans own⟩
    rw [mine,Tables.takenEmail,Tables.takenEmail]
    refine ⟨?_,?_⟩
    · change (∃ u ∈ t.users ++ [user],u.email = email) ↔ _
      simp [or_and_right,exists_or]
    · rintro rfl
      exact freshEmail
  | topUp called =>
    refine other (fun data register => by cases Option.some.inj (called.symm.trans register)) ?_
    simp [Write.resources]
  | send called =>
    refine other (fun data register => by cases Option.some.inj (called.symm.trans register)) ?_
    simp [Write.resources]

theorem Legal.registrant (h : Legal calls wal) (email : String) :
    ((replay wal).taken (.email email) = true ↔ ∃ c ∈ wal, Registrant calls email c.pid) ∧
      ∀ c ∈ wal, ∀ c' ∈ wal, Registrant calls email c.pid → Registrant calls email c'.pid → c.pid = c'.pid := by
  induction h with
  | nil => simp [replay,Tables.empty,Tables.taken]
  | @commit wal pid writes before entry once ih =>
    obtain ⟨there,one⟩ := ih
    obtain ⟨after,fresh⟩ := entry.registrant email
    have last : Registrant calls email pid → ∀ c ∈ wal, ¬ Registrant calls email c.pid := by
      intro mine c here earlier
      have taken := there.mpr ⟨c,here,earlier⟩
      rw [fresh mine] at taken
      contradiction
    constructor
    · rw [replaySnoc,after,there]
      simp [or_and_right,exists_or]
    · intro c here c' here' mine mine'
      rcases List.mem_append.mp here with here | here <;> rcases List.mem_append.mp here' with here' | here'
      · exact one c here c' here' mine mine'
      · cases List.mem_singleton.mp here'
        exact absurd mine (last mine' c here)
      · cases List.mem_singleton.mp here
        exact absurd mine' (last mine c' here')
      · rw [List.mem_singleton.mp here,List.mem_singleton.mp here']

end

theorem oneRegistered [Pydantic] {c : State} {email : String} (run : Reach machine (Racing email) initial c) :
    (∀ pid data outcome, c.shared.calls[pid]? = some (.register data) → data.email = email →
      c.outcome pid = some outcome →
        (∃ user, outcome = .ok (.user user)) ∨ outcome = .error (.userAlreadyExists email)) ∧
    ((∃ pid, Registrant c.shared.calls email pid) →
      (∀ pid, Registrant c.shared.calls email pid → (c.outcome pid).isSome = true) →
        ∃! pid, Registrant c.shared.calls email pid ∧ ∃ user, c.outcome pid = some (.ok (.user user))) := by
  have intact := reachableIntact (run.weaken (fun _ _ _ => trivial))
  obtain ⟨there,one⟩ := intact.legal.registrant email
  constructor
  · intro pid data outcome called same done
    rcases racedOutcome run called same done with ⟨_,returned⟩ | ⟨_,told,_⟩
    · exact .inl returned
    · exact .inr told
  · rintro ⟨pid,data,called,same⟩ ended
    have known : ∀ pid, Registrant c.shared.calls email pid →
        (CommittedBy pid c.shared ∧ ∃ user, c.outcome pid = some (.ok (.user user))) ∨
          (¬ CommittedBy pid c.shared ∧ c.shared.tables.taken (.email email) = true) := by
      rintro pid ⟨data,called,same⟩
      obtain ⟨outcome,done⟩ := Option.isSome_iff_exists.mp (ended pid ⟨data,called,same⟩)
      rcases racedOutcome run called same done with ⟨committed,user,rfl⟩ | ⟨uncommitted,_,taken⟩
      · exact .inl ⟨committed,user,done⟩
      · exact .inr ⟨uncommitted,taken⟩
    have unique : ∀ first second, Registrant c.shared.calls email first → Registrant c.shared.calls email second →
        CommittedBy first c.shared → CommittedBy second c.shared → first = second := by
      rintro _ _ mine mine' ⟨commit,here,rfl⟩ ⟨commit',here',rfl⟩
      exact one commit here commit' here' mine mine'
    -- if nobody had committed the email would be free, and somebody has been told that it is not
    have winner : ∃ pid, Registrant c.shared.calls email pid ∧ CommittedBy pid c.shared := by
      rcases known pid ⟨data,called,same⟩ with ⟨committed,_⟩ | ⟨_,taken⟩
      · exact ⟨pid,⟨data,called,same⟩,committed⟩
      · rw [intact.replayed] at taken
        obtain ⟨commit,here,registrant⟩ := there.mp taken
        exact ⟨commit.pid,registrant,commit,here,rfl⟩
    obtain ⟨pid,registrant,committed⟩ := winner
    refine ⟨pid,⟨registrant,?_⟩,?_⟩
    · rcases known pid registrant with ⟨_,returned⟩ | ⟨uncommitted,_⟩
      · exact returned
      · exact absurd committed uncommitted
    · rintro other ⟨registrant',user,returned⟩
      refine unique other pid registrant' registrant ?_ committed
      obtain ⟨data,called,same⟩ := registrant'
      rcases racedOutcome run called same returned with ⟨committed',_⟩ | ⟨_,told,_⟩
      · exact committed'
      · cases told

section
open JsonMode

def racing (email : String) (c : State) (e : Happening) : Bool := unfailing email c e && uncontested email c e

theorem racingSure (email : String) (c : State) (e : Happening) (h : racing email c e = true) : Racing email c e :=
  Bool.and_eq_true_iff.mp h

def registerAda : Call := .register (.named "ada@bank.org")

def lateRace : Run initial where
  events := serve registerAda 0 5 100 ++ (serve registerAda 1 2 200 ++ steps 0 2 110)
  possible := by decide +kernel

theorem oneRegisteredLate : (∃! pid, Registrant lateRace.last.shared.calls "ada@bank.org" pid ∧
    ∃ user, lateRace.last.outcome pid = some (.ok (.user user))) := by
  have calls : lateRace.last.shared.calls = [registerAda,registerAda] := by decide +kernel
  refine (oneRegistered (lateRace.meeting (racingSure "ada@bank.org") (by decide +kernel))).2
    ⟨0,.named "ada@bank.org",by rw [calls]; rfl,rfl⟩ ?_
  rintro pid ⟨data,called,_⟩
  rw [calls] at called
  have inside := (List.getElem?_eq_some_iff.mp called).1
  match pid, inside with
  | 0, _ => decide +kernel
  | 1, _ => decide +kernel

def closeRace : Run initial where
  events := .start registerAda :: (serve registerAda 1 2 200 ++ (steps 0 7 100 ++ steps 1 2 210))
  possible := by decide +kernel

theorem loserUnhandled : ¬ ∀ (email : String) (c : State),
    Reach machine (fun c e => unfailing email c e = true) initial c →
    (∀ pid data outcome, c.shared.calls[pid]? = some (.register data) → data.email = email →
      c.outcome pid = some outcome →
        (∃ user, outcome = .ok (.user user)) ∨ outcome = .error (.userAlreadyExists email)) ∧
    ((∃ pid, Registrant c.shared.calls email pid) →
      (∀ pid, Registrant c.shared.calls email pid → (c.outcome pid).isSome = true) →
        ∃! pid, Registrant c.shared.calls email pid ∧ ∃ user, c.outcome pid = some (.ok (.user user))) := by
  intro always
  have run : Reach machine (fun c e => unfailing "ada@bank.org" c e = true) initial closeRace.last :=
    closeRace.meeting (fun _ _ sure => sure) (by decide +kernel)
  have called : closeRace.last.shared.calls[1]? = some registerAda := by decide +kernel
  have lost : closeRace.last.outcome 1 = some (.error (.integrityError .usersEmail)) := by decide +kernel
  rcases (always _ _ run).1 1 (.named "ada@bank.org") _ called rfl lost with ⟨user,returned⟩ | told
  · cases returned
  · cases told

end

end PaymentSystem
