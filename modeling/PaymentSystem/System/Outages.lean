import PaymentSystem.Base.Parallel
import PaymentSystem.System.Request

/-! One call alone while Redis fails. Its statements and its Redis commands are numbered
apart, so that the statements of a call without Redis meet the same choices. -/
namespace PaymentSystem
open Numerics (Decimal)
open Interleaving (Program Task Paired Level)
open Interleaving.Task (Steady steadyPure steadyThrow steadyAwait steadyChange steadyThen)

/-- How far a call has got: the stores, how many statements it has made, and its Redis
commands with what befell them. -/
structure Course where
  stores : Stores
  statements : Nat
  commands : List (Op × Fault)

namespace Course

def exec (pid : Nat) (choices : Nat → Choice) (outages : Nat → Fault) (s : Course) (op : Op) :
    Option (Res op × Course) :=
  if op.isRedis then
    (attempt pid s.stores op {choices s.statements with fault := outages s.commands.length}).map (fun out =>
      (out.1,⟨out.2,s.statements,s.commands ++ [(op,outages s.commands.length)]⟩))
  else
    (attempt pid s.stores op {choices s.statements with fault := .none}).map (fun out =>
      (out.1,⟨out.2,s.statements + 1,s.commands⟩))

structure Near (commands : List (Op × Fault)) (s s' : Course) : Prop where
  db : s.stores.db = s'.stores.db
  statements : s.statements = s'.statements
  commands : s.commands = commands

end Course

section
variable {pid : Nat} {choices : Nat → Choice} {outages : Nat → Fault} {s s' : Course} {op : Op}
  {commands : List (Op × Fault)}

theorem writesApart {α : Type} {db : Database} (redis redis' : Redis) (out : Option (Except Exn α × Database)) :
    writes ⟨db,redis⟩ out = (writes ⟨db,redis'⟩ out).map (fun out => (out.1,{out.2 with redis := redis})) := by
  cases out <;> rfl

theorem checkedApart {α : Type} {db : Database} {fits : Bool} {e : Exn} {value : α} (redis redis' : Redis) :
    checked fits e value ⟨db,redis⟩ =
      (checked fits e value ⟨db,redis'⟩).map (fun out => (out.1,{out.2 with redis := redis})) := by
  cases fits <;> rfl

theorem performApart {choice : Choice} {db : Database} (redis redis' : Redis) (statement : op.isRedis = false) :
    perform pid ⟨db,redis⟩ choice op =
      (perform pid ⟨db,redis'⟩ choice op).map (fun out => (out.1,{out.2 with redis := redis})) := by
  cases op with
  | selectTransactionByKey | selectTransactionsOf | hashPassword => exact checkedApart redis redis'
  | redisGet => contradiction
  | redisSetex => contradiction
  | redisDelete => contradiction
  | _ => first | rfl | exact writesApart redis redis' _

theorem statementAlike (statement : op.isRedis = false) (near : Course.Near commands s s') :
    Paired (Level (Course.Near commands)) (s.exec pid choices outages op) (s'.exec pid choices outages op) := by
  obtain ⟨⟨db,redis⟩,count,commands₁⟩ := s
  obtain ⟨⟨db',redis'⟩,count',commands₂⟩ := s'
  obtain ⟨same,counted,said⟩ := near
  cases (show db = db' from same)
  cases (show count = count' from counted)
  simp only [Course.exec,statement,attempt,performApart redis redis' statement,Bool.false_eq_true,if_false]
  cases perform pid ⟨db,redis'⟩ {choices count with fault := .none} op with
  | none => exact .blocked
  | some out => exact .ended ⟨rfl,rfl,rfl,said⟩

theorem performCommand {stores : Stores} {choice : Choice} (command : op.isRedis = true) :
    ∃ r stores', perform pid stores choice op = some (r,stores') ∧ stores'.db = stores.db := by
  cases op <;> first | contradiction | exact ⟨_,_,rfl,rfl⟩

theorem commandDone (command : op.isRedis = true) : ∃ r s', s.exec pid choices outages op = some (r,s') ∧
    s'.stores.db = s.stores.db ∧ s'.statements = s.statements ∧
    s'.commands = s.commands ++ [(op,outages s.commands.length)] ∧
    (outages s.commands.length = .none →
      perform pid s.stores {choices s.statements with fault := .none} op = some (r,s'.stores)) ∧
    (outages s.commands.length ≠ .none → r = .error .redisError) := by
  have failure : op.failure = .redisError := by simp only [Op.failure,command,if_true]
  simp only [Course.exec,command,if_true]
  cases fault : outages s.commands.length with
  | none =>
    obtain ⟨r,stores',performed,db⟩ := @performCommand pid op s.stores {choices s.statements with fault := .none} command
    simp only [attempt,performed]
    exact ⟨r,_,rfl,db,rfl,rfl,fun _ => rfl,fun failed => absurd rfl failed⟩
  | raises =>
    have kept : unperformed pid s.stores op = s.stores := by cases op <;> first | contradiction | rfl
    simp only [attempt,kept]
    exact ⟨_,_,rfl,rfl,rfl,rfl,fun fine => by contradiction,fun _ => by rw [failure]⟩
  | raisesAfter =>
    obtain ⟨r,stores',performed,db⟩ :=
      @performCommand pid op s.stores {choices s.statements with fault := .raisesAfter} command
    simp only [attempt,performed]
    exact ⟨_,_,rfl,db,rfl,rfl,fun fine => by contradiction,fun _ => by rw [failure]⟩

end

/-! The parts of a payment that make statements only. -/

def Present (keys : List UUID) (l : Session) : Prop :=
  l.dirty = [] ∧ ∀ key ∈ keys, ∃ a, l.identityMap key = some (.loaded a)

def Op.Statement (op : Op) : Prop := op.isRedis = false

abbrev Plain {α : Type} (keys : List UUID) (t : Py α) : Prop := Steady Op.Statement (Present keys) t

section
variable {α : Type} {keys : List UUID}

theorem presentNone {l : Session} (h : Present keys l) : Present [] l := ⟨h.1,by simp⟩

theorem plainExecute {op : Op} (statement : op.Statement) : Plain keys (execute op) := by
  intro l loaded
  rw [executeClean loaded.1]
  exact steadyAwait statement l loaded

theorem plainCommit : Plain keys commit := by
  intro l loaded
  rw [commitClean loaded.1]
  exact steadyAwait (show Op.Statement .commit from rfl) l loaded

theorem plainAttributes (ref : WalletRef) : Plain keys ref.attributes := by
  intro l loaded
  by_cases known : ∃ a, l.identityMap ref.key = some (.loaded a)
  · obtain ⟨a,known⟩ := known
    rw [attributesLoaded known]
    exact loaded
  · rw [attributesMissing (fun a here => known ⟨a,here⟩)]
    exact loaded

theorem plainId (ref : WalletRef) : Plain keys ref.id := steadyThen (plainAttributes ref) (fun _ => steadyPure _)

theorem plainBalance (ref : WalletRef) : Plain keys ref.balance :=
  steadyThen (plainAttributes ref) (fun _ => steadyPure _)

theorem plainVersion (ref : WalletRef) : Plain keys ref.version :=
  steadyThen (plainAttributes ref) (fun _ => steadyPure _)

theorem plainModelValidate (ref : WalletRef) : Plain keys (WalletResponse.modelValidate ref) :=
  steadyThen (plainAttributes ref) (fun _ => steadyPure _)

theorem plainArithmetic (d : Option Decimal) : Plain keys (arithmetic d) := by
  cases d with
  | none => exact steadyThrow _
  | some d => exact steadyPure d

theorem plainOne (rows : List α) : Plain keys (scalarOneOrNone rows) := by
  match rows with
  | [] => exact steadyPure none
  | [x] => exact steadyPure (some x)
  | _ :: _ :: _ => exact steadyThrow _

theorem presentMerge {l : Session} (h : Present keys l) (row : Wallet) : Present keys (l.merge row) := by
  refine ⟨(mergeClean l row).trans h.1,?_⟩
  intro key inside
  obtain ⟨a,known⟩ := h.2 key inside
  exact ⟨a,mergeLoaded row known⟩

theorem plainObjects (rows : List Wallet) : Plain keys (objects rows) := by
  refine steadyThen (steadyChange ?_) (fun _ => steadyPure _)
  intro l loaded
  induction rows generalizing l with
  | nil => exact loaded
  | cons row rest ih => exact ih (l.merge row) (presentMerge loaded row)

theorem plainRollback : Plain [] rollback :=
  steadyThen (steadyAwait rfl) (fun _ => steadyChange (fun _ _ => ⟨rfl,by simp⟩))

theorem plainGetByUserId (userId : UUID) : Plain keys (WalletRepository.getByUserId userId) :=
  steadyThen (plainExecute rfl) (fun rows => steadyThen (plainObjects rows) (fun refs => plainOne refs))

theorem plainGetByIdForUpdate (id : UUID) : Plain keys (WalletRepository.getByIdForUpdate id) :=
  steadyThen (plainExecute rfl) (fun rows => steadyThen (plainObjects rows) (fun refs => plainOne refs))

theorem plainGetByIdempotencyKey (key : String) : Plain keys (TransactionRepository.getByIdempotencyKey key) :=
  steadyThen (plainExecute rfl) (fun rows => plainOne rows)

theorem plainUpdateBalance (id : UUID) (balance : Decimal) (version : Int) :
    Plain keys (WalletRepository.updateBalance id balance version) := by
  refine steadyThen (plainExecute rfl) (fun _ => steadyThen (steadyChange ?_) (fun _ => steadyPure _))
  intro l loaded
  refine ⟨(synchronizeClean l _ _ _ _).trans loaded.1,?_⟩
  intro key inside
  obtain ⟨a,known⟩ := loaded.2 key inside
  obtain ⟨a',known',_⟩ := synchronizeLoaded version balance (version + 1) known
  exact ⟨a',known'⟩

theorem plainRefreshTransaction (transaction : Transaction) : Plain keys (refreshTransaction transaction) := by
  refine steadyThen (plainExecute rfl) ?_
  intro rows
  split
  · exact steadyPure _
  · exact steadyThrow _

theorem plainRefreshWallet (ref : WalletRef) : Plain keys (refreshWallet ref) := by
  refine steadyThen (plainExecute rfl) ?_
  intro rows
  split
  · rename_i row _
    refine steadyChange ?_
    intro l loaded
    refine ⟨loaded.1,?_⟩
    intro key inside
    by_cases same : key = row.id
    · exact ⟨row.attributes,same ▸ loadSelf l row⟩
    · obtain ⟨a,known⟩ := loaded.2 key inside
      refine ⟨a,?_⟩
      simp only [Session.load,Session.setLoaded]
      rw [Function.update_of_ne same]
      exact known
  · exact steadyThrow _

theorem plainRecordTransfer (sender receiver : WalletRef) (amount : Decimal) (currency key : String)
    (description : Option String) :
    Plain keys (PaymentService.recordTransfer sender receiver amount currency key description) :=
  steadyThen (plainId sender) (fun _ => steadyThen (plainId receiver) (fun _ => steadyThen (plainExecute rfl)
    (fun transaction => steadyThen plainCommit (fun _ => steadyThen (plainRefreshTransaction transaction)
      (fun _ => steadyPure _)))))

theorem plainAdjustBalance (wallet : WalletRef) (change : Decimal → Option Decimal) :
    Plain keys (PaymentService.adjustBalance wallet change) := by
  refine steadyThen (plainId wallet) (fun id => steadyThen (plainBalance wallet) (fun balance =>
    steadyThen (plainArithmetic _) (fun newBalance => steadyThen (plainVersion wallet) (fun version =>
      steadyThen (plainUpdateBalance id newBalance version) ?_))))
  intro ok
  split
  · exact steadyThrow _
  · exact steadyPure ()

theorem plainMoveLocked (sender receiver : WalletRef) (amount : Decimal) (currency key : String)
    (description : Option String) :
    Plain keys (PaymentService.moveLocked sender receiver amount currency key description) := by
  refine steadyThen (plainBalance sender) ?_
  intro balance
  split
  · exact steadyThrow _
  · exact steadyThen (plainAdjustBalance sender _) (fun _ => steadyThen (plainAdjustBalance receiver _)
      (fun _ => plainRecordTransfer sender receiver amount currency key description))

theorem plainExecuteTransfer (senderId receiverId : UUID) (amount : Decimal) (currency key : String)
    (description : Option String) :
    Plain keys (PaymentService.executeTransfer senderId receiverId amount currency key description) := by
  refine steadyThen (plainGetByIdForUpdate _) (fun first => steadyThen (plainGetByIdForUpdate _) (fun second => ?_))
  split
  · rename_i firstRef secondRef
    refine steadyThen (plainId firstRef) ?_
    intro firstId
    split
    · exact plainMoveLocked firstRef secondRef amount currency key description
    · exact plainMoveLocked secondRef firstRef amount currency key description
  · exact steadyThrow _

theorem plainOnIntegrityError (request : PaymentRequest) : Plain [] (PaymentService.onIntegrityError request) := by
  refine steadyThen plainRollback (fun _ => steadyThen (plainGetByIdempotencyKey _) ?_)
  intro existing
  split
  · exact steadyPure _
  · exact steadyThrow _

theorem plainGiveUp (e : Exn) : Plain [] (do
    rollback
    throw e : Py α) :=
  steadyThen plainRollback (fun _ => steadyThrow e)

end
end PaymentSystem
