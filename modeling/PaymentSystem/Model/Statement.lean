import PaymentSystem.Model.Postgres
import PaymentSystem.Base.Program

/-! Everything the services await: the SQL statements, the Redis commands and the
sources of fresh values. One awaited call is one atomic step on the database and
on Redis. A call may also raise, before or after it took effect. -/
namespace PaymentSystem
open Numerics (Decimal)
open Database (NewTransaction)

inductive Op where
  | selectUserByEmail (email : String)
  | selectUserById (id : UUID)
  | selectWalletByUserId (userId : UUID)
  | selectWalletById (id : UUID)
  | selectWalletForUpdate (id : UUID)
  | selectTransactionByKey (key : String)
  | selectTransactionById (id : UUID)
  | countTransactionsOf (walletId : UUID)
  | selectTransactionsOf (walletId : UUID) (offset limit : Nat)
  | updateWallet (id : UUID) (expectedVersion : Int) (balance : Decimal) (version : Int)
  | flushWallet (id : UUID) (balance : Decimal)
  | insertUser (email passwordHash fullName : String)
  | insertWallet (userId : UUID)
  | insertTransaction (new : NewTransaction)
  | commit
  | rollback
  | close
  | hashPassword (password : String)
  | redisGet (key : String)
  | redisSetex (key : String) (ttl : Nat) (value : String)
  | redisDelete (keys : List String)
  deriving DecidableEq, Repr

def Op.Val : Op → Type
  | .selectUserByEmail _ => List User
  | .selectUserById _ => List User
  | .selectWalletByUserId _ => List Wallet
  | .selectWalletById _ => List Wallet
  | .selectWalletForUpdate _ => List Wallet
  | .selectTransactionByKey _ => List Transaction
  | .selectTransactionById _ => List Transaction
  | .countTransactionsOf _ => Nat
  | .selectTransactionsOf _ _ _ => List Transaction
  | .updateWallet _ _ _ _ => Nat
  | .flushWallet _ _ => Unit
  | .insertUser _ _ _ => User
  | .insertWallet _ => Wallet
  | .insertTransaction _ => Transaction
  | .commit => Unit
  | .rollback => Unit
  | .close => Unit
  | .hashPassword _ => String
  | .redisGet _ => Option String
  | .redisSetex _ _ _ => Unit
  | .redisDelete _ => Unit

abbrev Res (op : Op) : Type := Except Exn op.Val

def Op.isRedis : Op → Bool
  | .redisGet _ => true
  | .redisSetex _ _ _ => true
  | .redisDelete _ => true
  | _ => false

def Op.failure (op : Op) : Exn := if op.isRedis then .redisError else .operationalError

inductive Fault where
  | none
  | raises
  | raisesAfter
  deriving DecidableEq, Repr

/-- What the world decides at one call: whether it raises, uuid4(), the clock, the
salted hash, and the order of rows that the query leaves open. -/
structure Choice where
  fault : Fault
  uuid : UUID
  now : DateTime
  hash : String
  order : List Transaction
  deriving DecidableEq, Repr

abbrev Redis := String → Option String

structure Stores where
  db : Database
  redis : Redis

def reads {α : Type} (rows : α) (s : Stores) : Option (Except Exn α × Stores) := some (.ok rows,s)

def checked {α : Type} (fits : Bool) (e : Exn) (value : α) (s : Stores) : Option (Except Exn α × Stores) :=
  if fits then reads value s else some (.error e,s)

def writes {α : Type} (s : Stores) (out : Option (Except Exn α × Database)) :
    Option (Except Exn α × Stores) :=
  out.map (fun out => (out.1,{s with db := out.2}))

def hashable (password : String) : Bool :=
  -- bcrypt takes no NUL
  decide (Char.ofNat 0 ∉ password.toList)

/-- The call when nothing fails; none while it waits for a lock. -/
def perform (pid : Nat) (s : Stores) (choice : Choice) : (op : Op) → Option (Res op × Stores)
  | .selectUserByEmail email => reads ((s.db.view pid).usersByEmail email) s
  | .selectUserById id => reads ((s.db.view pid).usersById id) s
  | .selectWalletByUserId userId => reads ((s.db.view pid).walletsByUserId userId) s
  | .selectWalletById id => reads ((s.db.view pid).walletsById id) s
  | .selectWalletForUpdate id => writes s ((s.db.selectForUpdate pid id).map (fun out => (.ok out.1,out.2)))
  | .selectTransactionByKey key => checked (Database.textFits key) .dataError ((s.db.view pid).transactionsByKey key) s
  | .selectTransactionById id => reads ((s.db.view pid).transactionsById id) s
  | .countTransactionsOf walletId => reads ((s.db.view pid).transactionsOf walletId).length s
  | .selectTransactionsOf walletId offset limit =>
      checked (Database.bigintFits offset && Database.bigintFits limit) .dataError
        (((Database.newestFirst ((s.db.view pid).transactionsOf walletId) choice.order).drop offset).take limit) s
  | .updateWallet id expectedVersion balance version =>
      writes s (s.db.updateWallet pid id expectedVersion balance version)
  | .flushWallet id balance => writes s (s.db.flushWallet pid id balance)
  | .insertUser email passwordHash fullName =>
      writes s (s.db.insertUser pid ⟨choice.uuid,email,passwordHash,fullName,true,choice.now⟩)
  | .insertWallet userId =>
      writes s (s.db.insertWallet pid ⟨choice.uuid,userId,⟨0,by decide⟩,"USD",1,choice.now⟩)
  | .insertTransaction new => writes s (s.db.insertTransaction pid new choice.uuid choice.now)
  | .commit => some (.ok (),{s with db := s.db.commit pid})
  | .rollback => some (.ok (),{s with db := s.db.release pid})
  | .close => some (.ok (),{s with db := s.db.release pid})
  | .hashPassword password => checked (hashable password) .nullPasswordError choice.hash s
  | .redisGet key => reads (s.redis key) s
  | .redisSetex key _ value => some (.ok (),{s with redis := Function.update s.redis key (some value)})
  | .redisDelete keys =>
      some (.ok (),{s with redis := fun key => if key ∈ keys then none else s.redis key})

theorem checkedCases {α : Type} {fits : Bool} {e : Exn} {value : α} {s s' : Stores} {r : Except Exn α}
    (h : checked fits e value s = some (r,s')) :
    s' = s ∧ (fits = true ∧ r = .ok value ∨ fits = false ∧ r = .error e) := by
  cases fits with
  | true =>
    cases h
    exact ⟨rfl,.inl ⟨rfl,rfl⟩⟩
  | false =>
    cases h
    exact ⟨rfl,.inr ⟨rfl,rfl⟩⟩

theorem checkedAnswers {α : Type} {fits : Bool} {e : Exn} {value : α} {s : Stores} : checked fits e value s ≠ none := by
  cases fits <;> exact Option.some_ne_none _

theorem checkedError {α : Type} {fits : Bool} {e e' : Exn} {value : α} {s s' : Stores}
    (h : checked fits e value s = some (.error e',s')) : e' = e ∧ s' = s := by
  obtain ⟨rfl,⟨_,same⟩ | ⟨_,same⟩⟩ := checkedCases h
  · cases same
  · cases same
    exact ⟨rfl,rfl⟩

theorem checkedOk {α : Type} {fits : Bool} {e : Exn} {value value' : α} {s s' : Stores}
    (h : checked fits e value s = some (.ok value',s')) : fits = true ∧ value' = value ∧ s' = s := by
  obtain ⟨rfl,⟨fits,same⟩ | ⟨_,same⟩⟩ := checkedCases h
  · cases same
    exact ⟨fits,rfl,rfl⟩
  · cases same

/-- The server ends the transaction of a session that is closed, also when the
closing raises; any other call that raises at once has done nothing. -/
def unperformed (pid : Nat) (s : Stores) : Op → Stores
  | .close => {s with db := s.db.release pid}
  | _ => s

def attempt (pid : Nat) (s : Stores) (op : Op) (choice : Choice) : Option (Res op × Stores) :=
  match choice.fault with
  | .none => perform pid s choice op
  | .raises => some (.error op.failure,unperformed pid s op)
  | .raisesAfter => (perform pid s choice op).map (fun out => (.error op.failure,out.2))

end PaymentSystem
