import PaymentSystem.Model.Rows
import Mathlib.Data.List.Sort
import Mathlib.Logic.Function.Basic

/-! PostgreSQL at READ COMMITTED, as far as the statements of this program use
it. A statement sees the committed rows and its own transaction's writes. A row
lock, and an entry of a unique index that an open transaction made, is held to the
end of the transaction; who meets it waits, which is none here. -/
namespace PaymentSystem
open Numerics (Decimal Numeric)

structure Tables where
  users : List User
  wallets : List Wallet
  transactions : List Transaction
  deriving DecidableEq, Repr

def Tables.empty : Tables := ⟨[],[],[]⟩

inductive Write where
  | insertUser (row : User)
  | insertWallet (row : Wallet)
  | insertTransaction (row : Transaction)
  | updateWallet (id : UUID) (balance : Money) (version : Int)
  deriving DecidableEq, Repr

inductive Resource where
  | user (id : UUID)
  | email (value : String)
  | wallet (id : UUID)
  | walletOwner (userId : UUID)
  | transaction (id : UUID)
  | idempotencyKey (value : String)
  deriving DecidableEq, Repr

def Write.resources : Write → List Resource
  | .insertUser row => [.user row.id,.email row.email]
  | .insertWallet row => [.wallet row.id,.walletOwner row.userId]
  | .insertTransaction row => [.transaction row.id,.idempotencyKey row.idempotencyKey]
  | .updateWallet id _ _ => [.wallet id]

namespace Tables

def updateWallet (t : Tables) (id : UUID) (balance : Money) (version : Int) : Tables :=
  {t with wallets := t.wallets.map (fun w =>
    if w.id = id then {w with balance := balance, version := version} else w)}

def apply (t : Tables) : Write → Tables
  | .insertUser row => {t with users := t.users ++ [row]}
  | .insertWallet row => {t with wallets := t.wallets ++ [row]}
  | .insertTransaction row => {t with transactions := t.transactions ++ [row]}
  | .updateWallet id balance version => t.updateWallet id balance version

def applyAll (t : Tables) (writes : List Write) : Tables := writes.foldl apply t

def taken (t : Tables) : Resource → Bool
  | .user id => t.users.any (fun u => u.id == id)
  | .email value => t.users.any (fun u => u.email == value)
  | .wallet id => t.wallets.any (fun w => w.id == id)
  | .walletOwner userId => t.wallets.any (fun w => w.userId == userId)
  | .transaction id => t.transactions.any (fun x => x.id == id)
  | .idempotencyKey value => t.transactions.any (fun x => x.idempotencyKey == value)

def usersByEmail (t : Tables) (email : String) : List User := t.users.filter (fun u => u.email == email)

def usersById (t : Tables) (id : UUID) : List User := t.users.filter (fun u => u.id == id)

def walletsByUserId (t : Tables) (userId : UUID) : List Wallet :=
  t.wallets.filter (fun w => w.userId == userId)

def walletsById (t : Tables) (id : UUID) : List Wallet := t.wallets.filter (fun w => w.id == id)

def transactionsByKey (t : Tables) (key : String) : List Transaction :=
  t.transactions.filter (fun x => x.idempotencyKey == key)

def transactionsById (t : Tables) (id : UUID) : List Transaction :=
  t.transactions.filter (fun x => x.id == id)

def party (walletId : UUID) (x : Transaction) : Bool :=
  x.senderWalletId == walletId || x.receiverWalletId == walletId

def transactionsOf (t : Tables) (walletId : UUID) : List Transaction := t.transactions.filter (party walletId)

end Tables

structure Commit where
  pid : Nat
  writes : List Write
  deriving DecidableEq, Repr

structure Database where
  tables : Tables
  wal : List Commit
  pending : Nat → List Write
  locks : Resource → Option Nat

namespace Database

def empty : Database := ⟨.empty,[],fun _ => [],fun _ => none⟩

def view (db : Database) (pid : Nat) : Tables := db.tables.applyAll (db.pending pid)

def heldByOther (db : Database) (pid : Nat) (r : Resource) : Bool :=
  match db.locks r with
  | none => false
  | some holder => decide (holder ≠ pid)

def acquire (db : Database) (pid : Nat) (rs : List Resource) : Database :=
  {db with locks := fun r => if r ∈ rs then some pid else db.locks r}

def stage (db : Database) (pid : Nat) (write : Write) : Database :=
  let db := db.acquire pid write.resources
  {db with pending := Function.update db.pending pid (db.pending pid ++ [write])}

def release (db : Database) (pid : Nat) : Database :=
  {db with
    pending := Function.update db.pending pid [],
    locks := fun r => if db.locks r = some pid then none else db.locks r}

def commit (db : Database) (pid : Nat) : Database :=
  -- without writes there is nothing to remember
  if db.pending pid = [] then db.release pid
  else ({db with tables := db.view pid, wal := db.wal ++ [⟨pid,db.pending pid⟩]} : Database).release pid

/-- SELECT ... FOR UPDATE of one wallet: waits for its row lock, then reads the
newest committed version; no row is locked when none is found. -/
def selectForUpdate (db : Database) (pid : Nat) (id : UUID) : Option (List Wallet × Database) :=
  let rows := (db.view pid).walletsById id
  -- no row, no lock
  if rows = [] then some ([],db)
  else if db.heldByOther pid (.wallet id) then none
  else some (rows,db.acquire pid [.wallet id])

def bigintFits (n : Nat) : Bool :=
  -- a parameter of OFFSET or LIMIT is a bigint
  decide (n ≤ 9223372036854775807)

def integerFits (n : Int) : Bool := decide (-2147483648 ≤ n ∧ n ≤ 2147483647)

/-- UPDATE wallets SET balance, version WHERE id AND version: the parameters are
converted first; a row that matches is waited for and matched again. -/
def updateWallet (db : Database) (pid : Nat) (id : UUID) (expectedVersion : Int) (balance : Decimal)
    (version : Int) : Option (Except Exn Nat × Database) :=
  match Numeric.ofDecimal 18 2 balance with
  | none => some (.error .dataError,db)
  | some stored =>
    if !(integerFits expectedVersion && integerFits version) then some (.error .dataError,db)
    else if ((db.view pid).walletsById id).filter (fun w => w.version == expectedVersion) = [] then
      some (.ok 0,db)
    else if db.heldByOther pid (.wallet id) then none
    else if stored.units < 0 then some (.error (.integrityError .balanceNonNegative),db)
    else some (.ok 1,db.stage pid (.updateWallet id stored version))

def flushWallet (db : Database) (pid : Nat) (id : UUID) (balance : Decimal) :
    Option (Except Exn Unit × Database) :=
  match Numeric.ofDecimal 18 2 balance with
  | none => some (.error .dataError,db)
  | some stored =>
    match (db.view pid).walletsById id with
    | [] => some (.error .staleData,db)
    | row :: _ =>
      if db.heldByOther pid (.wallet id) then none
      else if stored.units < 0 then some (.error (.integrityError .balanceNonNegative),db)
      else some (.ok (),db.stage pid (.updateWallet id stored row.version))

/-- A unique index is checked against committed rows and the own ones; an entry
another open transaction made is waited for. A generated id that is in use at all
violates its primary key. -/
def uniqueCheck (db : Database) (pid : Nat) (primaryKey : Resource) (unique : Resource)
    (onPrimaryKey onUnique : Constraint) : Option (Option Constraint) :=
  if db.heldByOther pid primaryKey || (db.view pid).taken primaryKey then some (some onPrimaryKey)
  else if db.heldByOther pid unique then none
  else if (db.view pid).taken unique then some (some onUnique)
  else some none

def textFits (text : String) : Bool :=
  -- PostgreSQL stores no NUL in a text
  decide (Char.ofNat 0 ∉ text.toList)

def insertUser (db : Database) (pid : Nat) (row : User) : Option (Except Exn User × Database) :=
  if !(textFits row.email && textFits row.fullName) then some (.error .dataError,db)
  else match db.uniqueCheck pid (.user row.id) (.email row.email) .usersPrimaryKey .usersEmail with
  | none => none
  | some (some violated) => some (.error (.integrityError violated),db)
  | some none => some (.ok row,db.stage pid (.insertUser row))

def insertWallet (db : Database) (pid : Nat) (row : Wallet) : Option (Except Exn Wallet × Database) :=
  if row.balance.units < 0 then some (.error (.integrityError .balanceNonNegative),db)
  else match db.uniqueCheck pid (.wallet row.id) (.walletOwner row.userId) .walletsPrimaryKey .walletsUserId with
  | none => none
  | some (some violated) => some (.error (.integrityError violated),db)
  | some none =>
    -- foreign keys are checked after the row is in the unique indexes
    if !(db.view pid).taken (.user row.userId) then
      some (.error (.integrityError .walletsUserForeignKey),db)
    else some (.ok row,db.stage pid (.insertWallet row))

structure NewTransaction where
  senderWalletId : UUID
  receiverWalletId : UUID
  amount : Decimal
  currency : String
  status : TransactionStatus
  idempotencyKey : String
  description : Option String
  deriving DecidableEq, Repr

def insertTransaction (db : Database) (pid : Nat) (new : NewTransaction) (id : UUID) (now : DateTime) :
    Option (Except Exn Transaction × Database) :=
  match Numeric.ofDecimal 18 2 new.amount with
  | none => some (.error .dataError,db)
  | some amount =>
    let row : Transaction := ⟨id,new.senderWalletId,new.receiverWalletId,amount,new.currency,new.status,
      new.idempotencyKey,new.description,now⟩
    if !(textFits row.idempotencyKey && row.description.all textFits) then some (.error .dataError,db)
    else if amount.units ≤ 0 then some (.error (.integrityError .amountPositive),db)
    else if row.senderWalletId = row.receiverWalletId then
      some (.error (.integrityError .differentWallets),db)
    else match db.uniqueCheck pid (.transaction id) (.idempotencyKey row.idempotencyKey)
        .transactionsPrimaryKey .transactionsIdempotencyKey with
    | none => none
    | some (some violated) => some (.error (.integrityError violated),db)
    | some none =>
      if !(db.view pid).taken (.wallet row.senderWalletId) then
        some (.error (.integrityError .senderForeignKey),db)
      else if !(db.view pid).taken (.wallet row.receiverWalletId) then
        some (.error (.integrityError .receiverForeignKey),db)
      else some (.ok row,db.stage pid (.insertTransaction row))

/-- ORDER BY created_at DESC: rows of one instant come in any order, so a proposed
order is taken when it is one the query allows. -/
def newestFirst (rows proposed : List Transaction) : List Transaction :=
  if proposed.Perm rows ∧ proposed.Pairwise (fun a b => b.createdAt.rank ≤ a.createdAt.rank) then proposed
  else rows.insertionSort (fun a b => b.createdAt.rank ≤ a.createdAt.rank)

end Database
end PaymentSystem
