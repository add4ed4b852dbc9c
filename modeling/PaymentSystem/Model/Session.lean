import PaymentSystem.Model.Statement

/-! An AsyncSession: the identity map over its rows, and how its methods use the
connection. A SELECT does not overwrite the loaded attributes of an object the
session already has; a rollback expires every attribute, the primary key included;
a commit expires nothing. Only wallets are kept: users and transactions are never
read again after the call that returned them. -/
namespace PaymentSystem
open Numerics (Decimal)
open Interleaving (Task)

structure WalletAttributes where
  id : UUID
  userId : UUID
  balance : Decimal
  currency : String
  version : Int
  createdAt : DateTime
  deriving DecidableEq, Repr

def Wallet.attributes (w : Wallet) : WalletAttributes :=
  ⟨w.id,w.userId,w.balance.toDecimal,w.currency,w.version,w.createdAt⟩

inductive WalletState where
  | loaded (attributes : WalletAttributes)
  | expired
  deriving DecidableEq, Repr

structure Session where
  identityMap : UUID → Option WalletState
  dirty : List UUID

structure WalletRef where
  key : UUID
  deriving DecidableEq, Repr

namespace Session

def new : Session := ⟨fun _ => none,[]⟩

def setLoaded (s : Session) (id : UUID) (a : WalletAttributes) : Session :=
  {s with identityMap := Function.update s.identityMap id (some (.loaded a))}

def load (s : Session) (row : Wallet) : Session := s.setLoaded row.id row.attributes

def merge (s : Session) (row : Wallet) : Session :=
  match s.identityMap row.id with
  | some (.loaded _) => s
  | _ => s.load row

def expireAll (s : Session) : Session :=
  ⟨fun id => (s.identityMap id).map (fun _ => .expired),[]⟩

/-- An ORM-enabled UPDATE is applied to the loaded objects that match it, too. -/
def synchronize (s : Session) (id : UUID) (expectedVersion : Int) (balance : Decimal) (version : Int) :
    Session :=
  match s.identityMap id with
  | some (.loaded a) =>
      if a.version = expectedVersion then s.setLoaded id {a with balance := balance, version := version}
      else s
  | _ => s

/-- wallet.balance = value: the object waits for the next flush. -/
def assignBalance (s : Session) (id : UUID) (balance : Decimal) : Session :=
  match s.identityMap id with
  | some (.loaded a) => {s.setLoaded id {a with balance := balance} with dirty := id :: s.dirty}
  | _ => s

end Session

abbrev Py (α : Type) := Task Op Op.Val Session Exn α

def await (op : Op) : Py op.Val := Task.await op

def WalletRef.attributes (ref : WalletRef) : Py WalletAttributes := do
  let session : Session ← Task.read
  match session.identityMap ref.key with
  | some (.loaded a) => pure a
  -- loading it would be an awaited call outside of any
  | _ => throw .missingGreenlet

def WalletRef.id (ref : WalletRef) : Py UUID := do
  let a ← ref.attributes
  pure a.id

def WalletRef.balance (ref : WalletRef) : Py Decimal := do
  let a ← ref.attributes
  pure a.balance

def WalletRef.version (ref : WalletRef) : Py Int := do
  let a ← ref.attributes
  pure a.version

def flushObjects : List UUID → Py Unit
  | [] => pure ()
  | id :: rest => do
      let session : Session ← Task.read
      match session.identityMap id with
      | some (.loaded a) => await (.flushWallet id a.balance)
      | _ => pure ()
      flushObjects rest

/-- Pending attribute changes are written before any statement of the session. -/
def flush : Py Unit := do
  let session : Session ← Task.read
  flushObjects session.dirty
  -- only when all of it has been written
  Task.change (fun s => {s with dirty := []})

def execute (op : Op) : Py op.Val := do
  flush
  await op

def commit : Py Unit := do
  flush
  await .commit

def rollback : Py Unit := do
  await .rollback
  Task.change Session.expireAll

def scalarOneOrNone {α : Type} : List α → Py (Option α)
  | [] => pure none
  | [x] => pure (some x)
  | _ => throw .multipleResultsFound

def objects (rows : List Wallet) : Py (List WalletRef) := do
  Task.change (fun s => rows.foldl Session.merge s)
  pure (rows.map (fun row => ⟨row.id⟩))

/-- db.refresh(wallet): the one read that does overwrite loaded attributes. -/
def refreshWallet (ref : WalletRef) : Py Unit := do
  let rows ← execute (.selectWalletById ref.key)
  match rows with
  | row :: _ => Task.change (fun s => s.load row)
  | [] => throw .invalidRequest

def refreshUser (user : User) : Py User := do
  let rows ← execute (.selectUserById user.id)
  match rows with
  | row :: _ => pure row
  | [] => throw .invalidRequest

def refreshTransaction (transaction : Transaction) : Py Transaction := do
  let rows ← execute (.selectTransactionById transaction.id)
  match rows with
  | row :: _ => pure row
  | [] => throw .invalidRequest

def arithmetic (result : Option Decimal) : Py Decimal :=
  match result with
  | some d => pure d
  | none => throw .decimalOverflow

end PaymentSystem
