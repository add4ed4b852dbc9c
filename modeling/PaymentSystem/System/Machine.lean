import PaymentSystem.Service.Payments

/-! The whole system: any number of requests, each on a session of its own, their
awaited calls interleaved in any order on the two stores. A request can stop at
any awaited call, which ends its database transaction, and a Redis entry can
expire or be evicted at any time. The calls made and the history of steps are
remembered beside the stores; no request reads them. -/
namespace PaymentSystem
open Numerics (Decimal)
open Interleaving (Program Machine Config Event Reach)

inductive Call where
  | register (data : UserCreate)
  | topUp (userId : UUID) (amount : Amount) (redisClient : Bool)
  | sendMoney (userId : UUID) (request : PaymentRequest) (redisClient : Bool)
  | getWallet (userId : UUID) (redisClient : Bool)
  | getBalanceFast (userId : UUID) (redisClient : Bool)
  | getTransactionHistory (userId : UUID) (page pageSize : Nat) (status : Option String)
  | getTransaction (userId transactionId : UUID)
  deriving DecidableEq

inductive Response where
  | user (user : UserResponse)
  | wallet (wallet : WalletResponse)
  | balance (balance : Decimal)
  | payment (transaction : TransactionResponse)
  | history (list : TransactionListResponse)
  | transaction (transaction : TransactionResponse)
  deriving DecidableEq, Repr

def Response.transactions : Response → List TransactionResponse
  | .payment t => [t]
  | .history list => list.transactions
  | .transaction t => [t]
  | _ => []

abbrev Outcome := Except Exn Response

/-- One step of a request, or its stopping, with the number of commits before it. -/
inductive Record where
  | called (pid : Nat) (op : Op) (fault : Fault) (result : Res op) (commits : Nat)
  | stopped (pid : Nat) (commits : Nat)

namespace Record

def pid : Record → Nat
  | .called pid _ _ _ _ => pid
  | .stopped pid _ => pid

def commits : Record → Nat
  | .called _ _ _ _ commits => commits
  | .stopped _ commits => commits

end Record

structure World where
  calls : List Call
  stores : Stores
  log : List Record

namespace World

def empty : World := ⟨[],⟨Database.empty,fun _ => none⟩,[]⟩

abbrev db (w : World) : Database := w.stores.db
abbrev redis (w : World) : Redis := w.stores.redis
abbrev wal (w : World) : List Commit := w.stores.db.wal
abbrev tables (w : World) : Tables := w.stores.db.tables

def exec (pid : Nat) (w : World) (op : Op) (choice : Choice) : Option (Res op × World) :=
  (attempt pid w.stores op choice).map (fun out =>
    (out.1,{w with
      stores := out.2,
      log := w.log ++ [.called pid op choice.fault out.1 w.wal.length]}))

def start (w : World) (call : Call) : World := {w with calls := w.calls ++ [call]}

def stop (pid : Nat) (w : World) : World :=
  {w with
    stores := {w.stores with db := w.db.release pid},
    log := w.log ++ [.stopped pid w.wal.length]}

def evict (key : String) (w : World) : World :=
  {w with stores := {w.stores with redis := Function.update w.redis key none}}

end World

section
variable [Pydantic]

def Call.service : Call → Py Response
  | .register data => do return .user (← UserService.register data)
  | .topUp userId amount redisClient => do
      return .wallet (← WalletService.topUp userId amount.value redisClient)
  | .sendMoney userId request redisClient => do
      return .payment (← PaymentService.sendMoney userId request redisClient)
  | .getWallet userId redisClient => do return .wallet (← WalletService.getWallet userId redisClient)
  | .getBalanceFast userId redisClient => do
      return .balance (← WalletService.getBalanceFast userId redisClient)
  | .getTransactionHistory userId page pageSize status => do
      return .history (← PaymentApi.getTransactionHistory userId page pageSize status)
  | .getTransaction userId transactionId => do
      return .transaction (← PaymentApi.getTransaction userId transactionId)

/-- get_db gives the call a session and closes it after the call, also on an exception. -/
def Call.program (call : Call) : Program Op Res Outcome :=
  (call.service Session.new).bind (fun out => .call .close (fun _ => .done out.1))

def machine : Machine Op Res World Choice Call String Outcome where
  exec := World.exec
  start := World.start
  program := Call.program
  stop := World.stop
  stopped := .error .cancelled
  drift := fun key w => some (w.evict key)

abbrev State := Config Op Res World Outcome

def State.outcome (c : State) (pid : Nat) : Option Outcome := c.running[pid]?.bind Program.finished

def State.awaits (c : State) (pid : Nat) : Option Op := c.running[pid]?.bind Program.awaited

def initial : State := ⟨World.empty,[]⟩

abbrev Reachable (c : State) : Prop := Reach machine (fun _ _ => True) initial c

end
end PaymentSystem
