import PaymentSystem.Base.JsonLines
import PaymentSystem.Service.RateLimiter

/-! The log of production: a JSON object a line, with the context variables of the request
that the record comes from. -/
namespace PaymentSystem
open JsonText (Json dumps)
open Numeral (fixed)

def DateTime.isoformat (t : DateTime) : String :=
  String.ofList (fixed 10 4 t.year ++ '-' :: (fixed 10 2 t.month ++ '-' :: (fixed 10 2 t.day ++ 'T' ::
    (fixed 10 2 t.hour ++ ':' :: (fixed 10 2 t.minute ++ ':' :: (fixed 10 2 t.second ++
      ((if t.microsecond.val = 0 then [] else '.' :: fixed 10 6 t.microsecond) ++ ['+','0','0',':','0','0'])))))))

structure ExceptionInfo where
  typeName : String
  text : String
  deriving DecidableEq, Repr

/-- A record of the logging module; its exc_info can be there and hold no exception. -/
structure LogRecord where
  levelname : String
  moduleName : String
  funcName : String
  lineno : Int
  message : String
  excInfo : Option (Option ExceptionInfo)
  deriving DecidableEq, Repr

namespace JSONFormatter

def exceptionMembers : Option (Option ExceptionInfo) → List (String × Json)
  | some (some e) => [("exception",.object [("type",.string e.typeName),("message",.string e.text)])]
  | _ => []

def logEntry (appName : String) (context : RequestContext) (now : DateTime) (record : LogRecord) : Json :=
  .object ([("timestamp",.string now.isoformat),("level",.string record.levelname),("service",.string appName),
    ("module",.string record.moduleName),("function",.string record.funcName),("line",.number record.lineno),
    ("message",.string record.message),("request_id",.string context.requestIdCtx),
    ("user_id",.string context.userIdCtx)] ++ exceptionMembers record.excInfo)

def format (appName : String) (context : RequestContext) (now : DateTime) (record : LogRecord) : String :=
  dumps (logEntry appName context now record)

end JSONFormatter

structure Emitted where
  context : RequestContext
  now : DateTime
  record : LogRecord

def Emitted.entry (appName : String) (e : Emitted) : Json := JSONFormatter.logEntry appName e.context e.now e.record

def Emitted.emit (appName : String) (e : Emitted) : List Char :=
  (JSONFormatter.format appName e.context e.now e.record).toList ++ ['\n']

def logText (appName : String) (emitted : List Emitted) : List Char := emitted.flatMap (Emitted.emit appName)

example : (⟨2024,1,1,9,30,0,5⟩ : DateTime).isoformat = "2024-01-01T09:30:00.000005+00:00" := by decide

end PaymentSystem
