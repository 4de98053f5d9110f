import ObjectModel.Console
import ObjectModel.Handle

/-!
# Faults

Why a computation failed: a raised exception, or one of the internal causes that no exception object
stands for.

`Fault.message` is the text of each.
-/

namespace ObjectModel

/-- The primitives that refuse operands of the wrong kind or at the wrong time. -/
inductive Intrinsic where
  /-- A generator was to be advanced; the payload was of the named kind. -/
  | advance (kind : String)
  /-- A collection was asked for while calls were running. -/
  | collectInsideCall
  deriving DecidableEq

namespace Intrinsic

def operation : Intrinsic → String
  | advance _ => "gen_next"
  | collectInsideCall => "collect_garbage"

def reason : Intrinsic → String
  | advance kind => "expected generator, got " ++ kind
  | collectInsideCall => "native frames are still running"

end Intrinsic

inductive Fault where
  /-- An exception with its rendered text. -/
  | raised (exception : Handle) (text : String)
  | intrinsic (cause : Intrinsic)
  | callDepthExceeded (limit : Nat)
  | baseChainTooDeep (typeName : String) (limit : Nat)
  | console (cause : ConsoleError)
  deriving DecidableEq

namespace Fault

def message : Fault → String
  | raised _ text => text
  | intrinsic cause => "Intrinsic '" ++ cause.operation ++ "' failed: " ++ cause.reason
  | callDepthExceeded limit => "Maximum call depth of " ++ toString limit ++ " exceeded"
  | baseChainTooDeep typeName limit =>
    "Base chain of type '" ++ typeName ++ "' is longer than " ++ toString limit ++ " links"
  | console cause => "Console " ++ cause.operation.name ++ " failed: " ++ cause.message

/-- The exception a fault carries. -/
def exception : Fault → Option Handle
  | raised exception _ => some exception
  | _ => none

end Fault

end ObjectModel
