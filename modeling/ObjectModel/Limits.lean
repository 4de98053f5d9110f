/-!
# Limits

How deep calls may nest and how long a chain of bases may grow. Both must be positive.
-/

namespace ObjectModel

structure Limits where
  callDepth : Nat
  baseChain : Nat
  deriving DecidableEq

/-- Why limits were refused. -/
inductive LimitError where
  | callDepthZero
  | baseChainZero
  /-- The document that should give the limits cannot be read as such. -/
  | unreadable
  deriving DecidableEq

namespace LimitError

/-- What is wrong, where it can be said. -/
def message? : LimitError → Option String
  | callDepthZero => some "Invalid runtime configuration: max_call_depth must be positive"
  | baseChainZero => some "Invalid runtime configuration: max_base_chain must be positive"
  | unreadable => none

end LimitError

namespace Limits

/-- The limits that hold where nothing else is said. -/
def standard : Limits := ⟨512, 256⟩

/-- Accepts positive limits. The call depth is looked at first. -/
def validate (limits : Limits) : Except LimitError Limits :=
  if limits.callDepth = 0 then .error .callDepthZero
  else if limits.baseChain = 0 then .error .baseChainZero
  else .ok limits

end Limits

end ObjectModel
