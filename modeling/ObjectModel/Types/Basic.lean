import ObjectModel.Protocol

/-!
# Members of `object`, `type` and `function`

The members every object inherits, the construction of types, and calls through `__call__`.
-/

namespace ObjectModel

/-! ## 1. `object` -/

def ObjectMember.run : ObjectMember → List Handle → Run Handle
  | new, [] => typeError "`object.__new__` needs a type"
  | new, type :: _ => do
    if ← isType type then allocate (.bare type) else typeError "`object.__new__` needs a type"
  | init, _ => return .none
  | repr, [h] => do newText ("<" ++ (← className h) ++ " object>")
  | repr, args => wrongArity "object.__repr__" 1 1 args
  | str, [h] => do newText (← ObjectModel.repr h)
  | str, args => wrongArity "object.__str__" 1 1 args
  | eq, [l, r] => return if l = r then .true else .notImplemented
  | eq, args => wrongArity "object.__eq__" 2 2 args
  | ne, [l, r] => return if l = r then .false else .notImplemented
  | ne, args => wrongArity "object.__ne__" 2 2 args

/-! ## 2. `type` -/

/-- A type shows itself by its name. -/
def typeRepr : List Handle → Run Handle
  | [h] => do newText ("<class '" ++ (← typeName h) ++ "'>")
  | args => wrongArity "type.__repr__" 1 1 args

def TypeMember.run : TypeMember → List Handle → Run Handle
  | call, [] => typeError "`type.__call__` needs a receiver"
  | call, type :: args =>
    match args with
    | [h] => if type = BuiltinType.type.handle then typeOf h else instantiate type args
    | _ => instantiate type args
  | new, [_, name, base, members] => do
    match ← textValue name with
    | none => typeError "type name must be a str"
    | some name =>
      match ← dictEntries members with
      | none => typeError "type members must be a dict"
      | some entries => defineType name (if base = .none then none else some base) entries.toList
  | new, args => wrongArity "type.__new__" 4 4 args
  | init, _ => return .none
  | repr, args => typeRepr args
  | str, args => typeRepr args

/-! ## 3. `function` -/

def FunctionMember.run : FunctionMember → List Handle → Run Handle
  | new, _ => notImplementedError "functions are created by the execution engine"
  | call, [] => typeError "`function.__call__` needs a receiver"
  | call, callee :: args => ObjectModel.call callee args
  | repr, [h] => do
    match (← object h).payload with
    | .bound _ function =>
      let name ← inspectHeap fun heap => heap.functionName function
      newText ("<bound method " ++ name.getD "?" ++ ">")
    | .function name _ => newText ("<function " ++ name ++ ">")
    | _ => newText "<function>"
  | repr, args => wrongArity "function.__repr__" 1 1 args

end ObjectModel
