import ObjectModel.Types.Sequence

/-!
# Members of `tuple`

Tuples never change.
-/

namespace ObjectModel

/-- The items a member was called on. -/
def tupleReceiver (name : String) (h : Handle) : Run (List Handle) := do
  match ← tupleItems h with
  | some items => return items
  | none => typeError ("`" ++ name ++ "` requires a tuple receiver")

/-- Rendered items in parentheses; a single one is followed by a comma. -/
def tupleText : List String → String
  | [only] => "(" ++ only ++ ",)"
  | pieces => "(" ++ Text.joinWith ", " pieces ++ ")"

def TupleMember.run : TupleMember → List Handle → Run Handle
  | new, [_] => newTuple []
  | new, [_, iterable] => do newTuple (← collect iterable)
  | new, args => wrongArity "tuple.__new__" 1 2 args
  | len, [h] => do newInt (Int64.ofNat (← tupleReceiver "tuple.__len__" h).length)
  | len, args => wrongArity "tuple.__len__" 1 1 args
  | getItem, [h, index] => do
    let items ← tupleReceiver "tuple.__getitem__" h
    return itemAt items (← position "tuple" index items.length)
  | getItem, args => wrongArity "tuple.__getitem__" 2 2 args
  | eq, [left, right] => do
    let l ← tupleReceiver "tuple.__eq__" left
    match ← tupleItems right with
    | none => return .notImplemented
    | some r => return .ofBool (← itemsEqual l r)
  | eq, args => wrongArity "tuple.__eq__" 2 2 args
  | add, [left, right] => do
    let l ← tupleReceiver "tuple.__add__" left
    match ← tupleItems right with
    | none => return .notImplemented
    | some r => newTuple (l ++ r)
  | add, args => wrongArity "tuple.__add__" 2 2 args
  | iter, [h] => do yieldEach (← tupleReceiver "tuple.__iter__" h)
  | iter, args => wrongArity "tuple.__iter__" 1 1 args
  | repr, [h] => do newText (tupleText (← renderItems (← tupleReceiver "tuple.__repr__" h)))
  | repr, args => wrongArity "tuple.__repr__" 1 1 args

end ObjectModel
