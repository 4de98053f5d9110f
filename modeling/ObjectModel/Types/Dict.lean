import ObjectModel.Iteration

/-!
# Members of `dict`

Mappings from text to objects, in order of arrival.
-/

namespace ObjectModel

/-! ## 1. Storage -/

/-- Keys are text. -/
def dictKey (key : Handle) : Run String := do
  match ← textValue key with
  | some text => return text
  | none => typeError ("dict keys must be str, not " ++ (← className key))

/-- The entries of the mapping a member was called on. -/
def dictReceiver (name : String) (h : Handle) : Run (OrderedMap Handle) := do
  match ← dictEntries h with
  | some entries => return entries
  | none => typeError ("`" ++ name ++ "` requires a dict receiver")

def dictGet (dict key : Handle) : Run (Option Handle) := do
  let key ← dictKey key
  return (← dictReceiver "dict.get" dict).get? key

def dictSet (dict key value : Handle) : Run Unit := do
  let key ← dictKey key
  let _ ← dictReceiver "dict.__setitem__" dict
  .act (.setEntry dict key value)

def dictDelete (dict key : Handle) : Run Unit := do
  let text ← dictKey key
  let entries ← dictReceiver "dict.__delitem__" dict
  match entries.get? text with
  | some _ => .act (.eraseEntry dict text)
  | none => keyError (← repr key)

/-! ## 2. Members -/

/-- Stores one element of a source of pairs. -/
def dictUpdate (dict pair : Handle) : Run Unit := do
  match ← collect pair with
  | [key, value] => dictSet dict key value
  | parts =>
    valueError
      ("dict update sequence element has length " ++ toString parts.length ++ "; 2 is required")

/-- The entries rendered one after another. -/
def renderEntries : List (String × Handle) → Run (List String)
  | [] => return []
  | (key, value) :: rest => do
    let first ← repr value
    return (Text.quote key ++ ": " ++ first) :: (← renderEntries rest)

def DictMember.run : DictMember → List Handle → Run Handle
  | new, [] => typeError "`dict.__new__` needs a type"
  | new, type :: _ => allocate (.emptyDict type)
  | init, [_] => return .none
  | init, [h, source] => do
    forEach source () fun _ pair => dictUpdate h pair
    return .none
  | init, args => wrongArity "dict.__init__" 1 2 args
  | get, [h, key] => do
    match ← dictGet h key with
    | some value => return value
    | none => keyError (← ObjectModel.repr key)
  | get, [h, key, fallback] => return (← dictGet h key).getD fallback
  | get, args => wrongArity "dict.get" 2 3 args
  | getItem, [h, key] => do
    match ← dictGet h key with
    | some value => return value
    | none => keyError (← ObjectModel.repr key)
  | getItem, args => wrongArity "dict.__getitem__" 2 2 args
  | setItem, [h, key, value] => do
    dictSet h key value
    return .none
  | setItem, args => wrongArity "dict.__setitem__" 3 3 args
  | delItem, [h, key] => do
    dictDelete h key
    return .none
  | delItem, args => wrongArity "dict.__delitem__" 2 2 args
  | contains, [h, key] => return .ofBool (← dictGet h key).isSome
  | contains, args => wrongArity "dict.__contains__" 2 2 args
  | len, [h] => do newInt (Int64.ofNat (← dictReceiver "dict.__len__" h).size)
  | len, args => wrongArity "dict.__len__" 1 1 args
  | iter, [h] => do
    let entries ← dictReceiver "dict.__iter__" h
    newGenerator (.entries entries.values entries.toList (List.Subset.refl entries.values))
  | iter, args => wrongArity "dict.__iter__" 1 1 args
  | repr, [h] => do
    let pieces ← renderEntries (← dictReceiver "dict.__repr__" h).toList
    newText ("\x7b" ++ Text.joinWith ", " pieces ++ "\x7d")
  | repr, args => wrongArity "dict.__repr__" 1 1 args

end ObjectModel
