import ObjectModel.Exception

/-!
# Attributes, types and instances

* An attribute is looked for on the object itself and along its bases, then on its type. A plain
  function found on the type comes back bound to the object; what is found on the object itself is
  never bound.
* A new type derives from one other type, `object` if none is given.
* Construction has two phases: `__new__` of the type makes an object, `__init__` of that object's
  type initializes it.
-/

namespace ObjectModel

/-! ## 1. Attributes -/

/-- The attribute `name` of `h`, if there is one. -/
def findAttribute (h : Handle) (name : String) : Run (Option Handle) := do
  match ← lookupMember h name with
  | some found => return some found
  | none =>
    match ← findHook h name with
    | none => return none
    | some member =>
      if (← object member).isFunction then
        return some (← allocate (.ofBound h member))
      else
        return some member

def getAttribute (h : Handle) (name : String) : Run Handle := do
  match ← findAttribute h name with
  | some found => return found
  | none => attributeError name

def getAttributeOr (h : Handle) (name : String) (fallback : Handle) : Run Handle :=
  return (← findAttribute h name).getD fallback

/-- Removes an attribute of the object itself. -/
def deleteAttribute (h : Handle) (name : String) : Run Unit := do
  match (← object h).attributes.get? name with
  | some _ => .act (.eraseAttribute h name)
  | none => attributeError name

/-! ## 2. Types -/

/-- Defines a type with these members; `__name__` is always set. The chain of the base must leave
room for one more link. -/
def defineType (name : String) (base : Option Handle) (members : List (String × Handle)) :
    Run Handle := do
  let base := base.getD BuiltinType.object.handle
  if !(← isType base) then
    typeError ("base must be a type, not " ++ (← typeName base))
  let links ← inspectHeap fun heap => heap.chain base
  let limit ← inspect fun s => some s.limits.baseChain
  if limit ≤ links.length then
    throw (.baseChainTooDeep name limit)
  let nameText ← newText name
  allocate (.ofType name (some base) ((OrderedMap.ofList members).insert "__name__" nameText))

/-! ## 3. Instances -/

/-- Makes an instance of `type`. The result of `__init__` is dropped. -/
def instantiate (type : Handle) (args : List Handle) : Run Handle := do
  if !(← isType type) then
    typeError ("cannot instantiate a " ++ (← typeName type) ++ " object")
  match ← lookupMember type "__new__" with
  | none => typeError ("cannot create '" ++ (← typeName type) ++ "' instances")
  | some new =>
    let made ← call new (type :: args)
    match ← findHook made "__init__" with
    | none => return made
    | some init =>
      let _ ← call init (made :: args)
      return made

/-! ## 4. Names and methods -/

def globalValue (name : String) : Run Handle := do
  match ← inspect fun s => some (s.globals.get? name) with
  | some value => return value
  | none => nameError name

def callGlobal (name : String) (args : List Handle) : Run Handle := do
  let callee ← globalValue name
  call callee args

/-- Calls the attribute `name` of `receiver`. -/
def callMethod (receiver : Handle) (name : String) (args : List Handle) : Run Handle := do
  let method ← getAttribute receiver name
  call method args

end ObjectModel
