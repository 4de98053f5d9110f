import ObjectModel.State

/-!
# The first state

Every state starts with the builtin types, the singletons, the names of the types, the builtin
members and the builtin functions, placed into the heap in this order, and with the global names
bound to them.
-/

namespace ObjectModel.Bootstrap

/-! ## 1. The heap -/

/-- Places objects one after another. -/
def place (objects : List Object) (heap : Heap) : Heap :=
  objects.foldl (fun heap object => (heap.allocate object).2) heap

/-- The builtin types without members. -/
def types : List Object :=
  BuiltinType.all.map fun t => .ofType t.name (t.base?.map (·.handle)) .empty

def singletons : List Object :=
  [⟨.none, BuiltinType.noneType.handle, .empty⟩,
    ⟨.notImplemented, BuiltinType.notImplementedType.handle, .empty⟩,
    ⟨.bool true, BuiltinType.bool.handle, .empty⟩,
    ⟨.bool false, BuiltinType.bool.handle, .empty⟩]

/-- Places `object` and makes it the attribute `name` of `owner`. -/
def furnish (heap : Heap) (owner : Handle) (name : String) (object : Object) : Heap :=
  let (h, heap) := heap.allocate object
  heap.modify owner fun o => { o with attributes := o.attributes.insert name h }

/-- Every type knows its name. -/
def nameTypes (heap : Heap) : Heap :=
  BuiltinType.all.foldl (fun heap t => furnish heap t.handle "__name__" (.ofText t.name)) heap

def placeMembers (heap : Heap) : Heap :=
  Member.all.foldl (fun heap m => furnish heap m.owner.handle m.name
    (.ofCode m.qualifiedName (.member m))) heap

/-- The heap before the builtin functions are placed. -/
def furnished : Heap := placeMembers (nameTypes (place singletons (place types .empty)))

def functions : List Object := BuiltinFunction.every.map fun f => .ofCode f.name (.builtin f)

/-- The first heap. -/
def heap : Heap := place functions furnished

/-! ## 2. Global names -/

/-- The builtin functions with their handles: they fill the slots behind the members. -/
def functionGlobals : List (String × Handle) :=
  BuiltinFunction.every.zipIdx.map fun (f, i) => (f.name, .first (furnished.slots.size + i))

def globals : OrderedMap Handle :=
  .ofList (BuiltinType.globalOrder.map (fun t => (t.name, t.handle))
    ++ [("None", .none), ("NotImplemented", .notImplemented), ("True", .true), ("False", .false)]
    ++ functionGlobals)

end ObjectModel.Bootstrap

namespace ObjectModel

/-! ## 3. The state -/

/-- The state a host starts with. -/
def State.initial (limits : Limits) (console : Console) : State :=
  { heap := Bootstrap.heap
    globals := Bootstrap.globals
    pins := .empty
    console
    limits
    callDepth := 0
    shared := .empty
    foundation := Bootstrap.heap.live }

end ObjectModel
