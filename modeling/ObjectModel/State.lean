import ObjectModel.Fault
import ObjectModel.Heap.Lookup
import ObjectModel.Heap.Marking
import ObjectModel.Limits
import ObjectModel.Pins

/-!
# States

All that a running program changes: the heap, the global names, the pins, the console, the names
that scripts share, and how deep calls are nested.

The primitive changes are defined here. Everything else is composed of them.
-/

namespace ObjectModel

structure State where
  heap : Heap
  globals : OrderedMap Handle
  pins : Pins
  console : Console
  limits : Limits
  /-- Running calls and running generators. -/
  callDepth : Nat
  /-- Names that all scripts of a host share. They keep nothing alive. -/
  shared : OrderedMap Handle
  /-- Number of objects the state started with. -/
  foundation : Nat

namespace State

/-- Objects beyond those the state started with. -/
def objectCount (s : State) : Int := (s.heap.live : Int) - s.foundation

/-! ## 1. Objects -/

def allocate (s : State) (object : Object) : Handle × State :=
  let (h, heap) := s.heap.allocate object
  (h, { s with heap })

def modify (s : State) (h : Handle) (change : Object → Object) : State :=
  { s with heap := s.heap.modify h change }

def setAttribute (s : State) (h : Handle) (name : String) (value : Handle) : State :=
  s.modify h fun object => { object with attributes := object.attributes.insert name value }

def eraseAttribute (s : State) (h : Handle) (name : String) : State :=
  s.modify h fun object => { object with attributes := object.attributes.erase name }

/-- Changes the storage of a `dict`; other objects stay as they are. -/
def modifyEntries (s : State) (h : Handle) (change : OrderedMap Handle → OrderedMap Handle) :
    State :=
  s.modify h fun object =>
    match object.payload with
    | .dict entries => { object with payload := .dict (change entries) }
    | _ => object

/-- Puts a generator into another state; other objects stay as they are. -/
def setGenerator (s : State) (h : Handle) (g : Generator) : State :=
  s.modify h fun object =>
    match object.payload with
    | .generator _ => { object with payload := .generator g }
    | _ => object

/-! ## 2. Collection -/

/-- What keeps an object alive: the builtin types, the singletons, the global names, the pins and
`extra`. -/
def roots (s : State) (extra : List Handle) : List Handle :=
  BuiltinType.globalOrder.map (·.handle) ++ [.none, .notImplemented, .true, .false]
    ++ s.globals.values ++ s.pins.handles ++ extra

/-- Frees every object that nothing keeps alive. Refused while calls are running, because they hold
handles of their own. -/
def collect (s : State) (extra : List Handle) : Except Fault Nat × State :=
  if 0 < s.callDepth then (.error (.intrinsic .collectInsideCall), s)
  else
    let (freed, heap) := s.heap.collect (s.roots extra)
    (.ok freed, { s with heap })

/-! ## 3. Console -/

def write (s : State) (text : String) : Except Fault Unit × State :=
  match s.console.write text with
  | .ok console => (.ok (), { s with console })
  | .error cause => (.error (.console cause), s)

def flush (s : State) : Except Fault Unit × State :=
  match s.console.flush with
  | .ok console => (.ok (), { s with console })
  | .error cause => (.error (.console cause), s)

def readLine (s : State) : Except Fault (Option String) × State :=
  let (answer, console) := s.console.readLine
  match answer with
  | .ok line => (.ok line, { s with console })
  | .error cause => (.error (.console cause), { s with console })

/-! ## 4. Depth -/

/-- One call or generator more is running. -/
def enter (s : State) : State := { s with callDepth := s.callDepth + 1 }

/-- One call or generator less is running. -/
def leave (s : State) : State := { s with callDepth := s.callDepth - 1 }

end State

end ObjectModel
