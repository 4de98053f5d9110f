import ObjectModel.State

/-!
# Views

What a host sees of an object: a finite description that is read off the heap without running
anything. Containers are described down to a fixed depth.

A `Report` describes the result of an operation, which may also be a truth value, a number, a text,
an optional object, a list of objects or nothing.
-/

namespace ObjectModel.Script

/-! ## 1. Descriptions -/

inductive View where
  /-- The object is gone. -/
  | stale
  | none
  | notImplemented
  | bool (b : Bool)
  | int (n : Int64)
  | text (s : String)
  | type (name : String)
  /-- An object below the depth to which containers are described. -/
  | deep (className : String)
  | tuple (items : List View)
  | list (items : List View) (className : String)
  | bound (receiver function : View)
  | liveGenerator
  | stoppedGenerator (result : Option View)
  | exception (className : String) (args : List View)
  | object (className : String)

/-- A fault as a host sees it. -/
inductive FaultView where
  | raised (className : String) (message : String) (args : List View)
  | internal (fault : Fault)

inductive Report where
  | value (v : View)
  | bool (b : Bool)
  | int (n : Int)
  | text (s : String)
  | optional (v : Option View)
  | items (vs : List View)
  | nothing
  | texts (ss : List String)
  | numbers (ns : List Int)
  | known (name : Option String)
  | succeeded (r : Report)
  | failed (fault : FaultView) (matched : List Bool) (stop : Bool)
  | fault (f : FaultView)
  /-- A stale handle was looked up. -/
  | stale
  /-- The bound on nested calls or on rounds of a loop was reached. -/
  | unfinished

/-! ## 2. Reading the heap -/

/-- Containers are described so many levels down. -/
def viewDepth : Nat := 12

/-- Objects that are described without looking at others. -/
def View.ofPayload? : Payload → Option View
  | .none => some .none
  | .notImplemented => some .notImplemented
  | .bool b => some (.bool b)
  | .int n => some (.int n)
  | .str s => some (.text s)
  | .type name _ => some (.type name)
  | _ => Option.none

/-- The description of an object of which `depth` levels are shown. A stale object is described as
such; `none` means that describing a live one looked up a stale handle. -/
def view (heap : Heap) : Nat → Handle → Option View
  | depth, h =>
    match heap.get? h with
    | none => some .stale
    | some object =>
      match View.ofPayload? object.payload with
      | some v => some v
      | none =>
        match depth with
        | 0 => return .deep (← heap.className h)
        | depth + 1 =>
          match object.payload with
          | .tuple items => return .tuple (← items.mapM fun item => view heap depth item)
          | .bound receiver function =>
            return .bound (← view heap depth receiver) (← view heap depth function)
          | .generator (.stopped none) => some (.stoppedGenerator none)
          | .generator (.stopped (some result)) =>
            return .stoppedGenerator (← view heap depth result)
          | .generator _ => some .liveGenerator
          | _ => do
            match ← heap.listItems h with
            | some items =>
              let shown ← items.mapM fun item => view heap depth item
              return .list shown (← heap.className h)
            | none =>
              if ← heap.isInstance h ExceptionKind.exception.type then
                let args ← heap.exceptionArgs h
                let shown ← args.mapM fun arg => view heap depth arg
                return .exception (← heap.className h) shown
              else return .object (← heap.className h)

/-- The description of a result. -/
def shown (heap : Heap) (h : Handle) : Option View := view heap viewDepth h

/-- What a host sees of a fault; `none` means that a stale handle was looked up. -/
def FaultView.ofFault (heap : Heap) (fault : Fault) : Option FaultView :=
  match fault with
  | .raised exception text => do
    let className ← heap.className exception
    let args ← heap.exceptionArgs exception
    return .raised className text (← args.mapM fun arg => shown heap arg)
  | other => some (.internal other)

end ObjectModel.Script
