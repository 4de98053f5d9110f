import ObjectModel.Types.Sequence

/-!
# Members of `list`

A list keeps its items in one tuple, the cell. Every change makes a new cell and stores it, so
whoever holds the old cell keeps the old items.
-/

namespace ObjectModel

/-- The items of the list a member was called on. -/
def listReceiver (name : String) (h : Handle) : Run (List Handle) := do
  match ← inspectHeap fun heap => heap.tupleAttribute h Heap.listCell with
  | some items => return items
  | none => typeError ("`" ++ name ++ "` requires an initialized list")

/-- Replaces `count` items of `items` from `start` on and stores the result as the new cell. What
was removed is kept in a tuple of its own. -/
def splice (h : Handle) (items : List Handle) (start count : Nat) (replacement : List Handle) :
    Run Unit := do
  let cell ← newTuple (items.take start ++ replacement ++ items.drop (start + count))
  let _ ← newTuple ((items.drop start).take count)
  setAttribute h Heap.listCell cell

def ListMember.run : ListMember → List Handle → Run Handle
  | init, [h] => do
    setAttribute h Heap.listCell (← newTuple [])
    return .none
  | init, [h, iterable] => do
    setAttribute h Heap.listCell (← newTuple (← collect iterable))
    return .none
  | init, args => wrongArity "list.__init__" 1 2 args
  | append, [h, item] => do
    let items ← listReceiver "list.append" h
    splice h items items.length 0 [item]
    return .none
  | append, args => wrongArity "list.append" 2 2 args
  | pop, [h] => do
    let items ← listReceiver "list.pop" h
    match items.getLast? with
    | none => indexError "`list.pop` on empty list"
    | some last =>
      splice h items (items.length - 1) 1 []
      return last
  | pop, args => wrongArity "list.pop" 1 1 args
  | clear, [h] => do
    let items ← listReceiver "list.clear" h
    splice h items 0 items.length []
    return .none
  | clear, args => wrongArity "list.clear" 1 1 args
  | copy, [h] => do newList (← listReceiver "list.copy" h)
  | copy, args => wrongArity "list.copy" 1 1 args
  | len, [h] => do newInt (Int64.ofNat (← listReceiver "list.__len__" h).length)
  | len, args => wrongArity "list.__len__" 1 1 args
  | bool, [h] => do return .ofBool !(← listReceiver "list.__bool__" h).isEmpty
  | bool, args => wrongArity "list.__bool__" 1 1 args
  | getItem, [h, index] => do
    let items ← listReceiver "list.__getitem__" h
    return itemAt items (← position "list" index items.length)
  | getItem, args => wrongArity "list.__getitem__" 2 2 args
  | setItem, [h, index, value] => do
    let items ← listReceiver "list.__setitem__" h
    splice h items (← position "list" index items.length) 1 [value]
    return .none
  | setItem, args => wrongArity "list.__setitem__" 3 3 args
  | iter, [h] => do yieldEach (← listReceiver "list.__iter__" h)
  | iter, args => wrongArity "list.__iter__" 1 1 args
  | eq, [left, right] => do
    let l ← listReceiver "list.__eq__" left
    match ← listItems right with
    | none => return .notImplemented
    | some r => return .ofBool (← itemsEqual l r)
  | eq, args => wrongArity "list.__eq__" 2 2 args
  | repr, [h] => do
    let pieces ← renderItems (← listReceiver "list.__repr__" h)
    newText ("[" ++ Text.joinWith ", " pieces ++ "]")
  | repr, args => wrongArity "list.__repr__" 1 1 args

end ObjectModel
