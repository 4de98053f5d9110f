import ObjectModel.Object

/-!
# The heap

Objects live in numbered slots. A slot that is freed gets the next generation and is used again,
last freed first; a slot whose generation cannot grow any more is retired.

* `Heap.get?` finds the object of a handle; `none` means that the handle is stale.
* `Heap.allocate` fills a free slot or a new one.
* `Heap.sweep` frees every occupied slot that is not marked.
-/

namespace ObjectModel

/-! ## 1. Slots -/

structure Slot where
  generation : Nat
  object : Option Object

namespace Slot

/-- The last generation of a slot. -/
def lastGeneration : Nat := Nat.pow 2 32 - 1

/-- Whether the slot, once freed, may be filled again. -/
def reusable (s : Slot) : Bool := s.generation < lastGeneration

def occupied (s : Slot) : Bool := s.object.isSome

/-- The slot without its object. A reusable slot moves on to the next generation. -/
def vacate (s : Slot) : Slot := ⟨if s.reusable then s.generation + 1 else s.generation, none⟩

end Slot

/-! ## 2. The heap -/

structure Heap where
  slots : Array Slot
  /-- Free slots, the next one to be used first. -/
  free : List Nat
  /-- Number of occupied slots. -/
  live : Nat

namespace Heap

def empty : Heap := ⟨#[], [], 0⟩

/-- The object that `h` names, unless it was freed. -/
def get? (heap : Heap) (h : Handle) : Option Object := do
  let slot ← heap.slots[h.slot]?
  if slot.generation = h.generation then slot.object else none

/-- Whether `h` names an object. -/
def contains (heap : Heap) (h : Handle) : Bool := (heap.get? h).isSome

/-- Puts `object` into the slot freed last, or into a new one if none is free. -/
def allocate (heap : Heap) (object : Object) : Handle × Heap :=
  match heap.free with
  | index :: rest =>
    let generation := (heap.slots[index]?.map (·.generation)).getD 0
    (⟨index, generation⟩,
      { slots := heap.slots.modify index fun slot => { slot with object := some object }
        free := rest
        live := heap.live + 1 })
  | [] =>
    (.first heap.slots.size,
      { slots := heap.slots.push ⟨0, some object⟩, free := [], live := heap.live + 1 })

/-- Changes the object that `h` names. A stale handle changes nothing. -/
def modify (heap : Heap) (h : Handle) (change : Object → Object) : Heap :=
  { heap with slots := heap.slots.modify h.slot fun slot =>
      if slot.generation = h.generation then { slot with object := slot.object.map change }
      else slot }

/-- Handles of all objects, by slot. -/
def handles (heap : Heap) : List Handle :=
  heap.slots.toList.zipIdx.filterMap fun (slot, index) =>
    if slot.occupied then some ⟨index, slot.generation⟩ else none

/-! ## 3. Freeing what is not marked -/

/-- Whether slot `index` is occupied and not marked. Slots past the end of the marks count as
unmarked. -/
def condemned (slot : Slot) (marked : Array Bool) (index : Nat) : Bool :=
  slot.occupied && !marked.getD index false

/-- Frees the unmarked objects; answers their number. Slots become free in ascending order, so the
last one is used first. -/
def sweep (heap : Heap) (marked : Array Bool) : Nat × Heap :=
  let doomed := heap.slots.toList.zipIdx.filter fun (slot, index) => condemned slot marked index
  let freed := (doomed.filter fun (slot, _) => slot.reusable).map (·.2)
  (doomed.length,
    { slots := heap.slots.mapIdx fun index slot =>
        if condemned slot marked index then slot.vacate else slot
      free := freed.reverse ++ heap.free
      live := heap.live - doomed.length })

end Heap

end ObjectModel
