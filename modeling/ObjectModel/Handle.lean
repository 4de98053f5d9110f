/-!
# Handles

A handle names an object by its slot in the heap and the generation of that slot. Two handles are
equal exactly if they name the same object; a slot that is used again gets a new generation, so an
old handle never names the new occupant.
-/

namespace ObjectModel

/-- Name of an object: a slot and the generation under which the slot was filled. -/
structure Handle where
  slot : Nat
  generation : Nat
  deriving DecidableEq, Inhabited

namespace Handle

/-- The identity number: the slot, which no two live objects share. -/
def id (h : Handle) : Nat := h.slot

/-- The handle of the object that was placed into slot `n` when the slot was first filled. -/
def first (n : Nat) : Handle := ⟨n, 0⟩

end Handle

end ObjectModel
