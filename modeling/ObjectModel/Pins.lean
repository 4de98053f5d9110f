import ObjectModel.Handle

/-!
# Pins

A host that keeps a handle across collections pins it. Pins are counted: a handle stays pinned until
it was unpinned as often as it was pinned.
-/

namespace ObjectModel

/-- The pinned handles with their counts. No count is zero and no handle occurs twice. -/
structure Pins where
  counts : List (Handle × Nat)

namespace Pins

def empty : Pins := ⟨[]⟩

/-- How often `h` is pinned. -/
def count (p : Pins) (h : Handle) : Nat := (p.counts.lookup h).getD 0

/-- The counts with one more for `h`. -/
def addOne (h : Handle) : List (Handle × Nat) → List (Handle × Nat)
  | [] => [(h, 1)]
  | (other, n) :: rest => if other = h then (other, n + 1) :: rest else (other, n) :: addOne h rest

/-- The counts with one less for `h`; a count of zero is dropped. -/
def removeOne (h : Handle) : List (Handle × Nat) → List (Handle × Nat)
  | [] => []
  | (other, n) :: rest =>
    if other = h then (if n ≤ 1 then rest else (other, n - 1) :: rest)
    else (other, n) :: removeOne h rest

def pin (p : Pins) (h : Handle) : Pins := ⟨addOne h p.counts⟩

/-- Undoes one `pin`. A handle that is not pinned stays so. -/
def unpin (p : Pins) (h : Handle) : Pins := ⟨removeOne h p.counts⟩

def handles (p : Pins) : List Handle := p.counts.map (·.1)

end Pins

end ObjectModel
