import ObjectModel.Iteration

/-!
# Sequences in general

What texts, tuples and lists share: positions counted from either end, equality item by item, and
rendering of the items.
-/

namespace ObjectModel

/-- The position an index denotes in a sequence of `size` items. Negative indices count from the
end. -/
def position (what : String) (index : Handle) (size : Nat) : Run Nat := do
  match ← intValue index with
  | none => typeError (what ++ " indices must be int, not " ++ (← className index))
  | some raw =>
    let place := if raw < 0 then raw.toInt + size else raw.toInt
    if 0 ≤ place ∧ place < size then return place.toNat
    else indexError (what ++ " index out of range")

/-- Equality of two lists item by item, from the front, up to the first difference. -/
def pairwiseEqual : List Handle → List Handle → Run Bool
  | l :: ls, r :: rs => do
    if ← valuesEqual l r then pairwiseEqual ls rs else return false
  | _, _ => return true

/-- Lists of different length are not equal; their items are not compared. -/
def itemsEqual (left right : List Handle) : Run Bool :=
  if left.length = right.length then pairwiseEqual left right else return false

/-- The items rendered one after another. -/
def renderItems : List Handle → Run (List String)
  | [] => return []
  | h :: rest => do
    let first ← repr h
    return first :: (← renderItems rest)

/-- The item at a position that was checked before. -/
def itemAt (items : List Handle) (place : Nat) : Handle := items.getD place .none

/-- A generator over fixed items, which it holds until it stops. -/
def yieldEach (items : List Handle) : Run Handle :=
  newGenerator (.items items items (List.Subset.refl items))

end ObjectModel
