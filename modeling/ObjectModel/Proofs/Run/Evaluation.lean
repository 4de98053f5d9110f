import ObjectModel.Proofs.Run.Log

/-!
# Evaluated sessions

A session is a computation. Evaluating a few expressions from the first state, with the log of
each, shows that the state they leave can be reached; a property of that state is decided along
with it.

* `Session.exists_reached` -- **what an evaluated session leaves behind is reachable and has the
  property that was decided**.
-/

namespace ObjectModel

/-! ## 1. Outcomes -/

namespace Outcome

variable {α : Type} {o : Outcome (Except Fault α)} {value : α} {fault : Fault}

/-- The value that a run ended with. -/
def value? : Outcome (Except Fault α) → Option α
  | done (.ok value) _ => some value
  | _ => none

/-- The fault that a run ended with. -/
def fault? : Outcome (Except Fault α) → Option Fault
  | done (.error fault) _ => some fault
  | _ => none

theorem eq_ok (h : value ∈ o.value?) : o = .done (.ok value) o.state := by
  rcases o with ⟨_ | _, _⟩ | _ <;> cases h
  rfl

theorem eq_error (h : fault ∈ o.fault?) : o = .done (.error fault) o.state := by
  rcases o with ⟨_ | _, _⟩ | _ <;> cases h
  rfl

end Outcome

/-! ## 2. Objects -/

namespace OrderedMap

/-- The trees in which keys are looked up. -/
abbrev Tree := Std.DTreeMap.Internal.Impl String fun _ => Nat

/-- Whether two trees have the same keys in the same nodes. -/
def sameTree : Tree → Tree → Bool
  | .leaf, .leaf => true
  | .inner size key position left right, .inner size' key' position' left' right' =>
    size == size' && key == key' && position == position' && sameTree left left' &&
      sameTree right right'
  | _, _ => false

theorem eq_of_sameTree {t t' : Tree} (h : sameTree t t' = true) : t = t' := by
  induction t generalizing t' with
  | leaf =>
    cases t' with
    | leaf => rfl
    | inner => cases h
  | inner size key position left right ihl ihr =>
    cases t' with
    | leaf => cases h
    | inner =>
      simp only [sameTree, Bool.and_eq_true, beq_iff_eq] at h
      obtain ⟨⟨⟨⟨rfl, rfl⟩, rfl⟩, hl⟩, hr⟩ := h
      rw [ihl hl, ihr hr]

/-- Whether two mappings are the same, with their indexes. -/
def same (m m' : OrderedMap Handle) : Bool :=
  m.entries == m'.entries && sameTree m.index.inner.inner m'.index.inner.inner

theorem eq_of_same {m m' : OrderedMap Handle} (h : m.same m' = true) : m = m' := by
  obtain ⟨entries, ⟨⟨tree, _⟩⟩⟩ := m
  obtain ⟨entries', ⟨⟨tree', _⟩⟩⟩ := m'
  simp only [same, Bool.and_eq_true, beq_iff_eq] at h
  obtain ⟨rfl, ht⟩ := h
  cases eq_of_sameTree ht
  rfl

end OrderedMap

/-- Whether two payloads are seen to be the same. Code and computations are not compared. -/
def Payload.same : Payload → Payload → Bool
  | .type name base, .type name' base' => name == name' && base == base'
  | .plain, .plain => true
  | .int n, .int n' => n == n'
  | .str text, .str text' => text == text'
  | .tuple items, .tuple items' => items == items'
  | .dict m, .dict m' => m.same m'
  | .function name (.member m), .function name' (.member m') => name == name' && m == m'
  | _, _ => false

theorem Payload.eq_of_same {p p' : Payload} (h : p.same p' = true) : p = p' := by
  unfold same at h
  split at h
  case h_1 | h_7 =>
    rw [Bool.and_eq_true] at h
    rw [eq_of_beq h.1, eq_of_beq h.2]
  case h_2 => rfl
  case h_3 | h_4 | h_5 => rw [eq_of_beq h]
  case h_6 => rw [OrderedMap.eq_of_same h]
  case h_8 => cases h

theorem Payload.same_member_iff {p : Payload} {name : String} {m : Member} :
    p.same (.function name (.member m)) = true ↔ p = .function name (.member m) := by
  refine ⟨eq_of_same, ?_⟩
  rintro rfl
  simp only [same, beq_self_eq_true, Bool.and_self]

/-- Whether two objects are seen to be the same. -/
def Object.same (o o' : Object) : Bool :=
  o.payload.same o'.payload && o.type == o'.type && o.attributes.same o'.attributes

theorem Object.eq_of_same {o o' : Object} (h : o.same o' = true) : o = o' := by
  obtain ⟨payload, type, attributes⟩ := o
  obtain ⟨payload', type', attributes'⟩ := o'
  simp only [same, Bool.and_eq_true, beq_iff_eq] at h
  obtain ⟨⟨hp, rfl⟩, ha⟩ := h
  rw [Payload.eq_of_same hp, OrderedMap.eq_of_same ha]

/-- The object of `h` is seen to be `o`. -/
def Heap.Exhibits (heap : Heap) (h : Handle) (o : Object) : Prop :=
  ∃ o' ∈ heap.get? h, o'.same o = true

instance (heap : Heap) (h : Handle) (o : Object) : Decidable (heap.Exhibits h o) :=
  inferInstanceAs (Decidable (∃ _ ∈ _, _))

theorem Heap.Exhibits.get?_eq {heap : Heap} {h : Handle} {o : Object} (hh : heap.Exhibits h o) :
    heap.get? h = some o := by
  obtain ⟨o', hget, hsame⟩ := hh
  rw [← Object.eq_of_same hsame]
  exact hget

/-! ## 3. Runs that only look -/

/-- Whether an entry changes nothing by itself. -/
def Entry.looks (x : Entry) : Bool :=
  match x.event with
  | .performed (.inspect _) _ _ => true
  | .performed (.handOver _) _ _ => true
  | .performed (.call _ _) _ _ => true
  | _ => false

theorem Passage.state_eq {w : List Handle} {s t : State} {l : List Entry} {finished : Bool}
    (h : Passage w s l finished t) (hlooks : ∀ x ∈ l, x.looks = true) : t = s := by
  induction h with
  | idle | cut | refused | stale => rfl
  | append _ _ ih ih' =>
    obtain ⟨hl, hl'⟩ := List.forall_mem_append.mp hlooks
    rw [ih' hl', ih hl]
  | primitive a e s hp =>
    have ha := hlooks _ List.mem_cons_self
    cases a with
    | inspect look =>
      rw [Action.perform]
      cases look s <;> rfl
    | handOver => rfl
    | call => cases hp
    | _ => cases ha
  | called _ _ r _ _ ih =>
    rw [ih (List.forall_mem_append.mp hlooks).1]
    rfl
  | answered | lost | resumed =>
    have hrequest := (List.forall_mem_append.mp hlooks).2 _ List.mem_cons_self
    cases hrequest

/-- The program comes to `value` and does nothing but look. -/
def Run.Finds {α : Type} (x : Run α) (n : Nat) (s : State) (value : α) : Prop :=
  value ∈ (x.exec n s).value? ∧ ∀ y ∈ x.run.log n s, y.looks = true

instance {α : Type} [DecidableEq α] (x : Run α) (n : Nat) (s : State) (value : α) :
    Decidable (x.Finds n s value) := inferInstanceAs (Decidable (_ ∧ _))

/-- **A run that only looks at the state leaves it as it is.** -/
theorem Run.Finds.exec_eq {α : Type} {x : Run α} {n : Nat} {s : State} {value : α}
    (h : x.Finds n s value) : x.exec n s = .done (.ok value) s := by
  rw [Outcome.eq_ok h.1]
  exact congrArg _ ((Passage.of_run n [] x.run s).state_eq h.2)

/-! ## 4. Sessions -/

namespace Session

open Script

variable (admits : Entry → Prop) [DecidablePred admits] (limits : Limits) (n : Nat)

/-- The frame and the state behind these expressions, if all of them come to an answer and their
logs have only entries that `admits` lets pass. -/
def evaluate : List Expr → Frame → State → Option (Frame × State)
  | [], frame, s => some (frame, s)
  | e :: es, frame, s =>
    if ∀ x ∈ (e.eval.run.run frame).log n s, admits x then
      match (e.eval.run.run frame).run (engine n) s with
      | .done (_, frame) s => evaluate es frame s
      | .aborted _ _ => none
    else none

variable {admits limits n}

theorem Reaches.evaluate {console : Console} {es : List Expr} {frame frame' : Frame} {s s' : State}
    (h : Reaches admits limits console frame s)
    (heval : Session.evaluate admits n es frame s = some (frame', s')) :
    Reaches admits limits console frame' s' := by
  induction es generalizing frame s with
  | nil =>
    cases heval
    exact h
  | cons e es ih =>
    rw [Session.evaluate] at heval
    split at heval
    case isFalse => cases heval
    case isTrue hlog =>
      split at heval
      case h_1 outcome frame s hrun => exact ih (.step n e outcome h hlog hrun) heval
      case h_2 => cases heval

variable (admits limits n) in
/-- **A session that was evaluated passes through a state with the property that was decided.** -/
theorem exists_reached (es : List Expr) (P : Frame → State → Prop)
    (h : ∃ p ∈ evaluate admits n es (.ofArgs []) (.initial limits (.ofLines [])), P p.1 p.2) :
    ∃ frame s, s.ReachableBy admits ∧ P frame s := by
  obtain ⟨⟨frame, s⟩, heval, hp⟩ := h
  exact ⟨frame, s, .between (Reaches.start.evaluate heval), hp⟩

end Session

end ObjectModel
