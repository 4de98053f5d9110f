import ObjectModel.Proofs.References.Safe

/-!
# Primitive operations store live handles only

* `live_lookup`, `live_tupleAttribute` -- what is found by looking at a sound state is live.
-/

namespace ObjectModel

open Run (Safe)
open HasHandles (handles)

variable {α β : Type}

/-! ## 1. Pins -/

namespace Pins

/-- Behind `pin h`, no handle but `h` is pinned that was not pinned before. -/
theorem count_pos_of_pin {pins : Pins} {h k : Handle} (hp : 0 < (pins.pin h).count k) :
    k = h ∨ 0 < pins.count k := by
  rw [count_pin] at hp
  split at hp
  · rename_i hk
    exact Or.inl hk
  · exact Or.inr hp

theorem count_pos_of_unpin {pins : Pins} {h k : Handle} (hpos : pins.Positive)
    (hp : 0 < (pins.unpin h).count k) : 0 < pins.count k := by
  have hmem : k ∈ (pins.unpin h).handles := (hpos.unpin h).mem_handles_iff.mpr hp
  exact hpos.mem_handles_iff.mp ((sublist_removeOne h pins.counts).subset hmem)

end Pins

/-! ## 2. Actions -/

namespace Action

/-- Whether an action is a primitive one and no collection. -/
def keepsAll : Action β → Bool
  | collect _ => false
  | a => a.isPrimitive

theorem extends_modify (s : State) (h : Handle) (change : Object → Object) :
    s.Extends (s.modify h change) :=
  ⟨rfl, fun hl => (Heap.contains_modify s.heap h change _).trans hl⟩

theorem extends_whenLive {s t : State} {h : Handle} {change : State → State} {answer : Unit}
    (hp : whenLive s h change = .done answer t) (hc : s.Extends (change s)) : s.Extends t := by
  unfold whenLive at hp
  split at hp
  · cases hp
    exact hc
  · cases hp

/-- **Nothing is lost but by a collection.** -/
theorem extends_of_perform {a : Action β} {e : Engine} {s t : State} {answer : β}
    (hk : a.keepsAll = true) (hw : s.heap.WellFormed) (hp : a.perform e s = .done answer t) :
    s.Extends t := by
  cases a with
  | inspect look =>
    simp only [perform] at hp
    split at hp <;> cases hp
    exact .refl s
  | allocate object =>
    cases hp
    exact ⟨rfl, fun hl => (Heap.contains_allocate hw object _).mpr (Or.inr hl)⟩
  | setAttribute target name value =>
    simp only [perform] at hp
    exact extends_whenLive hp (extends_modify s target _)
  | eraseAttribute target name =>
    simp only [perform] at hp
    exact extends_whenLive hp (extends_modify s target _)
  | setEntry dict key value =>
    simp only [perform] at hp
    exact extends_whenLive hp (extends_modify s dict _)
  | eraseEntry dict key =>
    simp only [perform] at hp
    exact extends_whenLive hp (extends_modify s dict _)
  | setGlobal | setShared | pin | unpin | handOver =>
    cases hp
    exact ⟨rfl, id⟩
  | write text =>
    simp only [perform, State.write] at hp
    split at hp <;> cases hp <;> exact ⟨rfl, id⟩
  | flush =>
    simp only [perform, State.flush] at hp
    split at hp <;> cases hp <;> exact ⟨rfl, id⟩
  | readLine =>
    simp only [perform, State.readLine] at hp
    split at hp <;> cases hp <;> exact ⟨rfl, id⟩
  | collect | call | advance => cases hk

theorem sound_whenLive {s : State} (hs : s.Sound) (h : Handle) (change : State → State)
    (hc : (change s).Sound) : (whenLive s h change).state.Sound := by
  unfold whenLive
  split
  · exact hc
  · exact hs

/-- Whether an action is a collection. -/
def collects : Action β → Bool
  | collect _ => true
  | _ => false

/-- Nothing is lost but by a collection, calls and requests included. -/
theorem extends_of_gives {a : Action β} {s t : State} {answer : β} (hc : a.collects = false)
    (hw : s.heap.WellFormed) (h : a.Gives s answer t) : s.Extends t := by
  cases a with
  | call callee args => exact h.1
  | advance generator => exact h.1
  | handOver handles => exact h.1 ▸ .refl s
  | collect extra => cases hc
  | _ =>
    obtain ⟨e, he⟩ := h
    exact extends_of_perform rfl hw he

/-- **A primitive action that stores live handles keeps a state intact.** -/
theorem intact_of_perform {a : Action β} (e : Engine) {s : State} (ha : a.isPrimitive = true)
    (hs : s.Intact) (hst : ∀ h ∈ a.stores, s.Live h) : (a.perform e s).state.Intact := by
  refine ⟨hs.regular.steps (a.steps_of_perform e s ha), ?_⟩
  have hsound := hs.sound
  cases a with
  | inspect look =>
    simp only [perform]
    split <;> exact hsound
  | allocate object => exact hsound.allocate hs.regular.heap hst
  | setAttribute target name value =>
    exact sound_whenLive hsound target (fun s => s.setAttribute target name value)
      (hsound.setAttribute (hst value (by simp [stores])))
  | eraseAttribute target name =>
    exact sound_whenLive hsound target (fun s => s.eraseAttribute target name) hsound.eraseAttribute
  | setEntry dict key value =>
    refine sound_whenLive hsound dict (fun s => s.modifyEntries dict fun entries =>
      entries.insert key value) (hsound.modifyEntries fun entries r hr => ?_)
    rcases OrderedMap.mem_values_insert hr with rfl | hr
    · exact Or.inl (hst r (by simp [stores]))
    · exact Or.inr hr
  | eraseEntry dict key =>
    exact sound_whenLive hsound dict (fun s => s.modifyEntries dict fun entries => entries.erase
      key) (hsound.modifyEntries fun entries r hr => Or.inr (OrderedMap.mem_values_erase hr))
  | setGlobal name value => exact hsound.setGlobal (hst value (by simp [stores]))
  | setShared name value => exact hsound.congr rfl rfl rfl
  | pin h =>
    refine hsound.setPins fun k hk => ?_
    rcases Pins.count_pos_of_pin hk with rfl | hk
    · exact Or.inl (hst k (by simp [stores]))
    · exact Or.inr hk
  | unpin h => exact hsound.setPins fun k hk => Or.inr (Pins.count_pos_of_unpin hs.regular.pins hk)
  | collect extra => exact hsound.collect hs.regular extra
  | handOver handles => exact hsound
  | write text =>
    simp only [perform, State.write]
    split
    · exact hsound.congr rfl rfl rfl
    · exact hsound
  | flush =>
    simp only [perform, State.flush]
    split
    · exact hsound.congr rfl rfl rfl
    · exact hsound
  | readLine =>
    simp only [perform, State.readLine]
    split <;> exact hsound.congr rfl rfl rfl
  | call | advance => cases ha

end Action

section

variable [HasHandles β] {K : List Handle}

theorem Run.Safe.act {a : Action β} (hc : a.collects = false) (hst : ∀ h ∈ a.stores, Known K h)
    (hlive : ∀ s answer t, s.Intact → a.Gives s answer t → ∀ h ∈ handles answer, t.Live h) :
    Safe K (Run.act a) := by
  intro s hs hK
  refine Run.ensures_act hs (fun h hh => (hst h hh).live hs.sound hK) fun answer t _ hg => ?_
  refine ⟨Action.extends_of_gives hc hs.regular.heap hg, ?_⟩
  rintro _ ⟨⟩
  exact hlive s answer t hs hg

theorem Run.Safe.ask {a : Action (Except Fault β)}
    (hc : a.collects = false) (hst : ∀ h ∈ a.stores, Known K h)
    (hlive : ∀ s answer t, s.Intact → a.Gives s (.ok answer) t → ∀ h ∈ handles answer, t.Live h) :
    Safe K (Run.ask a) := by
  intro s hs hK
  refine Run.ensures_ask (fun h hh => (hst h hh).live hs.sound hK) fun answer t _ hg => ?_
  refine ⟨Action.extends_of_gives hc hs.regular.heap hg, ?_⟩
  rintro answer rfl
  exact hlive s answer t hs hg

end

/-! ## 3. Looking -/

section

variable {s : State} {h v : Handle} {name : String}

theorem live_firstDefined (hs : s.Sound) {links : List Handle}
    (hf : s.heap.firstDefined links name = some v) : s.Live v := by
  obtain ⟨link, _, hv⟩ := List.exists_of_findSome?_eq_some hf
  obtain ⟨o, ho, hv⟩ := Option.bind_eq_some_iff.mp hv
  obtain ⟨key, hm⟩ := OrderedMap.mem_values.mp (OrderedMap.mem_values_of_get? hv)
  exact hs.stored ho (.attributeValue hm)

theorem live_lookup (hs : s.Sound) {found : Option Handle} (hl : s.heap.lookup h name = some found)
    (hv : v ∈ handles found) : s.Live v := by
  obtain ⟨links, _, hf⟩ := Option.bind_eq_some_iff.mp hl
  cases found with
  | none => cases hv
  | some found =>
    rw [List.mem_singleton.mp hv]
    exact live_firstDefined hs (Option.some.inj hf)

theorem live_tupleAttribute (hs : s.Sound) {items : Option (List Handle)}
    (ht : s.heap.tupleAttribute h name = some items) (hv : v ∈ handles items) : s.Live v := by
  obtain ⟨own, _, ht⟩ := Option.bind_eq_some_iff.mp ht
  cases own with
  | none =>
    cases ht
    cases hv
  | some cell =>
    obtain ⟨o, ho, ht⟩ := Option.bind_eq_some_iff.mp ht
    cases ht
    unfold Object.tupleItems at hv
    split at hv
    · rename_i items hp
      exact hs.stored ho (.item hp hv)
    · cases hv

end

end ObjectModel
