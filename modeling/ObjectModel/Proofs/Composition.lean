import ObjectModel.Proofs.OrderedMap.Refinement
import ObjectModel.Proofs.References.Primitive
import ObjectModel.Proofs.Types.Orderly

/-!
# How builtin code is composed

All operations of the library but the raising of a value are composed by sequence and loop alone,
and so are the builtin functions, the builtin members and the computations of generators. Those that
take the items of an iterable ask an iterator for the next item. What they make fits in any orderly
state; only `object.__new__` and the definition of a type look at their operand first. What they
store and pass on are handles that they were given or that they found. So a judgement of programs
that holds of the actions and of these three, and that sequences and loops keep, holds of all
builtin code.

* `Run.Composed.safe` -- **so all builtin code stores live handles only.**

The operations are judged in pairs of programs, with what keeps in lockstep. The rules are tagged
for `grind`, so that a program is judged by the programs it is composed of.
-/

namespace ObjectModel

open HasHandles (handles)

variable {α β σ : Type} {iterates : Prop}

/-- The handles of how a computation came back. -/
def Resumption.handles : Resumption → List Handle
  | .yielded value => [value]
  | .completed result => result.toList

instance : HasHandles Resumption := ⟨Resumption.handles⟩

/-- What a resumption came back with and what the rest of the computation holds. -/
instance : HasHandles Resumed := ⟨fun r => r.resumption.handles ++ r.rest.held⟩

@[grind =] theorem handles_resumed (r : Resumed) :
    handles r = r.resumption.handles ++ r.rest.held :=
  rfl

/-! ## 1. Composition -/

/-- The fault that an answer is. -/
def faultOf : Except Fault β → Option Fault
  | .error fault => some fault
  | .ok _ => none

theorem faultOf_eq_some {answer : Except Fault β} {fault : Fault}
    (h : faultOf answer = some fault) : answer = .error fault := by
  cases answer with
  | ok => cases h
  | error =>
    cases h
    rfl

/-- The fault that an action answers with. -/
def Action.fault? : Action β → β → Option Fault
  | collect _, answer => faultOf answer
  | write _, answer => faultOf answer
  | flush, answer => faultOf answer
  | readLine, answer => faultOf answer
  | call _ _, answer => faultOf answer
  | advance _, answer => faultOf answer
  | _, _ => none

/-- The action makes no object and is no collection, and it stores and passes on known handles
only. -/
structure Action.Plain (a : Action β) (known : List Handle) : Prop where
  made : a.made? = none
  collects : a.collects = false
  stores : ∀ h ∈ a.stores, Known known h

namespace Action.Plain

variable {a : Action β} {K : List Handle} {v : Handle}

theorem silent (hm : a.made? = none) (hc : a.collects = false) (hs : a.stores = []) : a.Plain K :=
  ⟨hm, hc, fun _ hh => absurd (hs ▸ hh) List.not_mem_nil⟩

theorem storing (hm : a.made? = none) (hc : a.collects = false) (hs : a.stores = [v])
    (hv : Known K v) : a.Plain K :=
  ⟨hm, hc, fun _ hh => List.mem_singleton.mp (hs ▸ hh) ▸ hv⟩

end Action.Plain

/-- **How a program is composed** that knows these handles: by sequence and loop, of actions that
make no object or one that fits anywhere. It stores and passes on known handles only, and its answer
is made of live ones. It looks at a fault of what it runs at most where it asks an iterator for the
next item, if it `iterates`. -/
inductive Run.Composed (iterates : Prop) :
    {α : Type} → [HasHandles α] → List Handle → Run α → Prop where
  | pure {α : Type} [HasHandles α] {K : List Handle} {a : α} : (∀ h ∈ handles a, Known K h) →
      Composed iterates K (Pure.pure a : Run α)
  | throw {α : Type} [HasHandles α] {K : List Handle} (fault : Fault) :
      Composed iterates K (MonadExcept.throw fault : Run α)
  | act {β : Type} [HasHandles β] {K : List Handle} {a : Action β} : a.Plain K →
      (∀ answer, a.fault? answer = none) → (∀ s answer t, s.Intact → a.Gives s answer t →
      ∀ h ∈ handles answer, t.Live h) → Composed iterates K (Run.act a)
  | ask {β : Type} [HasHandles β] {K : List Handle} {a : Action (Except Fault β)} : a.Plain K →
      (∀ answer, a.fault? answer = faultOf answer) → (∀ s answer t, s.Intact →
      a.Gives s (.ok answer) t → ∀ h ∈ handles answer, t.Live h) → Composed iterates K (Run.ask a)
  | allocate {K : List Handle} {object : Object} : (∀ s : State, s.Orderly → s.Fits object) →
      (∀ h ∈ object.references, Known K h) → Composed iterates K (ObjectModel.allocate object)
  | bind {α β : Type} [HasHandles α] [HasHandles β] {K : List Handle} {x : Run α} {f : α → Run β} :
      Composed iterates K x → (∀ a, Composed iterates (knowing (handles a) K) (f a)) →
      Composed iterates K (x >>= f)
  | loop {σ β : Type} [HasHandles σ] [HasHandles β] {K : List Handle} {start : σ}
      {body : σ → Run (σ ⊕ β)} : (∀ h ∈ handles start, Known K h) →
      (∀ acc, Composed iterates (knowing (handles acc) K) (body acc)) →
      Composed iterates K (Run.loop start body)
  | nextItem {K : List Handle} {iterator : Handle} : iterates →
      Composed iterates K (next iterator) → Composed iterates K (ObjectModel.nextItem iterator)
  /-- A plain object is made for a type only. -/
  | plain {K : List Handle} {type : Handle} {refused : Run Handle} : Known K type →
      Composed iterates K refused →
      Composed iterates K (do if ← isType type then ObjectModel.allocate (.bare type) else refused)
  /-- A type is made of a base that is one and whose chain leaves room for another link. -/
  | derived {K : List Handle} (name : String) {base : Handle}
      {members : List (String × Handle)} {refused : Run Handle} : Known K base →
      (∀ m ∈ members, Known K m.2) → Composed iterates K refused → Composed iterates K (do
        if !(← isType base) then refused
        else
          let links ← inspectHeap fun heap => heap.chain base
          let limit ← inspect fun s => some s.limits.baseChain
          if limit ≤ links.length then
            throw (.baseChainTooDeep name limit)
          let nameText ← newText name
          ObjectModel.allocate
            (.ofType name (some base) ((OrderedMap.ofList members).insert "__name__" nameText)))

open Run (Composed)

attribute [grind ←] Run.Composed.pure Run.Composed.throw Run.Composed.bind Run.Composed.loop

variable {K : List Handle} {h : Handle} {args items : List Handle}

@[grind ←] theorem composed_value (hh : Known K h) : Composed iterates K (pure h) :=
  .pure (by simpa using hh)

/-- An answer may be taken for data. -/
theorem Run.Composed.forget [HasHandles α] {x : Run α} (hx : Composed iterates K x) :
    @Composed iterates α .data K x := by
  rw [← bind_pure x]
  exact @Composed.bind _ _ _ _ .data _ _ _ hx fun a => @Composed.pure _ _ .data _ a (by simp)

/-! ## 2. Primitive operations -/

theorem composed_inspect [HasHandles β] {look : State → Option β}
    (hlook : ∀ s answer, s.Intact → look s = some answer → ∀ h ∈ handles answer, s.Live h) :
    Composed iterates K (inspect look) := by
  refine .act (.silent rfl rfl rfl) (fun _ => rfl) fun s answer t hs hg => ?_
  obtain ⟨e, he⟩ := hg
  simp only [Action.perform] at he
  split at he
  · rename_i hl
    cases he
    exact hlook s _ hs hl
  · cases he

@[grind ←] theorem composed_look (look : State → Option β) :
    @Composed iterates β .data K (inspect look) :=
  @composed_inspect _ _ _ .data _ (by simp)

@[grind ←] theorem composed_setGlobal (name : String) (hh : Known K h) :
    Composed iterates K (.act (.setGlobal name h)) :=
  .act (.storing rfl rfl rfl hh) (fun _ => rfl) (by simp)

@[grind ←] theorem composed_setShared (name : String) (h : Handle) :
    Composed iterates K (.act (.setShared name h)) :=
  .act (.silent rfl rfl rfl) (fun _ => rfl) (by simp)

@[grind ←] theorem composed_pin (hh : Known K h) : Composed iterates K (.act (.pin h)) :=
  .act (.storing rfl rfl rfl hh) (fun _ => rfl) (by simp)

@[grind ←] theorem composed_unpin (h : Handle) : Composed iterates K (.act (.unpin h)) :=
  .act (.silent rfl rfl rfl) (fun _ => rfl) (by simp)

@[grind ←] theorem composed_call {callee : Handle} (hc : Known K callee)
    (ha : ∀ a ∈ args, Known K a) : Composed iterates K (call callee args) := by
  refine .ask ⟨rfl, rfl, List.forall_mem_cons.mpr ⟨hc, ha⟩⟩ (fun _ => rfl)
    fun s answer t _ hg h hh => ?_
  rw [List.mem_singleton.mp hh]
  exact hg.2 answer rfl

@[grind ←] theorem composed_callOne {callee : Handle} (hc : Known K callee) (hh : Known K h) :
    Composed iterates K (call callee [h]) :=
  composed_call hc (by simp [hh])

@[grind ←] theorem composed_advance (g : Handle) : Composed iterates K (advance g) := by
  refine .ask (.silent rfl rfl rfl) (fun _ => rfl) fun s answer t _ hg h hh => ?_
  rw [List.mem_singleton.mp hh]
  exact hg.2 answer rfl

/-- **What a script hands over is live.** -/
theorem composed_handOver (L : List Handle) :
    @Composed iterates Unit ⟨fun _ => L⟩ K (handOver L) := by
  refine @Composed.act _ _ ⟨fun _ => L⟩ _ _ (.silent rfl rfl rfl) (fun _ => rfl)
    fun s answer t _ hg h hh => ?_
  obtain ⟨rfl, hl⟩ := hg
  exact hl h hh

theorem composed_handOver_bind [HasHandles β] {L : List Handle} {f : Unit → Run β}
    (hf : Composed iterates (knowing L K) (f ())) : Composed iterates K (handOver L >>= f) :=
  @Composed.bind _ _ _ ⟨fun _ => L⟩ _ _ _ _ (composed_handOver L) fun _ => hf

section

variable (h)

/-- What an object stores is live. -/
@[grind ←] theorem composed_object : Composed iterates K (object h) :=
  composed_inspect fun _ _ hs ho _ hk => hs.sound.live_references ho hk

@[grind ←] theorem composed_typeOf : Composed iterates K (typeOf h) := by
  refine composed_inspect fun s type hs ht k hk => ?_
  obtain ⟨o, ho, rfl⟩ := Option.map_eq_some_iff.mp ((Option.map_eq_bind ..).trans ht)
  rw [List.mem_singleton.mp hk]
  exact hs.sound.stored ho .type

@[grind ←] theorem composed_lookupMember (name : String) :
    Composed iterates K (lookupMember h name) :=
  composed_inspect fun _ _ hs hl _ hk => live_lookup hs.sound hl hk

@[grind ←] theorem composed_findHook (name : String) : Composed iterates K (findHook h name) := by
  refine composed_inspect fun s found hs hf k hk => ?_
  obtain ⟨type, _, hl⟩ := Option.bind_eq_some_iff.mp hf
  exact live_lookup hs.sound hl hk

theorem composed_tupleAttribute (name : String) :
    Composed iterates K (inspectHeap fun heap => heap.tupleAttribute h name) :=
  composed_inspect fun _ _ hs ht _ hk => live_tupleAttribute hs.sound ht hk

@[grind ←] theorem composed_listItems : Composed iterates K (listItems h) := by
  refine composed_inspect fun s items hs hl k hk => ?_
  obtain ⟨isList, _, hl⟩ := Option.bind_eq_some_iff.mp hl
  cases isList with
  | false =>
    cases hl
    cases hk
  | true => exact live_tupleAttribute hs.sound hl hk

@[grind ←] theorem composed_exceptionArgs : Composed iterates K (exceptionArgs h) := by
  refine composed_inspect fun s args hs ha k hk => ?_
  obtain ⟨items, hi, ha⟩ := Option.bind_eq_some_iff.mp ha
  cases ha
  cases items with
  | none => cases hk
  | some items => exact live_tupleAttribute hs.sound hi hk

@[grind ←] theorem composed_isInstance (type : Handle) : Composed iterates K (isInstance h type) :=
  composed_look _

end

/-- An object without attributes refers to its type and to what its payload has. -/
theorem known_references {o : Object} (ht : Known K o.type) (ha : o.attributes = .empty)
    (hp : ∀ r ∈ o.payload.references, Known K r) : ∀ r ∈ o.references, Known K r := by
  intro r hr
  rcases List.mem_append.mp hr with hr | hr
  · rcases List.mem_cons.mp hr with rfl | hr
    · exact ht
    · rw [ha] at hr
      cases hr
  · exact hp r hr

@[grind ←] theorem composed_isException (fault : Fault) (type : Handle) :
    Composed iterates K (isException fault type) := by
  cases fault <;> first | exact composed_isInstance _ _ | exact .pure (by simp)

theorem composed_lookGlobal (name : String) :
    Composed iterates K (inspect fun s => some (s.globals.get? name)) := by
  refine composed_inspect fun s found hs hf h hh => ?_
  cases hf
  cases hget : s.globals.get? name with
  | none =>
    rw [hget] at hh
    cases hh
  | some v =>
    rw [hget] at hh
    obtain ⟨key, hm⟩ := OrderedMap.mem_values.mp (OrderedMap.mem_values_of_get? hget)
    rw [List.mem_singleton.mp hh]
    exact hs.sound.root (.global hm)

/-- An object with a hook is live, so it need not be known. -/
theorem composed_findHook_live (h : Handle) (name : String) :
    @Composed iterates (Option Handle) ⟨fun found => h :: handles found⟩ K (findHook h name) := by
  refine @composed_inspect _ _ _ ⟨fun found => h :: handles found⟩ _ fun s found hs hf k hk => ?_
  obtain ⟨type, ht, hl⟩ := Option.bind_eq_some_iff.mp hf
  rcases List.mem_cons.mp hk with rfl | hk
  · obtain ⟨o, ho, _⟩ := Option.bind_eq_some_iff.mp ht
    exact Heap.contains_of_get? ho
  · exact live_lookup hs.sound hl hk

/-! ## 3. Live handles -/

open Run (Safe)

theorem safe_look (look : State → Option β) : @Safe β .data K (inspect look) :=
  @Safe.act _ .data _ _ rfl (by simp [Action.stores]) (by simp)

theorem safe_isType (h : Handle) : Safe K (isType h) :=
  @Safe.bind _ _ .data _ _ _ _ (safe_look _) fun _ => .pure (by simp)

theorem safe_allocate {o : Object} (ho : ∀ r ∈ o.references, Known K r) : Safe K (allocate o) := by
  refine .act rfl ho fun s answer t hs hg h hh => ?_
  obtain ⟨e, he⟩ := hg
  cases he
  rw [List.mem_singleton.mp hh]
  exact (Heap.contains_allocate hs.regular.heap o _).mpr (Or.inl rfl)

theorem safe_nextItem (hn : Safe K (next h)) : Safe K (nextItem h) := by
  refine hn.attempt.bind fun outcome => ?_
  cases outcome with
  | ok item => exact .pure (by simp [handles])
  | error fault =>
    have hstop : Safe K (isStopIteration fault) := by
      unfold isStopIteration isException
      split
      · exact safe_look _
      · exact .pure (by simp)
    refine hstop.bind fun stop => ?_
    split
    · exact .pure (by simp)
    · exact .throw _

/-- A new type refers to its base, to its members and to its name. -/
theorem known_references_ofType (name : String) {base text : Handle}
    {members : List (String × Handle)} (hb : Known K base) (hm : ∀ m ∈ members, Known K m.2)
    (ht : Known K text) :
    ∀ r ∈ (Object.ofType name (some base)
      ((OrderedMap.ofList members).insert "__name__" text)).references, Known K r := by
  intro r hr
  rcases List.mem_append.mp hr with hr | hr
  · rcases List.mem_cons.mp hr with rfl | hr
    · exact .type _
    · rcases OrderedMap.mem_values_insert hr with rfl | hr
      · exact ht
      · obtain ⟨m, hmem, rfl⟩ := List.mem_map.mp (OrderedMap.mem_values_ofList hr)
        exact hm m hmem
  · rw [List.mem_singleton.mp hr]
    exact hb

/-- **What is composed stores live handles only**, and so does all builtin code. -/
theorem Run.Composed.safe [HasHandles α] {x : Run α} (hx : x.Composed True K) : x.Safe K := by
  induction hx with
  | pure ha => exact .pure ha
  | throw fault => exact .throw fault
  | act ha _ hlive => exact .act ha.collects ha.stores hlive
  | ask ha _ hlive => exact .ask ha.collects ha.stores hlive
  | allocate _ hr => exact safe_allocate hr
  | bind _ _ ihx ihf => exact ihx.bind ihf
  | loop hs _ ih => exact .loop hs ih
  | nextItem _ _ ih => exact safe_nextItem ih
  | plain ht _ ih =>
    refine (safe_isType _).bind fun isType => ?_
    split
    · exact safe_allocate (by simpa [Object.references, Object.bare, Payload.references] using ht)
    · exact ih
  | derived name hb hm _ ih =>
    refine (safe_isType _).bind fun isType => ?_
    split
    · exact ih
    · refine @Safe.bind _ _ .data _ _ _ _ (safe_look _) fun links =>
        (safe_look _).bind fun limit => ?_
      split
      · exact Safe.throw _
      · refine (safe_allocate (by simp [Object.references, Object.ofText, Payload.references])).bind
          fun text => ?_
        exact safe_allocate (known_references_ofType name (by simp [hb])
          (by simpa using fun k v hmem => Or.inr (hm (k, v) hmem)) (by simp))

end ObjectModel
