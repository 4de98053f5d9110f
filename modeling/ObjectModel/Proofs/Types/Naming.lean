import ObjectModel.Proofs.References.Session
import ObjectModel.Proofs.Types.WellTyped

/-!
# Names of types

The name of an object is that of the first type among its type, the type of that, and so on.
Mappings may have one another for types, so the walk may be long; in a careful session it always
comes to an end.

* `State.ReachableBy.named` -- **in a careful session every object has a name**, because it is made
  for something that has one.
-/

namespace ObjectModel

namespace Heap

variable {heap heap' : Heap} {h k : Handle} {path path' : List Handle} {name name' : String}

/-! ## 1. The way to the first type -/

/-- **The way from an object to the first type**: the object itself if it is one, else on from its
type. -/
inductive Naming (heap : Heap) : Handle → List Handle → String → Prop where
  | type {h : Handle} {o : Object} {name : String} {base : Option Handle} : heap.get? h = some o →
      o.payload = .type name base → Naming heap h [h] name
  | object {h : Handle} {o : Object} {path : List Handle} {name : String} : heap.get? h = some o →
      o.isType = false → Naming heap o.type path name → Naming heap h (h :: path) name

namespace Naming

theorem live (hn : heap.Naming h path name) : heap.contains h = true := by
  cases hn with
  | type ho _ => exact contains_of_get? ho
  | object ho _ _ => exact contains_of_get? ho

theorem walk (hn : heap.Naming h path name) :
    ∃ last, heap.Walk towardsType h (some last) path ∧ ownName last = some name := by
  induction hn with
  | type ho hp => exact ⟨_, .arrived ho (by rw [towardsType, hp]), by rw [ownName, hp]⟩
  | object ho ht _ ih =>
    obtain ⟨last, hw, hname⟩ := ih
    exact ⟨last, .step ho (by rw [towardsType_eq, ht]; rfl) hw, hname⟩

/-- **The walk goes all the way.** -/
theorem typeName_eq (hn : heap.Naming h path name) : heap.typeName h = some name := by
  obtain ⟨last, hw, hname⟩ := hn.walk
  rw [typeName, typeNameFrom_eq_walkFrom, hw.walkFrom_eq hw.length_le]
  exact hname

/-- A name was found on some way. -/
theorem exists_of_typeNameFrom {fuel : Nat} (hn : heap.typeNameFrom fuel h = some name) :
    ∃ path, heap.Naming h path name := by
  induction fuel generalizing h with
  | zero => cases hn
  | succ fuel ih =>
    rw [typeNameFrom] at hn
    cases hget : heap.get? h with
    | none =>
      rw [hget] at hn
      cases hn
    | some o =>
      rw [hget] at hn
      cases hp : o.payload with
      | type label base =>
        obtain rfl : label = name := by simpa [hp] using hn
        exact ⟨_, .type hget hp⟩
      | _ =>
        obtain ⟨path, hrest⟩ := ih (h := o.type) (by simpa [hp] using hn)
        exact ⟨_, .object hget (by rw [Object.isType, hp]) hrest⟩

/-! ## 2. What keeps the way -/

/-- The way is kept where its objects keep their types and stay what they are. -/
theorem transfer (hn : heap.Naming h path name)
    (hk : ∀ k ∈ path, ∀ o, heap.get? k = some o → ∃ o', heap'.get? k = some o' ∧ o.Alike o') :
    heap'.Naming h path name := by
  induction hn with
  | type ho hp =>
    obtain ⟨o', ho', hstage⟩ := hk _ List.mem_cons_self _ ho
    exact .type ho' (hstage.payload_type hp)
  | @object h o path name ho ht _ ih =>
    obtain ⟨o', ho', hstage⟩ := hk _ List.mem_cons_self _ ho
    have hrest := ih fun k hm => hk k (List.mem_cons_of_mem _ hm)
    rw [← hstage.type_eq] at hrest
    refine .object ho' ?_ hrest
    cases hc : o'.isType with
    | false => rfl
    | true =>
      obtain ⟨_, label, base, hget, hp⟩ := isType_iff.mp ⟨o', ho', hc⟩
      cases ho'.symm.trans hget
      rw [Object.isType, hstage.symm.payload_type hp] at ht
      cases ht

/-- An object that survives a collection keeps its way, because it refers to its type. -/
theorem collect (hn : heap.Naming h path name) {roots : List Handle}
    (hkept : (heap.collect roots).2.contains h = true) :
    (heap.collect roots).2.Naming h path name := by
  induction hn with
  | type ho hp => exact .type ((get?_collect _ _ hkept).trans ho) hp
  | object ho ht hrest ih =>
    refine .object ((get?_collect _ _ hkept).trans ho) ht (ih ?_)
    exact (contains_collect _ _ _).mpr
      ⟨hrest.live, .step ((contains_collect _ _ _).mp hkept).2 ho .type⟩

end Naming

/-- **Every object has a name.** -/
structure Named (heap : Heap) : Prop where
  way : ∀ {h : Handle}, heap.contains h = true → ∃ path name, heap.Naming h path name

namespace Named

/-- Where the type of every object is a type, the way is short. -/
theorem of_wellTyped (ht : heap.WellTyped) : heap.Named where
  way := by
    intro h hlive
    obtain ⟨o, hget⟩ := contains_iff.mp hlive
    cases hc : o.isType with
    | true =>
      obtain ⟨_, name, base, hget', hp⟩ := isType_iff.mp ⟨o, hget, hc⟩
      exact ⟨_, _, .type hget' hp⟩
    | false =>
      obtain ⟨o', name, base, hget', hp⟩ := isType_iff.mp (ht h o hget)
      exact ⟨_, _, .object hget hc (.type hget' hp)⟩

/-- A new object is a type or is made for something that has a name. -/
theorem allocate {object : Object} (hn : heap.Named) (hw : heap.WellFormed)
    (htype : heap.contains object.type = true) : (heap.allocate object).2.Named where
  way := by
    have hkept : ∀ {k : Handle} {path : List Handle} {name : String}, heap.Naming k path name →
        (heap.allocate object).2.Naming k path name :=
      fun hk => hk.transfer fun _ _ o ho => ⟨o, get?_allocate_of_live hw ho, .refl o⟩
    intro h hlive
    obtain ⟨o, hget⟩ := contains_iff.mp hlive
    rcases get?_allocate_cases hw hget with ⟨rfl, rfl⟩ | hold
    · cases hc : o.isType with
      | true =>
        obtain ⟨_, name, base, hget', hp⟩ := isType_iff.mp ⟨o, hget, hc⟩
        exact ⟨_, _, .type hget' hp⟩
      | false =>
        obtain ⟨path, name, hrest⟩ := hn.way htype
        exact ⟨_, _, .object hget hc (hkept hrest)⟩
    · obtain ⟨path, name, hway⟩ := hn.way (contains_of_get? hold)
      exact ⟨path, name, hkept hway⟩

theorem alike (hn : heap.Named) (ha : heap.Alike heap') : heap'.Named where
  way := by
    intro h hlive
    obtain ⟨o', hget'⟩ := contains_iff.mp hlive
    obtain ⟨o, hget, _⟩ := ha.found hget'
    obtain ⟨path, name, hway⟩ := hn.way (contains_of_get? hget)
    exact ⟨path, name, hway.transfer fun _ _ _ ho => ha.kept ho⟩

theorem collect (hn : heap.Named) (roots : List Handle) : (heap.collect roots).2.Named where
  way := by
    intro h hlive
    obtain ⟨path, name, hway⟩ := hn.way ((contains_collect _ _ _).mp hlive).1
    exact ⟨path, name, hway.collect hlive⟩

end Named

/-! ## 3. Plain texts -/

theorem plainRepr_total (hn : ∃ path name, heap.Naming h path name) :
    ∃ text, heap.plainRepr h = some text := by
  obtain ⟨path, name, hway⟩ := hn
  obtain ⟨o, hget⟩ := contains_iff.mp hway.live
  unfold plainRepr
  simp only [hget, hway.typeName_eq, Option.bind_eq_bind, Option.bind_some, Option.pure_def]
  split <;> exact ⟨_, rfl⟩

/-- **There is a text for arguments that have names.** -/
theorem plainMessage_total {args : List Handle}
    (hn : ∀ a ∈ args, ∃ path name, heap.Naming a path name) :
    ∃ message, heap.plainMessage args = some message := by
  unfold plainMessage
  split
  · exact ⟨_, rfl⟩
  · rename_i only
    have hnamed := hn only List.mem_cons_self
    obtain ⟨_, _, hway⟩ := id hnamed
    obtain ⟨o, hget⟩ := contains_iff.mp hway.live
    simp only [hget, Option.bind_eq_bind, Option.bind_some]
    split
    · exact ⟨_, rfl⟩
    · exact plainRepr_total hnamed
  · have hall : ∃ texts, args.mapM heap.plainRepr = some texts := by
      clear * - hn
      induction args with
      | nil => exact ⟨[], rfl⟩
      | cons a rest ih =>
        obtain ⟨text, htext⟩ := plainRepr_total (hn a List.mem_cons_self)
        obtain ⟨texts, htexts⟩ := ih fun b hb => hn b (List.mem_cons_of_mem _ hb)
        exact ⟨text :: texts, by rw [List.mapM_cons, htext, htexts]; rfl⟩
    obtain ⟨texts, htexts⟩ := hall
    exact ⟨_, by rw [htexts]; rfl⟩

end Heap

/-! ## 4. Careful sessions -/

/-- **A primitive action keeps the names** if the object it makes is made for something that is
there. -/
theorem Action.named_of_perform {β : Type} {a : Action β} (e : Engine) {s : State}
    (ha : a.isPrimitive = true) (hs : s.Intact) (hn : s.heap.Named)
    (hstores : ∀ h ∈ a.stores, s.Live h) : (a.perform e s).state.heap.Named := by
  cases a.effect_of_perform e s ha with
  | same heq =>
    rw [heq]
    exact hn
  | made hmade heq =>
    rw [heq]
    cases a with
    | allocate object =>
      cases hmade
      exact hn.allocate hs.regular.heap (hstores _ (Object.mem_references_iff.mpr .type))
    | _ => cases hmade
  | changed hc heq =>
    rw [heq]
    exact hn.alike (Heap.alike_modify _ _ hc.alike)
  | collected _ heq =>
    rw [heq]
    exact hn.collect _

theorem naming_governs : (liveness.also fun s => s.heap.Named).Governs Entry.Careful := by
  refine liveness_governs.also (fun limits console => ?_) (fun _ hs => hs) (fun _ hs => hs)
    (fun s g x hs => hs.alike (s.alike_setGenerator g x)) fun a e s hp hs hn hmay =>
    a.named_of_perform e hp hs hn hmay
  rw [State.heap_initial]
  exact .of_wellTyped (Bootstrap.tidy_furnished_heap 0).2.typed

/-- **In a careful session every object has a name.** -/
theorem State.ReachableBy.named {s : State} (h : s.ReachableBy Entry.Careful) : s.heap.Named :=
  (naming_governs.reachable h).2

end ObjectModel
