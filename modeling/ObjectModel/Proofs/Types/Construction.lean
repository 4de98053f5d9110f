import ObjectModel.Proofs.Pairing.Member

/-!
# Programs that make fitting objects only

* `Run.Composed.builds` -- **all builtin code makes fitting objects only.**
-/

namespace ObjectModel

variable {α β σ : Type}

/-! ## 1. The contract -/

/-- **The contract**: the objects that are made fit. -/
def construction : Contract where
  inv := State.Orderly
  may a s := ∀ o, a.made? = some o → s.Fits o
  gives a s answer t := s.Settles t ∧ (a.isPrimitive = true → ∃ e, a.perform e s = .done answer t)

/-- From `s` on, `x` makes fitting objects only and leaves no generator running. -/
def Run.BuildsAt (s : State) (x : Run α) : Prop :=
  x.run.Ensures construction (fun _ t => s.Settles t) s

/-- So it does from every orderly state on. -/
def Run.Builds (x : Run α) : Prop := ∀ s : State, s.Orderly → x.BuildsAt s

/-! ## 2. Rules for composed programs -/

namespace Run.BuildsAt

variable {s : State} {x : Run α} {f : α → Run β}

theorem bind (hs : s.Orderly) (hx : x.BuildsAt s) (hf : ∀ a, (f a).Builds) :
    (x >>= f).BuildsAt s := by
  refine ensures_bind hs hx (fun a t ht hr => ?_) fun fault t _ hr => hr
  exact (hf a t ht).mono ht fun _ _ _ hr' => hr.trans hr'

/-- **What was seen may be relied on.** -/
theorem inspect_bind {look : State → Option α} (hs : s.Orderly)
    (hf : ∀ a, look s = some a → (f a).BuildsAt s) : (inspect look >>= f).BuildsAt s := by
  have hlook : (inspect look).run.Ensures construction (fun r t => t = s ∧ ∃ a, r = .ok a ∧
      look s = some a) s := by
    refine ensures_act hs (fun o ho => ?_) fun a t _ hg => ?_
    · cases ho
    · obtain ⟨e, he⟩ := hg.2 rfl
      simp only [Action.perform] at he
      split at he
      · rename_i seen
        cases he
        exact ⟨rfl, a, rfl, seen⟩
      · cases he
  refine ensures_bind hs hlook (fun a t _ hr => ?_) fun fault t _ hr => ?_
  · obtain ⟨rfl, a', heq, hseen⟩ := hr
    cases heq
    exact hf a hseen
  · obtain ⟨_, a, heq, _⟩ := hr
    cases heq

/-- Whether a handle names a type is seen. -/
theorem isType_bind {h : Handle} {f : Bool → Run α} (hs : s.Orderly)
    (hf : ∀ o, s.heap.get? h = some o → (f o.isType).BuildsAt s) : (isType h >>= f).BuildsAt s := by
  rw [Run.isType_bind]
  exact inspect_bind hs hf

/-- A new object is found in the state behind. -/
theorem allocate_bind {o : Object} {f : Handle → Run α} (hs : s.Orderly) (ho : s.Fits o)
    (hf : ∀ t, t.Orderly → t = (s.allocate o).2 → (f (s.allocate o).1).BuildsAt t) :
    (allocate o >>= f).BuildsAt s := by
  have hmay : construction.may (.allocate o) s := by
    rintro _ ⟨⟩
    exact ho
  have hmade : (allocate o).run.Ensures construction
      (fun r t => s.Settles t ∧ r = .ok (s.allocate o).1 ∧ t = (s.allocate o).2) s := by
    refine ensures_act hs hmay fun h t _ hg => ⟨hg.1, ?_⟩
    obtain ⟨e, he⟩ := hg.2 rfl
    cases he
    exact ⟨rfl, rfl⟩
  refine ensures_bind hs hmade (fun h t ht hr => ?_) fun fault t _ hr => hr.1
  obtain ⟨hsettles, heq, htq⟩ := hr
  cases heq
  exact (hf t ht htq).mono ht fun _ _ _ hr' => hsettles.trans hr'

end Run.BuildsAt

namespace Run.Builds

variable {x : Run α} {f : α → Run β}

theorem pure (a : α) : Builds (Pure.pure a : Run α) := fun s _ => .refl s

theorem throw (fault : Fault) : Builds (MonadExcept.throw fault : Run α) := fun s _ => .refl s

theorem bind (hx : Builds x) (hf : ∀ a, Builds (f a)) : Builds (x >>= f) :=
  fun s hs => (hx s hs).bind hs hf

theorem attempt (hx : Builds x) : Builds (Run.attempt x) := fun s hs => ensures_attempt hs (hx s hs)

/-- **Loops** whose rounds keep to the contract. -/
theorem loop {start : σ} {body : σ → Run (σ ⊕ β)} (hbody : ∀ acc, Builds (body acc)) :
    Builds (Run.loop start body) := by
  intro s _
  refine ensures_loop (fun _ t => s.Settles t) (.refl s) fun acc t ht hacc => ?_
  refine (hbody acc t ht).mono ht fun r u _ hr => ?_
  match r with
  | .ok (.inl next) => exact hacc.trans hr
  | .ok (.inr answer) => exact hacc.trans hr
  | .error fault => exact hacc.trans hr

theorem act {a : Action β} (ha : a.made? = none) : Builds (Run.act a) := by
  intro s hs
  refine ensures_act hs (fun o ho => ?_) fun answer t _ hg => hg.1
  rw [ha] at ho
  cases ho

theorem ask {a : Action (Except Fault β)} (ha : a.made? = none) : Builds (Run.ask a) := by
  intro s _
  refine ensures_ask (fun o ho => ?_) fun answer t _ hg => hg.1
  rw [ha] at ho
  cases ho

/-- An object that fits in any orderly state. -/
theorem allocate {o : Object} (ho : ∀ s : State, s.Orderly → s.Fits o) :
    Builds (ObjectModel.allocate o) := by
  intro s hs
  rw [← bind_pure (ObjectModel.allocate o)]
  exact .allocate_bind hs (ho s hs) fun t _ _ => .refl t

end Run.Builds

/-! ## 3. Builtin code -/

open Run (Builds Composed)

/-- **A plain object fits**: its type was seen to be one. -/
theorem builds_plain (type : Handle) {refused : Run Handle} (hrefused : Builds refused) :
    Builds (do if ← isType type then allocate (.bare type) else refused) := by
  intro s hs
  refine .isType_bind hs fun o hget => ?_
  split
  · rename_i htype
    rw [← bind_pure (allocate _)]
    exact .allocate_bind hs (.plain _ ⟨o, hget, htype⟩ .empty) fun t _ _ => .refl t
  · exact hrefused s hs

/-- **A new type fits**: its base was seen to be a type whose chain has fewer links than the
limit. -/
theorem builds_derived (name : String) (base : Handle) (members : List (String × Handle))
    {refused : Run Handle} (hrefused : Builds refused) :
    Builds (do
      if !(← isType base) then refused
      else
        let links ← inspectHeap fun heap => heap.chain base
        let limit ← inspect fun s => some s.limits.baseChain
        if limit ≤ links.length then
          throw (.baseChainTooDeep name limit)
        let nameText ← newText name
        allocate
          (.ofType name (some base) ((OrderedMap.ofList members).insert "__name__" nameText))) := by
  intro s hs
  refine .isType_bind hs fun o hget => ?_
  split
  · exact hrefused s hs
  · rename_i htype
    refine .inspect_bind hs fun links hchain => .inspect_bind hs fun limit hlimit => ?_
    cases hlimit
    split
    · exact Builds.throw _ s hs
    · rename_i hroom
      have hlineage : s.heap.Lineage base links := by
        obtain ⟨links', hl, _⟩ := hs.heap.lineage ⟨o, hget, by simpa using htype⟩
        have hlinks : links' = links := Option.some.inj (hl.chain_eq.symm.trans hchain)
        exact hlinks ▸ hl
      refine .allocate_bind hs (.text name) fun t ht heq => ?_
      rw [← bind_pure (allocate _)]
      refine .allocate_bind ht ?_ fun u _ _ => .refl u
      rw [heq]
      exact .derived name _ (hlineage.allocate hs.regular.heap _) (Nat.lt_of_not_le hroom)
        ((OrderedMap.Coherent.ofList members).insert _ _)

theorem builds_isException (fault : Fault) (type : Handle) : Builds (isException fault type) := by
  unfold isException
  split
  · exact .act rfl
  · exact .pure _

theorem builds_nextItem {iterator : Handle} (hnext : Builds (next iterator)) :
    Builds (nextItem iterator) := by
  refine hnext.attempt.bind fun outcome => ?_
  cases outcome with
  | ok item => exact .pure _
  | error fault =>
    refine (builds_isException fault _).bind fun stop => ?_
    split
    · exact .pure _
    · exact .throw _

/-- **What is composed makes fitting objects only**, and so does all builtin code. -/
theorem Run.Composed.builds [HasHandles α] {K : List Handle} {x : Run α} (hx : x.Composed True K) :
    x.Builds := by
  induction hx with
  | pure _ => exact .pure _
  | throw fault => exact .throw fault
  | act ha _ _ => exact .act ha.made
  | ask ha _ _ => exact .ask ha.made
  | allocate hfits _ => exact .allocate hfits
  | bind _ _ ihx ihf => exact ihx.bind ihf
  | loop _ _ ih => exact .loop ih
  | nextItem _ _ ih => exact builds_nextItem ih
  | plain _ _ ih => exact builds_plain _ ih
  | derived name _ _ _ ih => exact builds_derived name _ _ ih

theorem builds_raiseMessage (kind : ExceptionKind) (message : String) :
    Builds (raiseMessage kind message : Run α) :=
  (@paired_raiseMessage α .data .data _ True (.known []) kind message).composed_known.builds

theorem builds_raiseValue (exception : Handle) : Builds (raiseValue exception : Run α) := by
  have htext : Composed True [exception] (toText exception) := composed_of_paired (by grind)
  refine Builds.bind (.act rfl) fun name => htext.builds.attempt.bind fun outcome => ?_
  split
  · exact .throw _
  · exact Builds.bind (.act rfl) fun args => Builds.bind (.act rfl) fun message => .throw _

end ObjectModel
