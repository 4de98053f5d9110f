import ObjectModel.Proofs.Types.Script

/-!
# Base chains

A type is defined with a base, which was defined before it.

* `State.base_chains` -- **in every state of every session the base chain of a type ends at
  `object`**, has no type twice and is no longer than the limit; a type can be defined exactly where
  its base leaves room for one more link.
-/

namespace ObjectModel

/-! ## 1. The chains of a heap -/

/-- The chain of a type. -/
structure Heap.ChainOf (heap : Heap) (h : Handle) (links : List Handle) (bound : Nat) : Prop where
  /-- The walk along the bases ends by itself: more steps do not change it. -/
  walk : ∀ fuel, links.length ≤ fuel → heap.chainFrom fuel h = some links
  chain_eq : heap.chain h = some links
  head_eq : links.head? = some h
  types : ∀ k ∈ links, heap.IsType k
  distinct : links.Nodup
  last_eq : links.getLast? = some BuiltinType.object.handle
  length_le : links.length ≤ bound

/-- **What is known of all chains**, if a new type needs a base with fewer than `limit` links. -/
structure Heap.BaseChains (heap : Heap) (limit : Nat) : Prop where
  type : ∀ {h : Handle}, heap.IsType h → ∃ links, heap.ChainOf h links (max limit 3)
  root : ∀ {h : Handle} {o : Object}, heap.get? h = some o → o.isType = true →
    (o.base = none ↔ h = BuiltinType.object.handle)
  /-- An object that is no type has no base. -/
  other : ∀ {h : Handle} {o : Object}, heap.get? h = some o → o.isType = false →
    o.base = none ∧ heap.chain h = some [h]

namespace Heap

variable {heap : Heap} {h : Handle} {links : List Handle} {bound limit : Nat}

theorem Orderly.chainOf (ho : heap.Orderly bound) (hl : heap.Lineage h links) :
    heap.ChainOf h links bound where
  walk _ hf := hl.chainFrom_eq hf
  chain_eq := hl.chain_eq
  head_eq := by
    obtain ⟨rest, rfl⟩ := hl.eq_cons
    rfl
  types _ hk := hl.isType_of_mem hk
  distinct := hl.nodup
  last_eq := ho.getLast?_eq hl
  length_le := by
    obtain ⟨links', hl', hle⟩ := ho.lineage hl.isType
    rw [hl.unique hl']
    exact hle

theorem Orderly.exists_chain (ho : heap.Orderly bound) (hlive : heap.contains h = true) :
    ∃ links, heap.chain h = some links := by
  obtain ⟨o, hget⟩ := contains_iff.mp hlive
  cases ht : o.isType with
  | true =>
    obtain ⟨links, hl, _⟩ := ho.lineage ⟨o, hget, ht⟩
    exact ⟨links, hl.chain_eq⟩
  | false => exact ⟨[h], chain_of_base_none hget (base_of_not_type ht)⟩

theorem Orderly.baseChains (ho : heap.Orderly (max limit 3)) : heap.BaseChains limit where
  type := by
    intro h ht
    obtain ⟨links, hl, _⟩ := ho.lineage ht
    exact ⟨links, ho.chainOf hl⟩
  root := by
    intro h o hget ht
    obtain ⟨o', name, base, hget', hp⟩ := isType_iff.mp ⟨o, hget, ht⟩
    cases hget.symm.trans hget'
    have hbase : o.base = base := by
      unfold Object.base
      rw [hp]
    rw [hbase]
    constructor
    · rintro rfl
      exact ho.root hget hp
    · rintro rfl
      obtain ⟨o', hget', hp'⟩ := ho.builtin .object
      cases hget.symm.trans hget'
      cases hp.symm.trans hp'
      rfl
  other := by
    intro h o hget ht
    exact ⟨base_of_not_type ht, chain_of_base_none hget (base_of_not_type ht)⟩

end Heap

/-! ## 2. Defining a type -/

/-- The state behind the definition of a type: its name was placed, then the type. -/
def State.addType (s : State) (name : String) (base : Handle) (members : List (String × Handle)) :
    Handle × State :=
  let (text, s) := s.allocate (.ofText name)
  s.allocate (.ofType name (some base) ((OrderedMap.ofList members).insert "__name__" text))

section

variable {s : State} {base : Option Handle} {links : List Handle} (n : Nat) (name : String)
  (members : List (String × Handle))

theorem run_defineType (hl : s.heap.Lineage (base.getD BuiltinType.object.handle) links) :
    (defineType name base members).exec n s
      = if s.limits.baseChain ≤ links.length
        then .done (.error (.baseChainTooDeep name s.limits.baseChain)) s
        else .done (.ok (s.addType name (base.getD BuiltinType.object.handle) members).1)
          (s.addType name (base.getD BuiltinType.object.handle) members).2 := by
  obtain ⟨o, hget, ht⟩ := hl.isType
  unfold Run.exec defineType
  rw [Run.run_isType_bind hget, ht, if_neg (by decide)]
  have hlimit : ∀ f : Nat → Run Handle, (inspect (fun s => some s.limits.baseChain) >>= f).run.run
      (engine n) s
      = (f s.limits.baseChain).run.run (engine n) s := fun _ => Run.run_inspect_bind rfl
  refine (Run.run_inspect_bind hl.chain_eq).trans ((hlimit _).trans ?_)
  dsimp only
  split
  · rfl
  · rfl

theorem defineType_of_not_type (hs : s.Regular)
    (hb : ¬ s.heap.IsType (base.getD BuiltinType.object.handle)) {r : Except Fault Handle}
    {t : State} (hrun : (defineType name base members).exec n s = .done r t) :
    ∃ fault text, r = .error fault ∧ Fault.Carries t .typeError [text] fault := by
  unfold Run.exec defineType at hrun
  cases hget : s.heap.get? (base.getD BuiltinType.object.handle) with
  | none =>
    rw [Run.run_isType_bind_stale hget] at hrun
    cases hrun
  | some o =>
    have ht : o.isType = false := by
      cases hc : o.isType with
      | false => rfl
      | true => exact absurd ⟨o, hget, hc⟩ hb
    rw [Run.run_isType_bind hget, ht, if_pos (by decide)] at hrun
    cases hname : s.heap.typeName (base.getD BuiltinType.object.handle) with
    | none =>
      have hstale := (Run.run_inspect_bind_stale hname).symm.trans hrun
      cases hstale
    | some label =>
      replace hrun := (Run.run_inspect_bind hname).symm.trans hrun
      rw [typeError, raiseMessage_bind] at hrun
      obtain ⟨fault, u, text, hraise, _, _, hcarries⟩ :=
        run_raiseMessage (α := Handle) hs.heap .typeError ("base must be a type, not " ++ label)
          (engine n)
      rw [hraise] at hrun
      cases hrun
      exact ⟨fault, text, rfl, hcarries⟩

theorem State.addType_spec {b : Handle} (hw : s.heap.WellFormed) (hl : s.heap.Lineage b links) :
    ∃ o, (s.addType name b members).2.heap.get? (s.addType name b members).1 = some o ∧
      o.payload = .type name (some b) ∧
      (s.addType name b members).2.heap.Lineage (s.addType name b members).1
        ((s.addType name b members).1 :: links) := by
  obtain ⟨text, t, ht, hp⟩ := State.exists_placed hw (.ofText name)
  have hadd : s.addType name b members
      = t.allocate
          (.ofType name (some b) ((OrderedMap.ofList members).insert "__name__" text)) := by
    unfold State.addType
    rw [ht]
  have hbase : t.heap.Lineage b links := hl.transfer fun _ _ o ho => ⟨o, hp.kept ho, rfl⟩
  have hget := Heap.get?_allocate_self hp.wellFormed
      (.ofType name (some b) ((OrderedMap.ofList members).insert "__name__" text))
  rw [hadd]
  exact ⟨_, hget, rfl, .derived hget rfl (hbase.allocate hp.wellFormed _)⟩

end

/-! ## 3. How a definition ends -/

/-- **How the definition of a type ends.** -/
structure State.DefinesType (s : State) (n : Nat) (name : String) (base : Option Handle)
    (members : List (String × Handle)) : Prop where
  /-- It succeeds exactly if the base is a type whose chain leaves room. -/
  succeeds : (∃ h t, (defineType name base members).exec n s = .done (.ok h) t) ↔
    s.heap.IsType (base.getD BuiltinType.object.handle) ∧
      ∃ links, s.heap.chain (base.getD BuiltinType.object.handle) = some links ∧
        links.length < s.limits.baseChain
  /-- The new type stands in front of the chain of its base. -/
  made : ∀ h t, (defineType name base members).exec n s = .done (.ok h) t →
    ∃ o links, t.heap.get? h = some o ∧
      o.payload = .type name (some (base.getD BuiltinType.object.handle)) ∧
      s.heap.chain (base.getD BuiltinType.object.handle) = some links ∧
        t.heap.chain h = some (h :: links)
  /-- A chain without room is reported, and nothing has changed. -/
  tooDeep : ∀ label limit t, (defineType name base members).exec n s
    = .done (.error (.baseChainTooDeep label limit)) t ↔
    (label = name ∧ limit = s.limits.baseChain ∧ t = s) ∧
      s.heap.IsType (base.getD BuiltinType.object.handle) ∧
      ∃ links, s.heap.chain (base.getD BuiltinType.object.handle) = some links ∧
        s.limits.baseChain ≤ links.length

namespace State.DefinesType

variable {s : State} {base : Option Handle} {links : List Handle} (n : Nat) (name : String)
  (members : List (String × Handle))

theorem of_room (hw : s.heap.WellFormed)
    (hl : s.heap.Lineage (base.getD BuiltinType.object.handle) links)
    (hroom : links.length < s.limits.baseChain) : s.DefinesType n name base members := by
  have hrun := run_defineType n name members hl
  rw [if_neg (Nat.not_le_of_lt hroom)] at hrun
  refine ⟨⟨fun _ => ⟨hl.isType, links, hl.chain_eq, hroom⟩, fun _ => ⟨_, _, hrun⟩⟩,
    fun h t hok => ?_, fun label limit t => ?_⟩
  · cases hrun.symm.trans hok
    obtain ⟨o, hget, hp, hnew⟩ := addType_spec name members hw hl
    exact ⟨o, links, hget, hp, hl.chain_eq, hnew.chain_eq⟩
  · constructor
    · intro hdeep
      cases hrun.symm.trans hdeep
    · rintro ⟨_, _, links', hchain, hle⟩
      cases hl.chain_eq.symm.trans hchain
      exact absurd hle (Nat.not_le_of_lt hroom)

theorem of_full (hl : s.heap.Lineage (base.getD BuiltinType.object.handle) links)
    (hfull : s.limits.baseChain ≤ links.length) : s.DefinesType n name base members := by
  have hrun := run_defineType n name members hl
  rw [if_pos hfull] at hrun
  refine ⟨⟨?_, ?_⟩, fun h t hok => ?_, fun label limit t => ?_⟩
  · rintro ⟨h, t, hok⟩
    cases hrun.symm.trans hok
  · rintro ⟨_, links', hchain, hlt⟩
    cases hl.chain_eq.symm.trans hchain
    exact absurd hfull (Nat.not_le_of_lt hlt)
  · cases hrun.symm.trans hok
  · rw [hrun]
    constructor
    · rintro ⟨⟩
      exact ⟨⟨rfl, rfl, rfl⟩, hl.isType, links, hl.chain_eq, hfull⟩
    · rintro ⟨⟨rfl, rfl, rfl⟩, _⟩
      rfl

theorem of_not_type (hs : s.Regular) (hb : ¬ s.heap.IsType (base.getD BuiltinType.object.handle)) :
    s.DefinesType n name base members := by
  refine ⟨⟨?_, fun h => absurd h.1 hb⟩, fun h t hok => ?_,
    fun label limit t => ⟨fun hdeep => ?_, fun h => absurd h.2.1 hb⟩⟩
  · rintro ⟨h, t, hok⟩
    obtain ⟨fault, text, he, _⟩ := defineType_of_not_type n name members hs hb hok
    cases he
  · obtain ⟨fault, text, he, _⟩ := defineType_of_not_type n name members hs hb hok
    cases he
  · obtain ⟨fault, text, he, hcarries⟩ := defineType_of_not_type n name members hs hb hdeep
    cases he
    cases hcarries

theorem of_orderly (hs : s.Orderly) (base : Option Handle) : s.DefinesType n name base members := by
  by_cases hb : s.heap.IsType (base.getD BuiltinType.object.handle)
  · obtain ⟨links, hl, _⟩ := hs.heap.lineage hb
    rcases Nat.lt_or_ge links.length s.limits.baseChain with hroom | hfull
    · exact of_room n name members hs.regular.heap hl hroom
    · exact of_full n name members hl hfull
  · exact of_not_type n name members hs.regular hb

end State.DefinesType

/-- **Base chains**: in every state that a session passes through, the chain of every type is one of
distinct types up to `object` and no longer than the limit allows, nothing but a type has a base,
and a type can be defined exactly where its base leaves room. -/
theorem State.base_chains {s : State} (h : s.Reachable) :
    s.heap.BaseChains s.limits.baseChain ∧
      ∀ (n : Nat) (name : String) (base : Option Handle) (members : List (String × Handle)),
        s.DefinesType n name base members :=
  ⟨h.orderly.heap.baseChains, fun n name base members => .of_orderly n name members h.orderly base⟩

/-! ## 4. Behind the definition of a type -/

section

variable {limits : Limits} {console : Console} {frame : Script.Frame} {s : State}

/-- A session may define a type with the base `object` wherever two links are allowed. -/
theorem Session.Reaches.addType (h : Reaches (fun _ => True) limits console frame s)
    (hroom : 1 < s.limits.baseChain) (name : String) :
    (s.addType name BuiltinType.object.handle []).2.Reachable := by
  have hl : s.heap.Lineage (Option.getD none BuiltinType.object.handle)
      [BuiltinType.object.handle] := h.orderly.heap.lineage_object
  have hrun := run_defineType 0 name [] hl
  rw [List.length_singleton, if_neg (Nat.not_le_of_lt hroom)] at hrun
  exact .between (.step 0 (.defineType name none []) _ h (fun _ _ => trivial)
    (Script.run_answer .value hrun))

end

/-- Behind the definition of a type in the first state. -/
theorem State.base_chains_behind_definition :
    let made := (State.initial .standard (.ofLines [])).addType "A" BuiltinType.object.handle []
    made.2.Reachable ∧ made.2.heap.BaseChains made.2.limits.baseChain ∧
      ∀ (n : Nat) (name : String) (base : Option Handle) (members : List (String × Handle)),
        made.2.DefinesType n name base members := by
  intro made
  have hroom : 1 < (State.initial .standard (.ofLines [])).limits.baseChain := by
    rw [State.limits_initial]
    decide
  have hreachable : made.2.Reachable := Session.Reaches.addType .start hroom "A"
  exact ⟨hreachable, State.base_chains hreachable⟩

end ObjectModel
