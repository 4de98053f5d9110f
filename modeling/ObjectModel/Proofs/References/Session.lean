import ObjectModel.Proofs.Composition.Script
import ObjectModel.Proofs.References.Bootstrap

/-!
# No dangling references

A host is careful if each handle that its scripts pass to an operation, give back or report as held
is live at that moment.

* `State.no_dangling_references` -- **no state that a careful session passes through has a dangling
  reference**, and no collection brings one in.
-/

namespace ObjectModel

/-! ## 1. Careful hosts -/

/-- What is handed over is live. -/
def Entry.Careful (x : Entry) : Prop :=
  match x.event with
  | .performed (.handOver handles) s _ => ∀ h ∈ handles, s.Live h
  | _ => True

/-- Whether what is handed over is live. -/
def Entry.careful (x : Entry) : Bool :=
  match x.event with
  | .performed (.handOver handles) s _ => ∀ h ∈ handles, s.heap.contains h = true
  | _ => true

theorem Entry.careful_iff (x : Entry) : x.careful = true ↔ x.Careful := by
  unfold careful Careful
  split
  · exact decide_eq_true_iff
  · exact iff_of_true rfl trivial

instance : DecidablePred Entry.Careful := fun x => decidable_of_iff _ x.careful_iff

/-! ## 2. Scripts -/

/-- As deep as before, and nothing was lost if a call was running. -/
structure State.Evolves (s t : State) : Prop where
  depth : t.callDepth = s.callDepth
  live : 0 < s.callDepth → ∀ {h : Handle}, s.Live h → t.Live h

theorem State.Extends.evolves {s t : State} (h : s.Extends t) : s.Evolves t :=
  ⟨h.depth, fun _ => h.live⟩

theorem safe_raiseValue {α : Type} {K : List Handle} {exception : Handle} (he : Known K exception) :
    @Run.Safe α .data K (raiseValue exception) := by
  refine (composed_look _).safe.bind fun name =>
    (paired_toText (known_of_known he).related).composed_known.safe.attempt.bind fun outcome => ?_
  split
  · exact .throw _
  · exact (composed_exceptionArgs exception).safe.bind fun args =>
      (composed_look _).safe.bind fun message => .throw _

theorem liveness_carries : liveness.Carries State.Evolves State.Live where
  refl s := (State.Extends.refl s).evolves
  trans h h' := ⟨h'.depth.trans h.depth, fun hd _ hl => h'.live (h.depth ▸ hd) (h.live hd hl)⟩
  run hx s hs hK := (hx.safe s hs hK).mono hs fun r t _ hr =>
    ⟨hr.1.evolves, fun a ha => hr.1.live_append (hr.2 a ha) hK⟩
  raised hs hl := (safe_raiseValue (K := [_]) (.mem List.mem_cons_self) _ hs
      (by simpa using hl)).mono hs fun _ _ _ hr => hr.1.evolves
  collected extra s hs := by
    refine Run.ensures_ask (by simp [liveness, Action.stores]) fun answer t _ hg => ?_
    obtain ⟨e, he⟩ := hg
    simp only [Action.perform, State.collect] at he
    split at he
    · cases he
      exact (State.Extends.refl s).evolves
    · rename_i hd
      cases he
      exact ⟨rfl, fun h => absurd h hd⟩

/-! ## 3. The machine upholds the contract -/

namespace State.Intact

variable {s : State}

theorem enter (hs : s.Intact) : s.enter.Intact :=
  ⟨hs.regular.step (.enter s), hs.sound.congr rfl rfl rfl⟩

theorem leave (hs : s.Intact) : s.leave.Intact :=
  ⟨hs.regular.step (.leave s), hs.sound.congr rfl rfl rfl⟩

theorem setGenerator (hs : s.Intact) {h : Handle} {g : Generator}
    (hg : ∀ r ∈ (Payload.generator g).references, s.Live r) : (s.setGenerator h g).Intact :=
  ⟨hs.regular.step (.setGenerator s h g), hs.sound.setGenerator hg⟩

end State.Intact

/-- What a resumption came back with is put into its generator. -/
theorem intact_settle {g : Handle} {r : Except Fault Resumed}
    {s u : State} {back : Except Fault Resumption} (hs : s.Intact)
    (hr : ∀ a, r = .ok a → ∀ h ∈ HasHandles.handles a, s.Live h) (h : settle g r s = .done back u) :
    u.Intact ∧ s.Extends u ∧ ∀ b, back = .ok b → ∀ h ∈ b.handles, u.Live h := by
  have hext : ∀ state : Generator, s.Extends (s.setGenerator g state) :=
    fun state => Action.extends_modify s g _
  unfold settle at h
  split at h <;> cases h
  · rename_i value rest
    refine ⟨hs.setGenerator fun k hk => hr _ rfl k (List.mem_append_right _ hk), hext _, ?_⟩
    rintro _ ⟨⟩ k hk
    exact (hext _).live (hr _ rfl k (List.mem_append_left _ hk))
  · rename_i result rest
    refine ⟨hs.setGenerator fun k hk => hr _ rfl k (List.mem_append_left _ hk), hext _, ?_⟩
    rintro _ ⟨⟩ k hk
    exact (hext _).live (hr _ rfl k (List.mem_append_left _ hk))
  · exact ⟨hs.setGenerator (by simp [Payload.references]), hext _, nofun⟩

/-- **The machine upholds the contract.** -/
theorem liveness_upheld : liveness.Upheld Entry.Careful where
  leave s hs := hs.leave
  primitive := by
    intro β a e w s hp hs hmay hcareful
    refine ⟨Action.intact_of_perform e hp hs hmay, fun answer t ht => ?_⟩
    cases a with
    | handOver handles =>
      cases ht
      exact ⟨rfl, hcareful⟩
    | call | advance => cases hp
    | _ => exact ⟨e, ht⟩
  refused callee args s _ _ := ⟨.refl s, nofun⟩
  called := by
    intro callee args s hs hmay
    refine ⟨hs.enter, (liveness_carries.dispatch callee args hs.enter hmay).mono hs.enter
      fun r t _ hr => ?_⟩
    refine ⟨⟨?_, hr.1.live (Nat.succ_pos _)⟩, fun h hh => hr.2 h hh h List.mem_cons_self⟩
    have hdepth : t.callDepth = s.callDepth + 1 := hr.1.depth
    change t.callDepth - 1 = s.callDepth
    omega
  answered := by
    intro g s object hs _ _
    refine ((composed_refusal (K := []) object.payload).safe s hs (by simp)).mono hs
      fun r t _ hr => ?_
    exact ⟨hr.1, fun h hh => hr.2 h hh h List.mem_cons_self⟩
  resumed := by
    intro g s object c hs _ hget hc
    have hinner : (s.setGenerator g .running).enter.Intact :=
      (hs.setGenerator (by simp [Payload.references])).enter
    have hlive : ∀ {h : Handle}, s.Live h → (s.setGenerator g .running).enter.Live h :=
      (Action.extends_modify s g _).live
    have hheld : ∀ h ∈ c.held, (s.setGenerator g .running).enter.Live h :=
      fun h hh => hlive (hs.sound.stored hget (.held hc hh))
    have hresume := liveness_carries.resume c hinner hheld fun hr h hh =>
        hr.live (Nat.succ_pos _) (hheld h hh)
    refine ⟨hinner, hresume.mono hinner fun r t ht hr back u hsettle => ?_⟩
    obtain ⟨hu, hext, hback⟩ := intact_settle ht.leave hr.2 hsettle
    refine ⟨hu, ((composed_conclude back).safe u hu ?_).mono hu fun r v _ hv => ?_⟩
    · intro h hh
      cases back with
      | ok b => exact hback b rfl h hh
      | error fault => exact absurd hh List.not_mem_nil
    · refine ⟨⟨?_, fun hl => hv.1.live (hext.live (hr.1.live (Nat.succ_pos _) (hlive hl)))⟩,
        fun h hh => hv.2 h hh h List.mem_cons_self⟩
      have h1 : t.callDepth = s.callDepth + 1 := hr.1.depth
      have h2 : u.callDepth = t.callDepth - 1 := hext.depth
      have h3 : v.callDepth = u.callDepth := hv.1.depth
      omega

/-! ## 4. Careful sessions -/

theorem liveness_governs : liveness.Governs Entry.Careful where
  upheld := liveness_upheld
  initial := State.intact_initial
  eval e frame s hs := ((e.composed_eval []).ensures liveness_carries frame hs (by simp)).mono hs
      fun _ _ _ _ => trivial

section

variable {s : State}

theorem State.ReachableBy.intact (h : s.ReachableBy Entry.Careful) : s.Intact :=
  liveness_governs.reachable h

/-- **No dangling references**: in every state that a careful session passes through, what live
objects and roots refer to is live, and so it is behind a collection with any extra roots. -/
theorem State.no_dangling_references (h : s.ReachableBy Entry.Careful) :
    s.Sound ∧ ∀ extra : List Handle, (s.collect extra).2.Sound :=
  ⟨h.intact.sound, h.intact.sound.collect h.intact.regular⟩

end

/-! ## 5. A careful session -/

section

open Script

variable (n : Int64) (bound : Nat) (frame : Frame) (s : State)

/-- A tuple of one number is made after its item. -/
theorem run_singleton :
    ((Expr.list .tuple [.int n]).eval.run.run frame).run (engine bound) s
      = .done (.ok (.value
        ((s.allocate (.ofInt n)).2.allocate (.ofItems [(s.allocate (.ofInt n)).1])).1), frame)
        ((s.allocate (.ofInt n)).2.allocate (.ofItems [(s.allocate (.ofInt n)).1])).2 :=
  rfl

theorem log_singleton :
    ((Expr.list .tuple [.int n]).eval.run.run frame).log bound s
      = [⟨[], .performed (.allocate (.ofInt n)) s
        (.done (s.allocate (.ofInt n)).1 (s.allocate (.ofInt n)).2)⟩,
        ⟨[], .performed (.handOver [(s.allocate (.ofInt n)).1]) (s.allocate (.ofInt n)).2
          (.done () (s.allocate (.ofInt n)).2)⟩,
        ⟨[], .performed (.allocate (.ofItems [(s.allocate (.ofInt n)).1])) (s.allocate (.ofInt n)).2
          (.done ((s.allocate (.ofInt n)).2.allocate (.ofItems [(s.allocate (.ofInt n)).1])).1
            ((s.allocate (.ofInt n)).2.allocate (.ofItems [(s.allocate (.ofInt n)).1])).2)⟩] :=
  rfl

end

/-- Behind the evaluation of a tuple, which refers to its item. -/
theorem State.no_dangling_references_behind_tuple :
    let item := (State.initial .standard (.ofLines [])).allocate (.ofInt 5)
    let s := (item.2.allocate (.ofItems [item.1])).2
    s.ReachableBy Entry.Careful ∧ s.Sound ∧ ∀ extra : List Handle, (s.collect extra).2.Sound := by
  intro item s
  have hs : s.ReachableBy Entry.Careful :=
    .between (.step 0 (.list .tuple [.int 5]) _ .start
      (by decide +kernel) (run_singleton 5 0 _ _))
  exact ⟨hs, no_dangling_references hs⟩

end ObjectModel
