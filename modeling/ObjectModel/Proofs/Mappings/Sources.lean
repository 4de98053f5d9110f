import ObjectModel.Proofs.Lists.Member
import ObjectModel.Proofs.Mappings.Filling
import ObjectModel.Proofs.Ranges.Iteration

/-!
# Containers as sources

A list, a tuple or a mapping hands out what it holds without a look at the entries of another
mapping.

* `Heap.Contents.feeds` -- **a container feeds a mapping** with what its elements amount to, in
  order.
-/

namespace ObjectModel

variable {α β : Type} {s t u : State} {c g h k v : Handle} {m : OrderedMap Handle} {n : Nat}
  {e : Engine} {r : Recorder} {w : List Handle}

/-! ## 1. Logs that leave the entries aside -/

theorem ignores_inspect {look : State → Option α}
    (hlook : ∀ change, look (s.modifyEntries h change) = look s) :
    ∀ x ∈ (inspect look).run.record e r w s, x.Ignores h :=
  Program.forall_record_perform rfl hlook fun _ _ => List.forall_mem_nil _

theorem ignores_object {o : Object} (hget : s.heap.get? k = some o)
    (hk : k ≠ h ∨ ∀ m, o.payload ≠ .dict m) : ∀ x ∈ (object k).run.record e r w s, x.Ignores h := by
  refine ignores_inspect fun change => ?_
  rcases hk with hne | hp
  · exact State.get?_modifyEntries_of_ne hne
  · exact (State.get?_modifyEntries_of_payload hget hp).trans hget.symm

/-- What builtin code does leaves the entries aside. -/
theorem Entry.suits_ignores (h : Handle) : Entry.Suits (Entry.Ignores h) where
  allocate := trivial
  setAttribute := trivial
  message {_ args s _} := fun change => s.plainMessage_modifyEntries h change args
  isInstance {_ k type s _} := fun change => s.isInstance_modifyEntries h change k type
  hook {_ k name s _} := fun change => s.hook_modifyEntries h change k name
  object hget hne := fun _ => (State.get?_modifyEntries_of_payload hget hne).trans hget.symm

namespace Run.Past

variable {x : Run α} {f : α → Run β} {a : α} {b : β}

theorem pure (a : α) (n : Nat) (h : Handle) (s : State) : (Pure.pure a : Run α).Past n h s a s :=
  ⟨rfl, List.forall_mem_nil _⟩

theorem bind (hx : x.Past n h s a t) (hf : (f a).Past n h t b u) : (x >>= f).Past n h s b u where
  done := (Run.run_bind_ok hx.done).trans hf.done
  ignores := by
    intro y hy
    rw [Program.log, Run.record_bind_ok hx.done] at hy
    exact (List.mem_append.mp hy).elim (hx.ignores y) (hf.ignores y)

theorem allocate (o : Object) (n : Nat) (h : Handle) (s : State) :
    (ObjectModel.allocate o).Past n h s (s.allocate o).1 (s.allocate o).2 :=
  ⟨rfl, Program.forall_record_perform rfl trivial fun _ _ => List.forall_mem_nil _⟩

theorem object {o : Object} (hget : s.heap.get? k = some o)
    (hk : k ≠ h ∨ ∀ m, o.payload ≠ .dict m) : (object k).Past n h s o s :=
  ⟨Run.run_inspect hget, ignores_object hget hk⟩

/-- A hook that is a builtin member runs it one level deeper. -/
theorem hook {name : String} {m : Member} {onHook : Option Handle → Run Handle}
    (hcall : ∀ hook, onHook (some hook) = call hook [c]) (hm : s.heap.Answers c name m)
    (hd : s.Room) (hx : (m.run [c]).Past n h s.enter v t) :
    (findHook c name >>= onHook).Past (n + 1) h s v t.leave where
  done := by
    have hmember : (m.run [c]).run.run (engine n) s.enter = .done (.ok v) t := hx.done
    have hhook := run_hook (n := n) _ hcall hm hd
    rw [hmember] at hhook
    exact hhook
  ignores := (Entry.suits_ignores h).member hcall hm (fun _ _ => trivial) hx.ignores

end Run.Past

/-! ## 2. Generators that supply elements -/

/-- A generator that has something to deliver is suspended. -/
theorem Generator.Supplies.exists_suspended {x : Generator} {element : Element}
    {pending : List Element} (hx : x.Supplies (element :: pending)) : ∃ c, x = .suspended c := by
  generalize he : element :: pending = elements at hx
  cases hx with
  | items | entries => exact ⟨_, rfl⟩
  | stopped => cases he

/-- A computation of a container looks at nothing. -/
theorem Generator.Supplies.ignores_resume {c : Coroutine} {elements : List Element}
    (hc : (Generator.suspended c).Supplies elements) (s : State) :
    ∀ x ∈ c.resume.run.record e r w s, x.Ignores h := by
  cases hc with
  | @items held pending covered => cases pending <;> exact List.forall_mem_nil _
  | @entries held pending covered =>
    cases pending with
    | nil => exact List.forall_mem_nil _
    | cons entry rest =>
      exact Program.forall_record_perform rfl trivial fun name s₁ =>
        Program.forall_record_perform rfl trivial fun _ _ => List.forall_mem_nil _

/-- **What iteration needs**: the builtin members of tuples and generators, and room for a call. -/
structure State.Equipped (s : State) : Prop where
  requests : s.Requests
  tuple : Bootstrap.Offers s.heap BuiltinType.tuple.handle "__iter__"
    (.function (Member.tuple .iter).qualifiedName (.member (.tuple .iter)))
  room : s.callDepth < s.limits.callDepth

/-- **A generator that can be asked for these elements.** -/
structure State.Supplying (s : State) (g : Handle) (elements : List Element) :
    Prop extends s.Equipped where
  stands : ∃ x, s.Stands g x ∧ x.Supplies elements

namespace State

theorem butFor_asked (s : State) (g : Handle) : s.ButFor g (s.asked g) :=
  ⟨(s.butFor_setGenerator g .running).kept⟩

namespace Equipped

theorem of_offers {x : Run α} {outcome : Except Fault α} (hs : s.Equipped) (hx : x.Builds)
    (hrun : x.run.run (engine n) s = .done outcome t)
    (hoffers : ∀ {b : BuiltinType} {name label : String} {member : Member},
      Bootstrap.Offers s.heap b.handle name (.function label (.member member)) →
      Bootstrap.Offers t.heap b.handle name (.function label (.member member))) : t.Equipped := by
  refine ⟨⟨hx.orderly_done hs.requests.orderly hrun, hoffers hs.requests.iter,
    hoffers hs.requests.next⟩, hoffers hs.tuple, ?_⟩
  rw [State.depth_of_done hrun, (State.steps_of_done hrun).limits_eq]
  exact hs.room

/-- What iteration needs is there behind a run that changes at most one generator. -/
theorem of_butFor {x : Run α} {outcome : Except Fault α} {y : Generator} (hs : s.Equipped)
    (hx : x.Builds) (hrun : x.run.run (engine n) s = .done outcome t) (hg : s.Stands g y)
    (hb : s.ButFor g t) : t.Equipped :=
  hs.of_offers hx hrun fun h => hg.offers_of_kept hb.kept hs.requests.orderly h nofun

theorem of_kept {x : Run α} {outcome : Except Fault α} (hs : s.Equipped) (hx : x.Builds)
    (hrun : x.run.run (engine n) s = .done outcome t) (hk : s.heap.KeptIn t.heap) : t.Equipped := by
  refine hs.of_offers hx hrun fun h => ?_
  obtain ⟨o, member, f, hget, hm, hf, hp⟩ := h
  exact ⟨o, member, f, hk hget, hm, hk hf, hp⟩

end Equipped

namespace Supplying

variable {element : Element} {pending : List Element}

/-- **The next element is handed out**, and the generator can be asked for the others. -/
theorem past_item (hs : s.Supplying g (element :: pending)) (n : Nat) (h : Handle) :
    ∃ v t, (nextItem g).Past (n + 2) h s (some v) t ∧ element.Appears t.heap v ∧
      t.Supplying g pending ∧ s.ButFor g t := by
  obtain ⟨x, hg, hsupplies⟩ := hs.stands
  obtain ⟨c, rfl⟩ := hsupplies.exists_suspended
  have hw : (s.asked g).heap.WellFormed := (hs.requests.asked g).orderly.regular.heap
  obtain ⟨hnil, _⟩ | ⟨element', pending', v, rest, t, helements, hrest, hresume, _, hkept,
      happears⟩ := hsupplies.resume (engine n) hw
  · cases hnil
  · cases helements
    have hnext := run_nextItem_ok (hs.requests.run_next_yielded hs.room hg hresume)
    have hrunning : t.Stands g .running :=
      State.Stands.of_kept ((stands_setGenerator (s := s.enter) (hg.congr rfl) .running).congr
        (t := s.asked g) rfl) hkept
    have hb : s.ButFor g (t.leave.setGenerator g (.suspended rest)).leave :=
      ((s.butFor_asked g).trans (.of_kept hkept)).trans
        ⟨(t.leave.butFor_setGenerator g (.suspended rest)).kept⟩
    have hstands : (t.leave.setGenerator g (.suspended rest)).leave.Stands g (.suspended rest) :=
      (stands_setGenerator (s := t.leave) (hrunning.congr rfl) (.suspended rest)).congr rfl
    refine ⟨v, (t.leave.setGenerator g (.suspended rest)).leave, ⟨hnext, ?_⟩, ?_, ?_, hb⟩
    · refine (Entry.suits_ignores h).nextItem hg (hg.answers hs.requests.orderly hs.requests.next)
        (fun _ _ => trivial) (fun _ _ => trivial) (fun _ _ _ _ => trivial) ?_
      rintro _ ⟨⟩
      exact hsupplies.ignores_resume _
    · exact happears.of_kept
        (hrunning.spared ⟨(t.leave.butFor_setGenerator g (.suspended rest)).kept⟩)
    · exact ⟨hs.toEquipped.of_butFor (composed_nextItem (K := []) trivial g).builds hnext hg hb, _,
        hstands, hrest⟩

/-- **Behind the last element** the generator has stopped. -/
theorem past_end (hs : s.Supplying g []) (n : Nat) (h : Handle) :
    ∃ t, (nextItem g).Past (n + 2) h s none t ∧ t.Supplying g [] ∧ s.ButFor g t := by
  obtain ⟨x, hg, hsupplies⟩ := hs.stands
  have hstop : ∃ fault t, (next g).run.run (engine (n + 2)) s = .done (.error fault) t ∧
      fault.Carries t .stopIteration [] ∧ t.Stands g (.stopped none) ∧ s.ButFor g t := by
    cases x with
    | running => exact absurd rfl hsupplies.ne_running
    | stopped result =>
      cases hsupplies
      obtain ⟨fault, t, hnext, hkept, hcarries⟩ := hs.requests.run_next_stopped hs.room hg n
      exact ⟨fault, t, hnext, hcarries, hg.of_kept hkept, .of_kept hkept⟩
    | suspended c =>
      have hw : (s.asked g).heap.WellFormed := (hs.requests.asked g).orderly.regular.heap
      obtain ⟨_, rest, hresume⟩ | ⟨_, _, _, _, _, hcons, _⟩ := hsupplies.resume (engine n) hw
      · obtain ⟨fault, t, hnext, hkept, hcarries⟩ :=
          hs.requests.run_next_completed hs.room hg hresume nofun
        have hrunning : (s.asked g).leave.Stands g .running :=
          (stands_setGenerator (s := s.enter) (hg.congr rfl) .running).congr rfl
        refine ⟨fault, t, hnext, hcarries,
          (stands_setGenerator hrunning (.stopped none)).of_kept hkept, ?_⟩
        exact (s.butFor_asked g).trans
          (.trans ⟨((s.asked g).leave.butFor_setGenerator g (.stopped none)).kept⟩ (.of_kept hkept))
      · cases hcons
  obtain ⟨fault, t, hnext, hcarries, hstands, hb⟩ := hstop
  have ht : t.Equipped := hs.toEquipped.of_butFor (composed_next (K := []) g).builds hnext hg hb
  refine ⟨t, ⟨Run.run_nextItem_of_isStop hnext (hcarries.isStop ht.requests.orderly), ?_⟩,
    ⟨ht, _, hstands, .stopped⟩, hb⟩
  refine (Entry.suits_ignores h).nextItem hg (hg.answers hs.requests.orderly hs.requests.next)
    (fun _ _ => trivial) (fun _ _ => trivial) (fun _ _ _ _ => trivial) ?_
  rintro _ rfl
  exact hsupplies.ignores_resume _

end Supplying

end State

/-! ## 3. Containers -/

section

variable {elements : List Element} {items : List Handle}

/-- **The builtin `__iter__` of a container** looks at the container alone. -/
theorem Heap.Contents.past_member (hc : s.heap.Contents c elements)
    (hne : ∀ {o : Object} {entries : OrderedMap Handle}, s.heap.get? c = some o →
      o.payload = .dict entries → c ≠ h) (n : Nat) :
    ∃ m, s.heap.Answers c "__iter__" m ∧
      ∃ computation, (Generator.suspended computation).Supplies elements ∧
      (m.run [c]).Past n h s.enter (s.enter.allocate (.ofCoroutine computation)).1
        (s.enter.allocate (.ofCoroutine computation)).2 := by
  cases hc with
  | @list items hm hcell =>
    have hlook : (inspectHeap fun heap => heap.tupleAttribute c Heap.listCell).Past n h s.enter
        (some items) s.enter :=
      ⟨Run.run_inspect hcell, ignores_inspect fun change =>
        s.enter.tupleAttribute_modifyEntries h change c Heap.listCell⟩
    have hreceiver : (listReceiver "list.__iter__" c).Past n h s.enter items s.enter :=
      hlook.bind (.pure items n h s.enter)
    exact ⟨_, hm, .items items items (List.Subset.refl items), .items,
      hreceiver.bind (.allocate _ n h s.enter)⟩
  | @tuple o items hm hget hp =>
    have hlook : (tupleItems c).Past n h s.enter (some items) s.enter := by
      have hobject : (object c).Past n h s.enter o s.enter :=
        .object hget (Or.inr fun m hdict => by cases hp.symm.trans hdict)
      have hitems : o.tupleItems = some items := by rw [Object.tupleItems, hp]
      exact hitems ▸ hobject.bind (.pure o.tupleItems n h s.enter)
    have hreceiver : (tupleReceiver "tuple.__iter__" c).Past n h s.enter items s.enter :=
      hlook.bind (.pure items n h s.enter)
    exact ⟨_, hm, .items items items (List.Subset.refl items), .items,
      hreceiver.bind (.allocate _ n h s.enter)⟩
  | @dict o entries hm hget hp =>
    have hlook : (dictEntries c).Past n h s.enter (some entries) s.enter := by
      have hobject : (object c).Past n h s.enter o s.enter := .object hget (Or.inl (hne hget hp))
      have hentries : o.dictEntries = some entries := by rw [Object.dictEntries, hp]
      exact hentries ▸ hobject.bind (.pure o.dictEntries n h s.enter)
    have hreceiver : (dictReceiver "dict.__iter__" c).Past n h s.enter entries s.enter :=
      hlook.bind (.pure entries n h s.enter)
    exact ⟨_, hm, .entries entries.values entries.toList (List.Subset.refl entries.values),
      .entries, hreceiver.bind (.allocate _ n h s.enter)⟩

/-- **A container answers `iter`** with a new generator that supplies what it holds. -/
theorem Heap.Contents.past_iter (hc : s.heap.Contents c elements) (hs : s.Equipped)
    (hne : ∀ {o : Object} {entries : OrderedMap Handle}, s.heap.get? c = some o →
      o.payload = .dict entries → c ≠ h) (n : Nat) :
    ∃ g t, (iter c).Past (n + 1) h s g t ∧ t.Supplying g elements ∧ ¬ s.Live g ∧
      s.heap.KeptIn t.heap := by
  obtain ⟨m, hm, computation, hsupplies, hmember⟩ := hc.past_member hne n
  have hw : s.enter.heap.WellFormed := hs.requests.orderly.regular.heap
  have hiter : (iter c).Past (n + 1) h s _ _ := .hook (fun _ => rfl) hm hs.room hmember
  have hkept : s.heap.KeptIn (s.enter.allocate (.ofCoroutine computation)).2.leave.heap :=
    Heap.get?_allocate_of_live hw
  refine ⟨_, _, hiter,
    ⟨hs.of_kept (paired_iter (Known.mem (List.mem_singleton_self c)).related).composed_known.builds
      hiter.done hkept, _, ?_, hsupplies⟩, ?_, hkept⟩
  · exact (State.stands_allocate (s := s.enter) hw rfl).congr rfl
  · exact Heap.not_contains_iff.mpr (Heap.get?_allocate_fresh hw _)

/-- A loop that collects the items of a generator leaves the entries aside. -/
theorem State.Supplying.ignores_collect (hs : s.Supplying g elements) (n : Nat)
    (start : Array Handle) :
    ∀ y ∈ (Run.loop start (takeOne g fun items item => return items.push item)).run.log (n + 2) s,
      y.Ignores h := by
  refine Run.forall_record_loop (I := fun s => ∃ elements, s.Supplying g elements)
    (fun acc s hs => ?_) start ⟨elements, hs⟩
  have hround : ∀ {item : Option Handle} {t : State}, (nextItem g).Past (n + 2) h s item t →
    (∃ elements, t.Supplying g elements) →
      (∀ y ∈ (takeOne g (fun items item => return items.push item) acc).run.log (n + 2) s,
        y.Ignores h) ∧
      ∀ next u, (takeOne g (fun items item => return items.push item) acc).run.run
        (engine (n + 2)) s = .done (.ok (.inl next)) u →
        ∃ elements, u.Supplying g elements := by
    intro item t hnext ht
    refine ⟨Run.forall_record_bind hnext.ignores fun item t _ y hy => ?_, fun next u hrun => ?_⟩
    · cases item <;> exact absurd hy List.not_mem_nil
    · have hrun := (Run.run_bind_ok hnext.done).symm.trans hrun
      cases item <;> cases hrun
      exact ht
  obtain ⟨elements, hs⟩ := hs
  cases elements with
  | nil =>
    obtain ⟨t, hnext, ht, _⟩ := hs.past_end n h
    exact hround hnext ⟨_, ht⟩
  | cons element pending =>
    obtain ⟨v, t, hnext, _, ht, _⟩ := hs.past_item n h
    exact hround hnext ⟨_, ht⟩

/-- **A generator of items hands them out**, by induction on those that it has handed out. -/
theorem State.Supplying.handed (n : Nat) (items : List Handle) :
    ∀ pending : List Handle, s.Supplying g ((items ++ pending).map .item) →
    ∃ t, Handed (engine (n + 2)) g s items t ∧ t.Supplying g (pending.map .item) ∧
      s.ButFor g t := by
  induction items using List.reverseRecOn with
  | nil => exact fun pending hs => ⟨s, .none, hs, .of_kept id⟩
  | append_singleton items item ih =>
    intro pending hs
    rw [List.append_assoc] at hs
    obtain ⟨t, hitems, ht, hb⟩ := ih (item :: pending) hs
    obtain ⟨v, u, hnext, rfl, hu, hb'⟩ := State.Supplying.past_item ht n g
    exact ⟨u, .more hitems hnext.done, hu, hb.trans hb'⟩

/-- **A tuple answers `iter`** with a new generator of its items. -/
theorem State.Equipped.past_iter_tuple {o : Object} (hs : s.Equipped)
    (hget : s.heap.get? c = some o) (hp : o.payload = .tuple items) (n : Nat) (h : Handle) :
    ∃ g t, (iter c).Past (n + 1) h s g t ∧ t.Supplying g (items.map .item) ∧ ¬ s.Live g ∧
      s.heap.KeptIn t.heap := by
  have ho := hs.requests.orderly.heap
  have htype : o.type = BuiltinType.tuple.handle := ho.kind hget (by rw [hp]; rfl)
  have hm : s.heap.Answers c "__iter__" (.tuple .iter) :=
    .of_offers ho hget (htype ▸ ho.isType_builtin .tuple) (htype ▸ hs.tuple)
  refine (Heap.Contents.tuple hm hget hp).past_iter hs (fun hget' hdict => ?_) n
  rw [hget] at hget'
  cases hget'
  cases hp.symm.trans hdict

/-- **A tuple is taken apart**, and no object that was there changes. -/
theorem State.Equipped.past_collect {o : Object} (hs : s.Equipped) (hget : s.heap.get? c = some o)
    (hp : o.payload = .tuple items) (hn : items.length < n + 2) (h : Handle) :
    ∃ t, (ObjectModel.collect c).Past (n + 2) h s items t ∧ t.Equipped ∧ s.heap.KeptIn t.heap := by
  obtain ⟨g, t, hiter, ht, hfresh, hkept⟩ := hs.past_iter_tuple hget hp (n + 1) h
  obtain ⟨u, hitems, hu, hb⟩ :=
    State.Supplying.handed n items [] ((List.append_nil items).symm ▸ ht)
  obtain ⟨v, hend, _, hb'⟩ := hu.past_end n g
  have hcollect : (ObjectModel.collect c).Past (n + 2) h s items v := by
    refine ⟨hitems.run_collect hn hiter.done hend.done, ?_⟩
    refine Run.forall_record_bind (Run.forall_record_bind hiter.ignores fun g' t' hrun => ?_)
      fun _ _ _ => List.forall_mem_nil _
    cases hiter.done.symm.trans hrun
    exact ht.ignores_collect n #[]
  have hall : s.heap.KeptIn v.heap := (hb.trans hb').of_fresh hfresh hkept
  exact ⟨v, hcollect, hs.of_kept (paired_collect trivial
    (Known.mem (List.mem_singleton_self c)).related).composed_known.builds hcollect.done hall, hall⟩

end

/-! ## 4. Feeding a mapping -/

theorem Heap.Delivers.of_kept {heap heap' : Heap} {items : List Handle}
    {amount : Except Misfit (String × Handle)} (hd : heap.Delivers items amount)
    (hk : heap.KeptIn heap') : heap'.Delivers items amount := by
  cases hd with
  | entry hget htext => exact .entry (hk hget) htext
  | key hget htext hname => exact .key (hk hget) htext (Heap.className_of_kept hk hname)
  | length hlength => exact .length hlength

/-- **What an element of a container amounts to**: a key with its value is an entry, and a tuple of
fewer than `bound` items is what its items are. -/
inductive Heap.Amounts (heap : Heap) (bound : Nat) :
    Element → Except Misfit (String × Handle) → Prop where
  | pair (key : String) (value : Handle) : Amounts heap bound (.pair key value) (.ok (key, value))
  | tuple {k : Handle} {o : Object} {items : List Handle} {amount : Except Misfit (String × Handle)}
      : heap.get? k = some o → o.payload = .tuple items → items.length < bound →
      heap.Delivers items amount → Amounts heap bound (.item k) amount

section

variable {element : Element} {elements front rest : List Element} {amount : Except Misfit
  (String × Handle)} {amounts earlier : List (Except Misfit (String × Handle))}

theorem Heap.Amounts.of_kept {heap heap' : Heap} {bound : Nat}
    (ha : heap.Amounts bound element amount) (hk : heap.KeptIn heap') :
    heap'.Amounts bound element amount := by
  cases ha with
  | pair key value => exact .pair key value
  | tuple hget hp hlength hd => exact .tuple (hk hget) hp hlength (hd.of_kept hk)

/-- What was handed out for an element is taken apart. -/
theorem Heap.Amounts.past_collect (ha : s.heap.Amounts (n + 3) element amount)
    (hv : element.Appears s.heap v) (hs : s.Equipped) (h : Handle) :
    ∃ items t, (ObjectModel.collect v).Past (n + 3) h s items t ∧ t.heap.Delivers items amount ∧
      t.Equipped ∧ s.heap.KeptIn t.heap := by
  cases ha with
  | pair key value =>
    obtain ⟨name, hget, hname⟩ := hv
    obtain ⟨t, hpast, ht, hkept⟩ := hs.past_collect (n := n + 1) hget rfl (by simp) h
    exact ⟨_, t, hpast, .entry (hkept hname) rfl, ht, hkept⟩
  | tuple hget hp hlength hd =>
    obtain rfl := hv
    obtain ⟨t, hpast, ht, hkept⟩ := hs.past_collect (n := n + 1) hget hp hlength h
    exact ⟨_, t, hpast, hd.of_kept hkept, ht, hkept⟩

/-- **A generator goes on feeding**, by induction on the elements that are asked for: what was there
in `s₀`, before the generator was made, is there all the time. -/
theorem Feeds.supply {s₀ : State} (hfresh : ¬ s₀.Live g)
    (ha : List.Forall₂ (s₀.heap.Amounts (n + 3)) front amounts) :
    ∀ {earlier : List (Except Misfit (String × Handle))} {t : State},
      Feeds (n + 3) h c s earlier g t → t.Supplying g (front ++ rest) →
    s₀.heap.KeptIn t.heap → ∃ u, Feeds (n + 3) h c s (earlier ++ amounts) g u ∧ u.Supplying g rest ∧
    s₀.heap.KeptIn u.heap := by
  induction ha with
  | nil =>
    intro earlier t hf ht hkept
    exact ⟨t, by rwa [List.append_nil], ht, hkept⟩
  | @cons element amount front amounts hamount _ ih =>
    intro earlier t hf ht hkept
    obtain ⟨v, t₁, hnext, happears, ht₁, hb⟩ := ht.past_item (n + 1) h
    have hkept₁ : s₀.heap.KeptIn t₁.heap := hb.of_fresh hfresh hkept
    obtain ⟨items, t₂, hcollect, hdelivers, ht₂, hkept₂⟩ :=
      (hamount.of_kept hkept₁).past_collect happears ht₁.toEquipped h
    obtain ⟨x, hstands, hsupplies⟩ := ht₁.stands
    have hrest : t₂.Supplying g (front ++ rest) := ⟨ht₂, x, hstands.of_kept hkept₂, hsupplies⟩
    obtain ⟨u, hu, hu'⟩ :=
      ih (hf.next hnext hcollect hdelivers) hrest fun hget => hkept₂ (hkept₁ hget)
    exact ⟨u, by rwa [List.append_assoc] at hu, hu'⟩

/-- **A container feeds a mapping** with what its elements amount to, in order, and has the others
still to supply. -/
theorem Heap.Contents.feeds (hc : s.heap.Contents c (front ++ rest)) (hs : s.Equipped) (hne : c ≠ h)
    (ha : List.Forall₂ (s.heap.Amounts (n + 3)) front amounts) :
    ∃ g t, Feeds (n + 3) h c s amounts g t ∧ t.Supplying g rest ∧ ¬ s.Live g ∧
      s.heap.KeptIn t.heap := by
  obtain ⟨g, t, hiter, ht, hfresh, hkept⟩ := hc.past_iter hs (fun _ _ => hne) (n + 2)
  obtain ⟨u, hu, hrest, hkept'⟩ := Feeds.supply hfresh ha (.start hiter) ht hkept
  exact ⟨g, u, hu, hrest, hfresh, hkept'⟩

end

end ObjectModel
