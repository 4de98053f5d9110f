import ObjectModel.Proofs.Generators.Watch

/-!
# Nesting

How deep a run nests. The call depth counts the calls and the computations that are running; a call
is refused at the limit, a request to a generator is not.

* `Entry.guarded_of_deep` -- while anything is running, a collection is refused and changes nothing.
-/

namespace ObjectModel

/-! ## 1. What a run leaves as it is -/

namespace State

variable {s t : State}

theorem Change.limits_eq (h : s.Change t) : t.limits = s.limits := by
  cases h with
  | collect extra =>
    unfold State.collect
    split <;> rfl
  | _ => rfl

theorem Step.limits_eq (h : s.Step t) : t.limits = s.limits := by
  cases h with
  | change h => exact h.limits_eq
  | _ => rfl

theorem Steps.limits_eq (h : s.Steps t) : t.limits = s.limits := by
  induction h with
  | refl => rfl
  | tail _ hstep ih => exact hstep.limits_eq.trans ih

end State

/-! ## 2. The depth of an entry -/

namespace Entry

/-- The generators whose computations are running in an entry, the one that it resumes included, the
innermost first. -/
def running (x : Entry) : List Handle :=
  match x.event with
  | .performed _ _ _ => x.within
  | .resumed g _ _ _ => g :: x.within

/-- **How deep an entry is** in a run that began in `s` within `w`, if the computations of `v` have
been resumed since: each of them adds one level, and above the limit nothing else does. -/
structure Deeper (s : State) (v w : List Handle) (x : Entry) : Prop where
  running_eq : x.running = v ++ w
  least : s.callDepth + v.length ≤ x.event.before.callDepth
  most : x.event.before.callDepth ≤ max s.callDepth s.limits.callDepth + v.length
  behind : x.event.behind.callDepth = x.event.before.callDepth

theorem Deeper.performed {β : Type} {a : Action β} {s : State} {w : List Handle} {o : Outcome β}
    (ho : o.state.callDepth = s.callDepth) : Deeper s [] w ⟨w, .performed a s o⟩ where
  running_eq := rfl
  least := Nat.le_refl _
  most := Nat.le_max_left _ _
  behind := ho

theorem Deeper.resumed {s : State} {w : List Handle} {g : Handle} {c : Coroutine}
    {o : Outcome (Except Fault Resumed)} (ho : o.state.callDepth = s.callDepth + 1) :
    Deeper s [g] w ⟨w, .resumed g c (s.setGenerator g .running).enter o⟩ where
  running_eq := rfl
  least := Nat.le_refl _
  most := Nat.succ_le_succ (Nat.le_max_left _ _)
  behind := ho

theorem Deeper.of_enter {s : State} {v w : List Handle} {x : Entry} (hl : s.Room)
    (h : Deeper s.enter v w x) : Deeper s v w x := by
  have hleast : s.callDepth + 1 + v.length ≤ x.event.before.callDepth := h.least
  have hmost : x.event.before.callDepth ≤ max (s.callDepth + 1) s.limits.callDepth + v.length :=
    h.most
  exact ⟨h.running_eq, by omega, by omega, h.behind⟩

theorem Deeper.of_resumed {s : State} {v w : List Handle} {g : Handle} {x : Entry}
    (h : Deeper (s.setGenerator g .running).enter v (g :: w) x) : Deeper s (v ++ [g]) w x := by
  have hleast : s.callDepth + 1 + v.length ≤ x.event.before.callDepth := h.least
  have hmost : x.event.before.callDepth ≤ max (s.callDepth + 1) s.limits.callDepth + v.length :=
    h.most
  have hlength : (v ++ [g]).length = v.length + 1 := List.length_append
  refine ⟨?_, by omega, by omega, h.behind⟩
  rw [h.running_eq, List.append_cons]

/-- An entry behind another part of the run. -/
theorem Deeper.congr {s t : State} {v w : List Handle} {x : Entry} (hd : t.callDepth = s.callDepth)
    (hl : t.limits = s.limits) (h : Deeper t v w x) : Deeper s v w x where
  running_eq := h.running_eq
  least := hd ▸ h.least
  most := by
    have hmost := h.most
    rw [hd, hl] at hmost
    exact hmost
  behind := h.behind

/-- If the entry resumes a computation, it does so within the limit. -/
def ResumesWithin (limit : Nat) (x : Entry) : Prop :=
  ∀ g c b o, x.event = .resumed g c b o → b.callDepth ≤ limit

end Entry

/-! ## 3. What a run does to the depth -/

namespace Passage

variable {w : List Handle} {s t : State} {l : List Entry} {finished : Bool}

/-- **How deep a run gets.** -/
theorem deeper (h : Passage w s l finished t) : ∀ x ∈ l, ∃ v, x.Deeper s v w := by
  induction h with
  | idle => exact List.forall_mem_nil _
  | append h _ ih ih' =>
    refine List.forall_mem_append.mpr ⟨ih, fun x hx => ?_⟩
    obtain ⟨v, hv⟩ := ih' x hx
    exact ⟨v, hv.congr h.callDepth_eq (State.Steps.limits_eq h.steps)⟩
  | primitive a e s hp =>
    have hdepth := (primitive (w := []) a e s hp).callDepth_eq
    exact List.forall_mem_singleton.mpr ⟨[], .performed hdepth⟩
  | cut | refused | stale => exact List.forall_mem_singleton.mpr ⟨[], .performed rfl⟩
  | called callee args r hl h ih =>
    have hdepth := (called callee args r hl h).callDepth_eq
    refine List.forall_mem_append.mpr ⟨fun x hx => ?_,
      List.forall_mem_singleton.mpr ⟨[], .performed ?_⟩⟩
    · obtain ⟨v, hv⟩ := ih x hx
      exact ⟨v, hv.of_enter hl⟩
    · rw [Outcome.state_onState]
      exact hdepth
  | answered _ _ _ _ _ h ih =>
    exact List.forall_mem_append.mpr
      ⟨ih, List.forall_mem_singleton.mpr ⟨[], .performed h.callDepth_eq⟩⟩
  | lost g reason t hget hc h ih =>
    have hdepth := (lost g reason t hget hc h).callDepth_eq
    refine List.forall_mem_append.mpr ⟨fun x hx => ?_,
      List.forall_mem_cons.mpr ⟨⟨[g], .resumed h.callDepth_eq⟩, ?_⟩⟩
    · obtain ⟨v, hv⟩ := ih x hx
      exact ⟨v ++ [g], hv.of_resumed⟩
    · exact List.forall_mem_singleton.mpr ⟨[], .performed hdepth⟩
  | resumed g r t o hget hc h back u hsettle hrun h' ih ih' =>
    have hdepth := (resumed g r t o hget hc h back u hsettle hrun h').callDepth_eq
    refine List.forall_mem_append.mpr ⟨fun x hx => ?_,
      List.forall_mem_cons.mpr ⟨⟨[g], .resumed h.callDepth_eq⟩, ?_⟩⟩
    · obtain ⟨v, hv⟩ := ih x hx
      exact ⟨v ++ [g], hv.of_resumed⟩
    · refine List.forall_mem_append.mpr ⟨fun x hx => ?_,
        List.forall_mem_singleton.mpr ⟨[], .performed hdepth⟩⟩
      obtain ⟨v, hv⟩ := ih' x hx
      obtain ⟨y, rfl⟩ := exists_settled hsettle
      exact ⟨v, hv.congr (h'.callDepth_eq.symm.trans hdepth) (State.Steps.limits_eq h.steps :)⟩

/-- If computations are resumed within the limit only, everything happens within the limit. -/
theorem bounded {limit : Nat} (h : Passage w s l finished t) :
    s.limits.callDepth = limit → s.callDepth ≤ limit →
    (∀ x ∈ l, x.ResumesWithin limit) → ∀ x ∈ l, x.event.before.callDepth ≤ limit := by
  induction h with
  | idle => exact fun _ _ _ => List.forall_mem_nil _
  | append h _ ih ih' =>
    intro hlimit hs hr
    obtain ⟨hr, hr'⟩ := List.forall_mem_append.mp hr
    refine List.forall_mem_append.mpr ⟨ih hlimit hs hr, ih' ?_ (h.callDepth_eq.trans_le hs) hr'⟩
    rw [State.Steps.limits_eq h.steps]
    exact hlimit
  | primitive | cut | refused | stale => exact fun _ hs _ => List.forall_mem_singleton.mpr hs
  | called _ _ _ hl _ ih =>
    intro hlimit hs hr
    exact List.forall_mem_append.mpr ⟨ih hlimit (hlimit ▸ hl) (List.forall_mem_append.mp hr).1,
      List.forall_mem_singleton.mpr hs⟩
  | answered _ _ _ _ _ _ ih =>
    intro hlimit hs hr
    exact List.forall_mem_append.mpr ⟨ih hlimit hs (List.forall_mem_append.mp hr).1,
      List.forall_mem_singleton.mpr hs⟩
  | lost g _ _ _ _ _ ih =>
    intro hlimit hs hr
    obtain ⟨hr, hr'⟩ := List.forall_mem_append.mp hr
    -- the entry of the computation says how deep it began
    have hin := hr' _ List.mem_cons_self g _ _ _ rfl
    exact List.forall_mem_append.mpr ⟨ih hlimit hin hr,
      List.forall_mem_cons.mpr ⟨hin, List.forall_mem_singleton.mpr hs⟩⟩
  | resumed g r t o hget hc h back u hsettle hrun h' ih ih' =>
    intro hlimit hs hr
    obtain ⟨hr, hr'⟩ := List.forall_mem_append.mp hr
    obtain ⟨hresumed, hr'⟩ := List.forall_mem_cons.mp hr'
    have hin := hresumed g _ _ _ rfl
    have hdepth := (resumed g r t o hget hc h back u hsettle hrun h').callDepth_eq
    refine List.forall_mem_append.mpr ⟨ih hlimit hin hr,
      List.forall_mem_cons.mpr ⟨hin, List.forall_mem_append.mpr ⟨?_, ?_⟩⟩⟩
    · refine ih' ?_ ((h'.callDepth_eq.symm.trans hdepth).trans_le hs)
        (List.forall_mem_append.mp hr').1
      obtain ⟨y, rfl⟩ := exists_settled hsettle
      exact (congrArg (·.callDepth) (State.Steps.limits_eq h.steps :)).trans hlimit
    · exact List.forall_mem_singleton.mpr hs

end Passage

/-! ## 4. Running computations are distinct -/

/-- All of `w` are running, one inside of the other. -/
structure State.Runs (s : State) (w : List Handle) : Prop where
  wellFormed : s.heap.WellFormed
  nodup : w.Nodup
  running : ∀ g ∈ w, s.Stands g .running
  deep : w ≠ [] → 0 < s.callDepth

/-- Resuming a suspended generator within those that are running. -/
theorem State.Runs.resume {s : State} {w : List Handle} {g : Handle} {c : Coroutine} (h : s.Runs w)
    (hg : s.Stands g (.suspended c)) : (s.setGenerator g .running).enter.Runs (g :: w) := by
  have hnew : g ∉ w := by
    intro hmem
    cases (h.running g hmem).unique hg
  refine ⟨h.wellFormed.modify g _, List.nodup_cons.mpr ⟨hnew, h.nodup⟩, fun k hk => ?_,
    fun _ => Nat.succ_pos _⟩
  rcases List.mem_cons.mp hk with rfl | hk
  · exact State.stands_setGenerator hg .running
  · have hne : k ≠ g := fun e => hnew (e ▸ hk)
    exact (h.running k hk).setGenerator_of_ne hne .running

namespace Passage

variable {w : List Handle} {s t : State} {l : List Entry} {finished : Bool}

/-- What was running before a run is running behind it. -/
theorem runs (h : Passage w s l finished t) (hs : s.Runs w) : t.Runs w where
  wellFormed := State.Steps.wellFormed h.steps hs.wellFormed
  nodup := hs.nodup
  running g hg :=
    ((Generator.Moves.of_passage g h).inside hs.wellFormed hg (hs.deep (List.ne_nil_of_mem hg))
      (hs.running g hg)).1
  deep hw := h.callDepth_eq ▸ hs.deep hw

/-- No computation is resumed that is running already. -/
theorem nodup (h : Passage w s l finished t) : s.Runs w → ∀ x ∈ l, x.running.Nodup := by
  induction h with
  | idle => exact fun _ => List.forall_mem_nil _
  | append h _ ih ih' => exact fun hs => List.forall_mem_append.mpr ⟨ih hs, ih' (h.runs hs)⟩
  | primitive | cut | refused | stale => exact fun hs => List.forall_mem_singleton.mpr hs.nodup
  | called _ _ _ _ _ ih =>
    intro hs
    have henter := ih ⟨hs.wellFormed, hs.nodup, hs.running, fun _ => Nat.succ_pos _⟩
    exact List.forall_mem_append.mpr ⟨henter, List.forall_mem_singleton.mpr hs.nodup⟩
  | answered _ _ _ _ _ _ ih =>
    exact fun hs => List.forall_mem_append.mpr ⟨ih hs, List.forall_mem_singleton.mpr hs.nodup⟩
  | lost _ _ _ hget hc _ ih =>
    intro hs
    have hin := hs.resume ⟨_, hget, hc⟩
    exact List.forall_mem_append.mpr
      ⟨ih hin, List.forall_mem_cons.mpr ⟨hin.nodup, List.forall_mem_singleton.mpr hs.nodup⟩⟩
  | @resumed _ s _ _ _ _ g _ t _ hget hc h _ _ hsettle _ _ ih ih' =>
    intro hs
    have hin := hs.resume ⟨_, hget, hc⟩
    have hback := h.runs hin
    refine List.forall_mem_append.mpr ⟨ih hin, List.forall_mem_cons.mpr ⟨hin.nodup, ?_⟩⟩
    refine List.forall_mem_append.mpr ⟨ih' ?_, List.forall_mem_singleton.mpr hs.nodup⟩
    -- the computation is over; those around it are running as before
    obtain ⟨y, rfl⟩ := exists_settled hsettle
    have hdepth : t.callDepth = s.callDepth + 1 := h.callDepth_eq
    refine ⟨hback.wellFormed.modify g _, hs.nodup, fun k hk => ?_, fun hw => ?_⟩
    · have hne : k ≠ g := fun e => (List.nodup_cons.mp hin.nodup).1 (e ▸ hk)
      have hk' : t.leave.Stands k .running :=
        (hback.running k (List.mem_cons_of_mem g hk)).congr rfl
      exact hk'.setGenerator_of_ne hne y
    · have hd := hs.deep hw
      show 0 < t.callDepth - 1
      omega

end Passage

/-! ## 5. Collections inside -/

/-- **Something is running**, so a collection is refused and changes nothing. -/
structure Entry.Guarded (x : Entry) : Prop where
  deep : 0 < x.event.before.callDepth
  refused : ∀ extra s o, x.event = .performed (.collect extra) s o →
    o = .done (.error (.intrinsic .collectInsideCall)) s

theorem Entry.guarded_of_deep {x : Entry} (ht : x.event.Truthful)
    (hd : 0 < x.event.before.callDepth) : x.Guarded := by
  refine ⟨hd, fun extra s o hx => ?_⟩
  rw [hx] at ht hd
  have hd : 0 < s.callDepth := hd
  obtain ⟨e, rfl⟩ := ht rfl
  have hcollect : s.collect extra = (.error (.intrinsic .collectInsideCall), s) := if_pos hd
  simp only [Action.perform, hcollect]

end ObjectModel
