import ObjectModel.Proofs.Generators.Mapping
import ObjectModel.Proofs.Run.Evaluation

/-!
# A source that is shared

Any number of maps are made over one generator, and the maps and the generator itself are asked for
their next item in any order. Beside them runs a ledger of the items that are left and of the maps
in play.

* `State.shared_source` -- **every item is handed out once, to the one who asked for it**.
-/

namespace ObjectModel

/-! ## 1. The ledger -/

namespace Sharing

/-- The items that are left, and the maps in play: each with its function, or with none once it has
stopped. -/
structure Ledger where
  pending : List Handle
  maps : Handle → Option (Option Handle)

namespace Ledger

def start (items : List Handle) : Ledger := ⟨items, fun _ => none⟩

/-- The map has not stopped. -/
def IsOpen (L : Ledger) (k : Handle) : Prop := ∃ f, L.maps k = some (some f)

def set (L : Ledger) (h : Handle) (function : Option Handle) : Ledger :=
  { L with maps := fun k => if k = h then some function else L.maps k }

/-- The maps beside `h`. -/
def Beside (L : Ledger) (h k : Handle) : Prop := k ≠ h ∧ ∃ x, L.maps k = some x

/-- One item less. -/
def tail (L : Ledger) : Ledger := { L with pending := L.pending.tail }

variable {L : Ledger} {h k : Handle} {x y : Option Handle}

theorem set_eq_some :
    (L.set h x).maps k = some y ↔ (k = h ∧ y = x) ∨ (k ≠ h ∧ L.maps k = some y) := by
  unfold set
  dsimp only
  split
  · rename_i he
    simp [he, eq_comm]
  · rename_i hne
    simp [hne]

theorem set_eq_self (hm : L.maps h = some x) : L.set h x = L := by
  have hmaps : (fun k => if k = h then some x else L.maps k) = L.maps := by
    funext k
    split
    · rename_i he
      rw [he, hm]
    · rfl
  unfold set
  rw [hmaps]

theorem set_of_ne (hne : k ≠ h) : (L.set h x).maps k = L.maps k := if_neg hne

end Ledger

/-- The state of a map over `g`: it will ask it, or it has stopped. -/
def stage (g : Handle) : Option Handle → Generator
  | some f => .suspended (.mapping f g)
  | none => .stopped none

theorem stage_ne_running (g : Handle) (x : Option Handle) : stage g x ≠ .running := by
  cases x with
  | none => exact Generator.stopped_ne_running none
  | some f => exact Generator.suspended_ne_running _

/-- What is done with a source. -/
inductive Command where
  | map (function : Handle)
  | next (consumer : Handle)

namespace Command

def run (g : Handle) : Command → Run Handle
  | map f => BuiltinFunction.map.run [f, g]
  | next h => ObjectModel.next h

theorem builds_run (g : Handle) (c : Command) : (c.run g).Builds := by
  cases c with
  | map f => exact (BuiltinFunction.composed_run .map [f, g] fun _ => trivial).builds
  | next h => exact (composed_next (K := []) h).builds

/-- The ledger behind a command that answered `r`. A new map joins the others; a request takes an
item, unless the map had stopped, and stops the map if it fails. -/
def after (L : Ledger) : Command → Except Fault Handle → Ledger
  | map f, .ok h => L.set h (some f)
  | map _, .error _ => L
  | next h, r =>
    match L.maps h, r with
    | some none, _ => L
    | some (some _), .error _ => L.tail.set h none
    | _, _ => L.tail

section

variable {L : Ledger} {h f : Handle}

theorem after_closed (hm : L.maps h = some none) (r : Except Fault Handle) :
    (next h).after L r = L := by
  simp only [after, hm]

theorem after_mapped (hm : L.maps h = some (some f)) (result : Handle) :
    (next h).after L (.ok result) = L.tail.set h (some f) := by
  simp only [after, hm]
  exact (Ledger.set_eq_self (L := L.tail) hm).symm

theorem after_failed (hm : L.maps h = some (some f)) (fault : Fault) :
    (next h).after L (.error fault) = L.tail.set h none := by
  simp only [after, hm]

theorem after_source (hm : L.maps h = none) (r : Except Fault Handle) :
    (next h).after L r = L.tail := by
  simp only [after, hm]

end

/-- The consumer that a command hands an item to, with the item. -/
def delivery (L : Ledger) : Command → Option (Handle × Handle)
  | map _ => none
  | next h =>
    match L.maps h, L.pending with
    | some none, _ => none
    | _, [] => none
    | _, v :: _ => some (h, v)

/-- **The parties behave**: whoever is asked is in play, the source hands out what is pending, and a
function returns. Neither of them asks a map but the one that asked them, or changes the members of
generators, and a function does not ask the source. -/
inductive Fits (n : Nat) (s : State) (g : Handle) (L : Ledger) : Command → Prop where
  | map (f : Handle) : Fits n s g L (.map f)
  | source : s.Yields (n + 2) g L.pending L.IsOpen → Fits n s g L (.next g)
  | opened {h f : Handle} : L.maps h = some (some f) →
    (s.asked h).Yields n g L.pending (fun k => k ≠ h ∧ L.IsOpen k) →
      (∀ v rest u, L.pending = v :: rest →
        (ObjectModel.next g).exec (n + 2) (s.asked h) = .done (.ok v) u →
        (∃ r t, (call f [v]).exec (n + 2) u = .done r t) ∧
          ∀ x ∈ (call f [v]).run.log (n + 2) u, x.Quiet fun k => k = g ∨ (k ≠ h ∧ L.IsOpen k)) →
            Fits n s g L (.next h)
  | closed {h : Handle} : L.maps h = some none → Fits n s g L (.next h)

end Command

end Sharing

open Sharing

/-- **The source and the maps are as the ledger says**, and there is room for the calls of a
request. -/
structure State.Serves (s : State) (g : Handle) (L : Ledger) : Prop where
  requests : s.Requests
  room : s.callDepth + 3 ≤ s.limits.callDepth
  source : s.Owing g L.pending
  maps : ∀ {h : Handle} {x : Option Handle}, L.maps h = some x → s.Stands h (stage g x)
  apart : L.maps g = none

/-! ## 2. What a command does -/

/-- **A request to a map resumes its computation once**, which asks the source, is answered
`answer`, and makes the calls `applied`. -/
structure State.Applies (n : Nat) (s : State) (g h f : Handle) (answer : Except Fault Handle)
    (applied : List (Handle × List Handle × Except Fault Handle)) : Prop where
  once : ∃ outcome back, Generator.history h ((next h).run.log (n + 4) s)
    = [.resumed h (.mapping f g) (s.asked h) outcome, .performed (.advance h) s.enter back]
  calls : ∃ hook, (s.asked h).heap.hook g "__next__" = some (some hook) ∧
    (Coroutine.mapping f g).resume.calls (engine (n + 2)) (s.asked h)
    = (hook, [g], answer) :: applied

namespace Sharing

/-- **The answer to a command.** -/
inductive Answered (n : Nat) (s : State) (g : Handle) (L : Ledger) :
    Command → Except Fault Handle → State → Prop where
  /-- A new map; the source was not asked, and nothing but its `__iter__` was called. -/
  | made {f h hook : Handle} {t : State} : s.heap.get? h = none →
      t.Stands h (.suspended (.mapping f g)) →
      Generator.history g (((Command.map f).run g).run.log (n + 4) s) = [] →
      s.heap.hook g "__iter__" = some (some hook) → ((Command.map f).run g).calls (engine (n + 4)) s
      = [(hook, [g], .ok g)] → Answered n s g L (.map f) (.ok h) t
  /-- The source is resumed once and hands out an item. -/
  | handed {v : Handle} {rest : List Handle} {t : State} : L.pending = v :: rest →
      (∃ c left u back, Generator.history g ((next g).run.log (n + 4) s)
        = [.resumed g c (s.asked g) (.done (.ok ⟨.yielded v, left⟩) u),
          .performed (.advance g) s.enter back]) → Answered n s g L (.next g) (.ok v) t
  /-- A map calls its function on an item, once, and answers as the function did. -/
  | mapped {h f v : Handle} {rest : List Handle} {r : Except Fault Handle} {t : State} :
      L.maps h = some (some f) → L.pending = v :: rest → s.Applies n g h f (.ok v) [(f, [v], r)] →
      Answered n s g L (.next h) r t
  /-- There are no more items. -/
  | ended {fault : Fault} {args : List Handle} {t : State} : L.pending = [] →
      fault.Carries t .stopIteration args → Answered n s g L (.next g) (.error fault) t
  /-- There are none for a map either; its function is not called. -/
  | through {h f : Handle} {fault cause : Fault} {t : State} : L.maps h = some (some f) →
      L.pending = [] → s.Applies n g h f (.error cause) [] → fault.Carries t .stopIteration [] →
      Answered n s g L (.next h) (.error fault) t
  /-- The map had stopped; it is not resumed. -/
  | closed {h : Handle} {fault : Fault} {back : Outcome (Except Fault Handle)} {t : State} :
      L.maps h = some none →
      Generator.history h ((next h).run.log (n + 4) s) = [.performed (.advance h) s.enter back] →
      fault.Carries t .stopIteration [] → Answered n s g L (.next h) (.error fault) t

/-- One command: it returns with its answer, no map was asked but the one that it names, and the
ledger is true again. -/
structure Exchange (n : Nat) (s : State) (g : Handle) (L : Ledger) (c : Command)
    (r : Except Fault Handle) (t : State) : Prop where
  returns : (c.run g).exec (n + 4) s = .done r t
  answers : Answered n s g L c r t
  idle : ∀ k, L.IsOpen k → c ≠ .next k → Generator.history k ((c.run g).run.log (n + 4) s) = []

end Sharing

namespace State.Serves

variable {keep : Handle → Prop} {s t u : State} {f g h k v : Handle} {rest : List Handle}
  {L L' : Ledger} {n : Nat} {x : Option Handle} (hs : s.Serves g L)

include hs

theorem ne_source (hk : L.maps k = some x) : k ≠ g := by
  rintro rfl
  cases hs.apart.symm.trans hk

theorem callDepth_lt : s.callDepth < s.limits.callDepth := by
  have := hs.room
  omega

/-- What a command leaves of a source and its maps. -/
theorem of_run {c : Command} {r : Except Fault Handle} (hrun : (c.run g).exec (n + 4) s = .done r t)
    (hl : s.Leaves keep t) (hsource : t.Owing g L'.pending)
    (hmaps : ∀ {h : Handle} {x : Option Handle}, L'.maps h = some x → t.Stands h (stage g x))
    (hapart : L'.maps g = none) : t.Serves g L' := by
  refine ⟨hs.requests.of_leaves hl ((c.builds_run g).orderly_done hs.requests.orderly hrun), ?_,
    hsource, hmaps, hapart⟩
  rw [State.depth_of_done hrun, (State.steps_of_done hrun).limits_eq]
  exact hs.room

/-! ## 3. Making a map -/

theorem run_map (f : Handle) (n : Nat) :
    ∃ h t, ((Command.map f).run g).exec (n + 4) s = .done (.ok h) t ∧
      s.Placed (.ofCoroutine (.mapping f g)) h t := by
  obtain ⟨x, hg⟩ := hs.source.stands
  have hiter := hs.requests.run_iter hs.callDepth_lt hg (n + 3)
  obtain ⟨h, t, ht, hplaced⟩ :=
    State.exists_placed hs.requests.orderly.regular.heap (.ofCoroutine (.mapping f g))
  have hmake : (newGenerator (.mapping f g)).run.run (engine (n + 4)) s = .done (.ok h) t := by
    change Outcome.done (Except.ok (s.allocate _).1) (s.allocate _).2 = _
    rw [ht]
  exact ⟨h, t, (Run.run_bind_ok hiter).trans hmake, hplaced⟩

/-- **A new map** asks nobody and calls no function. -/
theorem step_map (f : Handle) :
    ∃ r t, Exchange n s g L (.map f) r t ∧ t.Serves g ((Command.map f).after L r) := by
  obtain ⟨x, hg⟩ := hs.source.stands
  obtain ⟨o, hget, _⟩ := id hg
  have hiter := hs.requests.run_iter hs.callDepth_lt hg (n + 3)
  obtain ⟨h, t, hrun, hplaced⟩ := hs.run_map f n
  have hsilent : ∀ k, Generator.history k (((Command.map f).run g).run.log (n + 4) s) = [] := by
    refine fun k => Generator.history_eq_nil
      (Run.forall_record_bind (hs.requests.untouched_iter hg (n + 3) k) ?_)
    intro _ u _
    exact Program.forall_record_perform rfl rfl fun _ _ => List.forall_mem_nil _
  have hnew : t.Stands h (.suspended (.mapping f g)) := ⟨_, hplaced.found, rfl⟩
  have hleaves : s.Leaves (fun _ => True) t := .of_kept hplaced.kept
  obtain ⟨hook, _, _, hhook, _⟩ := hg.answers hs.requests.orderly hs.requests.iter
  have hcalls : ((Command.map f).run g).calls (engine (n + 4)) s = [(hook, [g], .ok g)] := by
    refine (Run.calls_bind_ok hiter).trans ?_
    rw [Run.calls_iter hhook hiter]
    exact congrArg _ (Run.calls_allocate _ _ s)
  refine ⟨.ok h, t, ⟨hrun, .made hplaced.fresh hnew (hsilent g) hhook hcalls,
    fun k _ _ => hsilent k⟩, ?_⟩
  refine hs.of_run hrun hleaves (hleaves.owing trivial hs.source) (fun hm => ?_) ?_
  · rcases Ledger.set_eq_some.mp hm with ⟨rfl, rfl⟩ | ⟨_, hm⟩
    · exact hnew
    · exact (hs.maps hm).of_kept hplaced.kept
  · exact (Ledger.set_of_ne (hplaced.ne hget)).trans hs.apart

/-! ## 4. Asking the source -/

/-- A request to `h` asks no other map, if its computation does not. -/
theorem idle_next {y : Generator} (hh : s.Stands h y) (hlog : ∀ c, y = .suspended c → ∀ k, L.IsOpen
      k → k ≠ h → ∀ e ∈ c.resume.run.log (n + 2) (s.asked h), Generator.concerns k e.event = false)
    (k : Handle) (hk : L.IsOpen k) (hne : Command.next h ≠ .next k) :
    Generator.history k ((next h).run.log (n + 4) s) = [] := by
  have hkh : k ≠ h := fun h => hne (h ▸ rfl)
  exact Generator.history_eq_nil (hs.requests.untouched_next hh hkh fun c hc => hlog c hc k hk hkh)

/-- The maps in play are none of the source's business. -/
theorem others (hk : L.maps k = some x) : s.Others L.IsOpen g k := by
  refine ⟨hs.ne_source hk, ?_⟩
  cases x with
  | none => exact Or.inr ⟨none, hs.maps hk⟩
  | some f => exact Or.inl ⟨f, hk⟩

theorem step_source (hy : s.Yields (n + 2) g L.pending L.IsOpen) :
    ∃ r t, Exchange n s g L (.next g) r t ∧ t.Serves g ((Command.next g).after L r) := by
  obtain ⟨y, hg⟩ := hs.source.stands
  have hidle := hs.idle_next (n := n) hg (by
    rintro c rfl k hk _ e he
    obtain ⟨_, _, _, _, hlog⟩ := hy c hg
    exact (hlog e he).concerns k hk)
  have hserves : ∀ {r : Except Fault Handle} {t : State}, (next g).exec (n + 4) s = .done r t →
      s.Leaves (s.Others L.IsOpen g) t → t.Owing g L.tail.pending → t.Serves g L.tail := by
    intro r t hrun hl howing
    exact hs.of_run (c := .next g) hrun hl howing
      (fun hm => hl.stands (hs.others hm) (stage_ne_running g _) (hs.maps hm)) hs.apart
  cases hpending : L.pending with
  | nil =>
    rw [hpending] at hy
    obtain ⟨fault, args, t, hrun, hcarries, hl, howing⟩ :=
      hs.requests.ask_end hs.callDepth_lt (hpending ▸ hs.source) hy
    refine ⟨.error fault, t, ⟨hrun, .ended hpending hcarries, hidle⟩,
      Command.after_source hs.apart _ ▸ hserves hrun hl ?_⟩
    rw [Ledger.tail, hpending]
    exact howing
  | cons v rest =>
    rw [hpending] at hy
    obtain ⟨t, hrun, hl, howing⟩ := hs.requests.ask_item hs.callDepth_lt (hpending ▸ hs.source) hy
    have hresumed := hs.requests.history_item hs.callDepth_lt (hpending ▸ hs.source) hy
    refine ⟨.ok v, t, ⟨hrun, .handed hpending hresumed, hidle⟩,
      Command.after_source hs.apart _ ▸ hserves hrun hl ?_⟩
    rw [Ledger.tail, hpending]
    exact howing

/-! ## 5. Asking a map -/

theorem step_closed (hm : L.maps h = some none) :
    ∃ r t, Exchange n s g L (.next h) r t ∧ t.Serves g ((Command.next h).after L r) := by
  have hh : s.Stands h (.stopped none) := hs.maps hm
  obtain ⟨fault, t, hrun, hkept, hcarries⟩ :=
    hs.requests.run_next_stopped hs.callDepth_lt hh (n + 2)
  have hleaves : s.Leaves (fun _ => True) t := .of_kept hkept
  refine ⟨.error fault, t, ⟨hrun, .closed hm (hs.requests.history_next_stopped hs.callDepth_lt hh
    (n + 2)) hcarries, hs.idle_next hh nofun⟩, ?_⟩
  rw [Command.after_closed hm]
  exact hs.of_run (c := .next h) hrun hleaves (hleaves.owing trivial hs.source)
    (fun hm => (hs.maps hm).of_kept hkept) hs.apart

/-- The maps beside `h` are none of the source's business either while `h` asks it. -/
theorem others_asked (hk : L.Beside h k) :
    (s.asked h).Others (fun k => k ≠ h ∧ L.IsOpen k) g k := by
  obtain ⟨hne, x, hx⟩ := hk
  refine ⟨hs.ne_source hx, ?_⟩
  cases x with
  | none => exact Or.inr ⟨none, (hs.maps hx).asked hne⟩
  | some f => exact Or.inl ⟨hne, f, hx⟩

theorem callDepth_asked_lt (h : Handle) : (s.asked h).callDepth < (s.asked h).limits.callDepth := by
  have := hs.room
  rw [callDepth_asked, limits_asked]
  omega

theorem owing_asked (hm : L.maps h = some x) : (s.asked h).Owing g L.pending := by
  have hl : s.Leaves (· = g) (s.asked h) := by
    refine s.leaves_asked ?_
    exact hs.ne_source hm
  exact hl.owing rfl hs.source

/-- **What a request to a map leaves**, if its computation left the other maps alone and the source
with one item less. -/
theorem of_map {r : Except Fault Handle} (hm : L.maps h = some (some f))
    (hrun : (next h).exec (n + 4) s = .done r t) (hinner : (s.asked h).Leaves (L.Beside h) u)
    (hsource : u.Owing g L.tail.pending) (hkept : ∀ {k : Handle} {o : Object},
      (u.leave.setGenerator h (stage g x)).heap.get? k = some o → t.heap.get? k = some o) :
    t.Serves g (L.tail.set h x) := by
  have hne : h ≠ g := hs.ne_source hm
  have hothers : s.Leaves (L.Beside h) t :=
    (hinner.request (fun hh => hh.1 rfl) (stage g x)).trans (.of_kept hkept)
  have hself : t.Stands h (stage g x) :=
    (hinner.stands_request (hs.maps hm) (stage g x)).of_kept hkept
  have howing : t.Owing g L.tail.pending := by
    have hset : u.leave.Leaves (· = g) (u.leave.setGenerator h (stage g x)) := by
      refine u.leave.leaves_setGenerator ?_ _
      exact hne
    exact (u.leaves_leave.trans (hset.trans (.of_kept hkept))).owing rfl hsource
  refine hs.of_run (c := .next h) hrun hothers howing (fun hk => ?_)
    ((Ledger.set_of_ne hne.symm).trans hs.apart)
  rcases Ledger.set_eq_some.mp hk with ⟨rfl, rfl⟩ | ⟨hbeside, hk⟩
  · exact hself
  · exact hothers.stands ⟨hbeside, _, hk⟩ (stage_ne_running g _) (hs.maps hk)

/-- Nobody is asked by the source while a map asks it, but for that map. -/
theorem untouched_source (hm : L.maps h = some x) (hy : (s.asked h).Yields n g L.pending fun k =>
      k ≠ h ∧ L.IsOpen k) (hk : L.IsOpen k) (hne : k ≠ h) :
    ∀ e ∈ (next g).run.log (n + 2) (s.asked h), Generator.concerns k e.event = false := by
  obtain ⟨f, hf⟩ := id hk
  obtain ⟨y, hg⟩ := (hs.owing_asked hm).stands
  refine (hs.requests.asked h).untouched_next hg (hs.ne_source hf) ?_
  rintro c rfl e he
  obtain ⟨_, _, _, _, hlog⟩ := hy c hg
  exact (hlog e he).concerns k ⟨hne, hk⟩

theorem exists_hook (hm : L.maps h = some x) :
    ∃ hook, (s.asked h).heap.hook g "__next__" = some (some hook) := by
  obtain ⟨y, hg⟩ := (hs.owing_asked hm).stands
  obtain ⟨hook, _, _, hhook, _⟩ :=
    hg.answers (hs.requests.asked h).orderly (hs.requests.asked h).next
  exact ⟨hook, hhook⟩

/-- **At the end of the source** a map ends too. -/
theorem step_through (hm : L.maps h = some (some f)) (hpending : L.pending = [])
    (hy : (s.asked h).Yields n g L.pending fun k => k ≠ h ∧ L.IsOpen k) :
    ∃ r t, Exchange n s g L (.next h) r t ∧ t.Serves g ((Command.next h).after L r) := by
  have hh : s.Stands h (.suspended (.mapping f g)) := hs.maps hm
  have hyield := hy
  rw [hpending] at hyield
  obtain ⟨fault', args, u, hnext, hcarries', hl, howing⟩ :=
    (hs.requests.asked h).ask_end (hs.callDepth_asked_lt h) (hpending ▸ hs.owing_asked hm) hyield
  have hstop := hcarries'.isStop
      ((composed_next (K := []) g).builds.orderly_done (hs.requests.asked h).orderly hnext)
  have hcomputed := run_mapping_end (f := f) hnext hstop
  obtain ⟨fault, t, hrun, hkept, hcarries⟩ :=
    hs.requests.run_next_completed hs.callDepth_lt hh hcomputed (by simp)
  obtain ⟨hook, hhook⟩ := hs.exists_hook hm
  have happlies : s.Applies n g h f (.error fault') [] :=
    ⟨⟨_, _, hs.requests.history_next_suspended hs.callDepth_lt hh hcomputed⟩, hook, hhook,
      calls_mapping_end hhook hnext hstop⟩
  have hidle := hs.idle_next (n := n) hh (by
    rintro c ⟨⟩ k hk hkh
    refine untouched_mapping (hs.untouched_source hm hy hk hkh) fun v t hitem => ?_
    cases (Outcome.done.inj ((Run.run_nextItem_of_isStop hnext hstop).symm.trans hitem)).1)
  refine ⟨.error fault, t, ⟨hrun, .through hm hpending happlies hcarries, hidle⟩, ?_⟩
  rw [Command.after_failed hm]
  refine hs.of_map hm hrun (hl.mono fun k hk => hs.others_asked hk) ?_ hkept
  rw [Ledger.tail, hpending]
  exact howing

/-- **An item goes through the function of a map.** -/
theorem step_mapped (hm : L.maps h = some (some f)) (hpending : L.pending = v :: rest)
    (hy : (s.asked h).Yields n g L.pending fun k => k ≠ h ∧ L.IsOpen k) (hf : ∀ u, (next g).exec
      (n + 2) (s.asked h) = .done (.ok v) u → (∃ r t, (call f [v]).exec (n + 2) u = .done r t) ∧
      ∀ x ∈ (call f [v]).run.log (n + 2) u, x.Quiet fun k => k = g ∨ (k ≠ h ∧ L.IsOpen k)) :
    ∃ r t, Exchange n s g L (.next h) r t ∧ t.Serves g ((Command.next h).after L r) := by
  have hh : s.Stands h (.suspended (.mapping f g)) := hs.maps hm
  have hyield := hy
  rw [hpending] at hyield
  obtain ⟨u, hnext, hl, howing⟩ :=
    (hs.requests.asked h).ask_item (hs.callDepth_asked_lt h) (hpending ▸ hs.owing_asked hm) hyield
  obtain ⟨⟨r, w, hcall⟩, hquiet⟩ := hf u hnext
  have hu : u.Orderly :=
    (composed_next (K := []) g).builds.orderly_done (hs.requests.asked h).orderly hnext
  have hdepth : 0 < u.callDepth := State.depth_of_done hnext ▸ Nat.succ_pos _
  have hbehind := leaves_of_log hu.regular hdepth hcall hquiet
  -- the function leaves alone what the source did, and the source
  have hinner : (s.asked h).Leaves (L.Beside h) w := by
    have hfirst : (s.asked h).Leaves (L.Beside h) u := hl.mono fun k hk => hs.others_asked hk
    refine hfirst.trans (hbehind.mono ?_)
    rintro k ⟨hne, x, hx⟩
    cases x with
    | some f => exact Or.inl (Or.inr ⟨hne, f, hx⟩)
    | none =>
      exact Or.inr ⟨none, hfirst.stands ⟨hne, none, hx⟩ (Generator.stopped_ne_running none)
        ((hs.maps hx).asked hne)⟩
  have hsource : w.Owing g L.tail.pending := by
    rw [Ledger.tail, hpending]
    exact hbehind.owing (Or.inl (Or.inl rfl)) howing
  have hcomputed := run_mapping_item hnext hcall
  obtain ⟨hook, hhook⟩ := hs.exists_hook hm
  have happlies : s.Applies n g h f (.ok v) [(f, [v], r)] :=
    ⟨⟨_, _, hs.requests.history_next_suspended hs.callDepth_lt hh hcomputed⟩, hook, hhook,
      calls_mapping_item hhook hnext hcall⟩
  have hidle := hs.idle_next (n := n) hh (by
    rintro c ⟨⟩ k hk hkh
    refine untouched_mapping (hs.untouched_source hm hy hk hkh) fun v' t hitem e he => ?_
    obtain ⟨hv, rfl⟩ := Outcome.done.inj ((run_nextItem_ok hnext).symm.trans hitem)
    cases hv
    exact (hquiet e he).concerns k (Or.inr ⟨hkh, hk⟩))
  cases r with
  | ok result =>
    have hrun := hs.requests.run_next_yielded hs.callDepth_lt hh hcomputed
    refine ⟨.ok result, _, ⟨hrun, .mapped hm hpending happlies, hidle⟩, ?_⟩
    rw [Command.after_mapped hm]
    exact hs.of_map hm hrun hinner hsource fun hget => hget
  | error fault =>
    have hrun := hs.requests.run_next_failed hs.callDepth_lt hh hcomputed
    refine ⟨.error fault, _, ⟨hrun, .mapped hm hpending happlies, hidle⟩, ?_⟩
    rw [Command.after_failed hm]
    exact hs.of_map hm hrun hinner hsource fun hget => hget

/-- **One command** answers as it should and keeps the ledger true. -/
theorem step {c : Command} (hc : c.Fits n s g L) :
    ∃ r t, Exchange n s g L c r t ∧ t.Serves g (c.after L r) := by
  cases hc with
  | map f => exact hs.step_map f
  | source hy => exact hs.step_source hy
  | closed hm => exact hs.step_closed hm
  | opened hm hy hf =>
    cases hpending : L.pending with
    | nil => exact hs.step_through hm hpending hy
    | cons v rest => exact hs.step_mapped hm hpending hy fun u hnext => hf v rest u hpending hnext

end State.Serves

/-! ## 6. Any number of commands -/

namespace Sharing

/-- Commands whose parties behave, each in the state in which it comes. -/
def Admissible (n : Nat) (g : Handle) : State → Ledger → List Command → Prop
  | _, _, [] => True
  | s, L, c :: rest => c.Fits n s g L ∧ ∀ r t, (c.run g).exec (n + 4) s = .done r t →
      Admissible n g t (c.after L r) rest

/-- **A run of commands**, with the items that were handed out, each with its consumer, in the order
of the commands. -/
inductive Shares (n : Nat) (g : Handle) :
    State → Ledger → List Command → List (Handle × Handle) → State → Ledger → Prop where
  | done (s : State) (L : Ledger) : Shares n g s L [] [] s L
  | step {s t u : State} {L L' : Ledger} {c : Command} {rest : List Command}
      {r : Except Fault Handle} {deliveries : List (Handle × Handle)} : Exchange n s g L c r t →
      Shares n g t (c.after L r) rest deliveries u L' →
      Shares n g s L (c :: rest) ((c.delivery L).toList ++ deliveries) u L'

end Sharing

section

variable {s t : State} {g h : Handle} {L : Ledger} {c : Command} {r : Except Fault Handle} {n : Nat}

/-- **Nothing is lost and nothing is handed out twice**: what is left behind a command and what it
handed out are what was left before. -/
theorem Sharing.Answered.pending_eq (ha : Answered n s g L c r t) (hg : L.maps g = none) :
    L.pending = (c.delivery L).toList.map Prod.snd ++ (c.after L r).pending := by
  cases ha with
  | made => rfl
  | handed hpending => simp [Command.delivery, Command.after, Ledger.tail, hg, hpending]
  | @mapped h f v rest r t hm hpending =>
    cases r with
    | ok => simp [Command.delivery, Command.after, Ledger.tail, hm, hpending]
    | error => simp [Command.delivery, Command.after, Ledger.tail, Ledger.set, hm, hpending]
  | ended hpending => simp [Command.delivery, Command.after, Ledger.tail, hg, hpending]
  | through hm hpending =>
    simp [Command.delivery, Command.after, Ledger.tail, Ledger.set, hm, hpending]
  | closed hm => simp [Command.delivery, Command.after, hm]

/-- Without items left, a request is a `StopIteration`. -/
theorem Sharing.Answered.stop (ha : Answered n s g L (.next h) r t) (hpending : L.pending = []) :
    ∃ fault args, r = .error fault ∧ fault.Carries t .stopIteration args := by
  cases ha with
  | handed h => cases hpending.symm.trans h
  | mapped _ h => cases hpending.symm.trans h
  | ended _ hcarries => exact ⟨_, _, rfl, hcarries⟩
  | through _ _ _ hcarries => exact ⟨_, _, rfl, hcarries⟩
  | closed _ _ hcarries => exact ⟨_, _, rfl, hcarries⟩

/-- **Every finite sequence of commands** keeps the ledger true. -/
theorem State.Serves.shares (hs : s.Serves g L) (commands : List Command)
    (hc : Admissible n g s L commands) :
    ∃ deliveries u left, Shares n g s L commands deliveries u left ∧ u.Serves g left ∧
      L.pending = deliveries.map Prod.snd ++ left.pending := by
  induction commands generalizing s L with
  | nil => exact ⟨[], s, L, .done s L, hs, rfl⟩
  | cons c rest ih =>
    obtain ⟨r, t, hexchange, ht⟩ := hs.step hc.1
    obtain ⟨deliveries, u, left, hshares, hu, hpending⟩ := ih ht (hc.2 r t hexchange.returns)
    refine ⟨_, u, left, .step hexchange hshares, hu, ?_⟩
    rw [List.map_append, List.append_assoc, ← hpending]
    exact hexchange.answers.pending_eq hs.apart

/-- **A shared source loses and duplicates nothing.** Where the members of generators are the
builtin ones and three more calls are possible, any number of maps over a generator, and the
generator itself, are asked in any order. Every request returns; the items that were handed out, in
the order of the requests, and those that are left are the items of the source. A map that gets an
item calls its function once, on this item, and answers as the function did; if that is a fault, the
map has stopped and the item is gone, but no other. A map that is not asked is not resumed. Behind
the last item every request is a `StopIteration`. -/
theorem State.shared_source {x : Coroutine} (hs : s.Reachable)
    (hiter : Bootstrap.Offers s.heap BuiltinType.generator.handle "__iter__"
      (.function (Member.generator .iter).qualifiedName (.member (.generator .iter))))
    (hnext : Bootstrap.Offers s.heap BuiltinType.generator.handle "__next__"
      (.function (Member.generator .next).qualifiedName (.member (.generator .next))))
    (hroom : s.callDepth + 3 ≤ s.limits.callDepth) (hg : s.Stands g (.suspended x))
    (items : List Handle) (commands : List Command)
    (hc : Admissible n g s (.start items) commands) :
    (∃ deliveries u left, Shares n g s (.start items) commands deliveries u left ∧ u.Serves g left ∧
      items = deliveries.map Prod.snd ++ left.pending) ∧
    (∀ s L h r t, Exchange n s g L (.next h) r t → L.pending = [] →
      ∃ fault args, r = .error fault ∧ fault.Carries t .stopIteration args) := by
  have hserves : s.Serves g (.start items) :=
    ⟨⟨hs.orderly, hiter, hnext⟩, hroom, Or.inl ⟨x, hg⟩, nofun, rfl⟩
  exact ⟨hserves.shares commands hc, fun _ _ _ _ _ he hpending => he.answers.stop hpending⟩

/-! ## 7. A script as the source -/

/-- An entry that only looks asks nobody. -/
theorem Entry.Quiet.of_looks {x : Entry} {keep : Handle → Prop} (h : x.looks = true) :
    x.Quiet keep := by
  unfold Entry.looks at h
  split at h
  case h_4 => cases h
  all_goals
    rename_i hevent
    refine ⟨?_, fun _ _ => ?_⟩
    · rw [Entry.Spares, hevent]
      trivial
    · rw [hevent]
      rfl

deriving instance DecidableEq for Resumption

/-- Whether a generator that is asked now only looks and hands out `v`. -/
def Payload.hands (n : Nat) (s : State) (g v : Handle) : Payload → Bool
  | .generator (.suspended c) =>
    (c.resume.run.run (engine n) (s.asked g)).value?.any (·.resumption = .yielded v) &&
      (c.resume.run.log n (s.asked g)).all Entry.looks
  | _ => false

theorem State.yields_of_hands {o : Object} {rest : List Handle} {keep : Handle → Prop}
    (hget : s.heap.get? g = some o) (hhands : o.payload.hands n s g v = true) :
    (∃ c, s.Stands g (.suspended c)) ∧ s.Yields n g (v :: rest) keep := by
  unfold Payload.hands at hhands
  split at hhands
  case h_2 => cases hhands
  case h_1 c hp =>
    simp only [Bool.and_eq_true, Option.any_eq_true, decide_eq_true_eq, List.all_eq_true] at hhands
    obtain ⟨⟨r, hr, hyielded⟩, hlooks⟩ := hhands
    refine ⟨⟨c, o, hget, hp⟩, fun c' hc => ?_⟩
    cases hc.unique ⟨o, hget, hp⟩
    exact ⟨r, _, Outcome.eq_ok hr, hyielded ▸ .item, fun x hx => .of_looks (hlooks x hx)⟩

/-- What comes of a map that is made behind the first item. -/
def mapped (g : Handle) (s : State) (f : Handle) : Outcome (Except Fault Handle) :=
  ((Command.map f).run g).exec 4 ((next g).exec 4 s).state

/-- A script hands one of its two items to its first consumer and one to a map. -/
theorem State.shared_source_of_script :
    ∃ (s : State) (g f h : Handle), s.Reachable ∧
      Admissible 0 g s (.start [.true, .none]) [.next g, .map f, .next h] ∧
      ∃ deliveries u left,
        Shares 0 g s (.start [.true, .none]) [.next g, .map f, .next h] deliveries u left ∧
        u.Serves g left ∧ [.true, .none] = deliveries.map Prod.snd ++ left.pending := by
  obtain ⟨_, s, hs, g, -, hiter, hnext, hroom, ⟨o, hget, hfirst⟩, _, -, f, rfl, h, hmap,
      ⟨o', hget', hsecond⟩, hcall, hlooks⟩ :=
    Session.exists_reached (fun _ => True) .standard 0
      [.setLocal "g" (.generator [.yield (.bool true), .yield .null] [] .completes)]
      (fun frame s => ∃ g ∈ frame.locals.get? "g",
        Bootstrap.OffersMember s.heap (.generator .iter) ∧
        Bootstrap.OffersMember s.heap (.generator .next) ∧ s.callDepth + 3 ≤ s.limits.callDepth ∧
        (∃ o ∈ s.heap.get? g, o.payload.hands 2 s g .true = true) ∧
        ∃ hook ∈ s.heap.hook g "__iter__", ∃ f ∈ hook, ∃ h ∈ (mapped g s f).value?,
          (∃ o ∈ ((mapped g s f).state.asked h).heap.get? g,
            o.payload.hands 0 ((mapped g s f).state.asked h) g .none = true) ∧
          ((call f [.none]).exec 2
            ((next g).exec 2 ((mapped g s f).state.asked h)).state).value?.isSome = true ∧
          ∀ x ∈ (call f [.none]).run.log 2 ((next g).exec 2 ((mapped g s f).state.asked h)).state,
            x.looks = true) (by decide +kernel)
  obtain ⟨⟨c, hg⟩, hyield⟩ := State.yields_of_hands hget hfirst
  have hc : Admissible 0 g s (.start [.true, .none]) [.next g, .map f, .next h] := by
    -- the states behind the commands are those that were evaluated
    refine ⟨.source hyield, fun r t hrun => ?_⟩
    obtain rfl : ((next g).exec 4 s).state = t := congrArg Outcome.state hrun
    rw [Command.after_source rfl]
    refine ⟨.map f, fun r t hrun => ?_⟩
    obtain ⟨rfl, rfl⟩ : .ok h = r ∧ (mapped g s f).state = t :=
      Outcome.done.inj ((Outcome.eq_ok hmap).symm.trans hrun)
    refine ⟨.opened (Ledger.set_eq_some.mpr (Or.inl ⟨rfl, rfl⟩))
      (State.yields_of_hands hget' hsecond).2
      fun v rest u hpending hnext => ?_, fun _ _ _ => trivial⟩
    obtain ⟨rfl, -⟩ : Handle.none = v ∧ [] = rest := List.cons.inj hpending
    obtain rfl : ((next g).exec 2 ((mapped g s f).state.asked h)).state = u :=
      congrArg Outcome.state hnext
    obtain ⟨r, hr⟩ := Option.isSome_iff_exists.mp hcall
    exact ⟨⟨_, _, Outcome.eq_ok hr⟩, fun x hx => .of_looks (hlooks x hx)⟩
  exact ⟨s, g, f, h, hs, hc, (State.shared_source hs hiter hnext hroom hg [.true, .none] _ hc).1⟩

end

end ObjectModel
