import ObjectModel.Object
import Mathlib.Data.List.Forall2

/-!
# Objects that match

Two objects match if they are the same up to the handles that they store. Handles are compared by
two relations: `R` relates those that an object refers to, `L` those that it only mentions, which
are the names of a suspended script.

* `Object.Matches.imp_of_mem`, `Object.Matches.flip`, `Object.Matches.eq` -- larger relations,
  swapped sides, and equality.
-/

namespace ObjectModel

open List (Forall₂)

variable {α β : Type} {R S L : α → α → Prop}
variable {p p' : Payload} {c c' : Coroutine} {frame frame' : Script.Frame}

/-! ## 1. Options and lists -/

theorem rel_bind {P : β → β → Prop} {x y : Option α} {f g : α → Option β} (hx : Option.Rel R x y)
    (hf : ∀ a b, R a b → Option.Rel P (f a) (g b)) : Option.Rel P (x >>= f) (y >>= g) := by
  cases hx with
  | none => exact .none
  | some h => exact hf _ _ h

theorem rel_eq_iff {x y : Option α} : Option.Rel Eq x y ↔ x = y := by
  constructor
  · intro h
    cases h with
    | none => rfl
    | some h => rw [h]
  · rintro rfl
    cases x with
    | none => exact .none
    | some a => exact .some rfl

theorem rel_mono {x y : Option α} (h : ∀ a b, R a b → S a b) (hx : Option.Rel R x y) :
    Option.Rel S x y := by
  cases hx with
  | none => exact .none
  | some hr => exact .some (h _ _ hr)

theorem rel_flip {x y : Option α} (hx : Option.Rel R x y) : Option.Rel (flip R) y x := by
  cases hx with
  | none => exact .none
  | some hr => exact .some hr

theorem rel_toList {x y : Option α} (hx : Option.Rel R x y) : Forall₂ R x.toList y.toList := by
  cases hx with
  | none => exact .nil
  | some hr => exact .cons hr .nil

theorem rel_getD {x y : Option α} {a b : α} (hx : Option.Rel R x y) (hr : R a b) :
    R (x.getD a) (y.getD b) := by
  cases hx with
  | none => exact hr
  | some h => exact h

theorem rel_getElem? {β : Type} {R : α → β → Prop} {l : List α} {l' : List β} (h : Forall₂ R l l')
    (i : Nat) : Option.Rel R l[i]? l'[i]? := by
  induction h generalizing i with
  | nil => exact .none
  | cons hr _ ih =>
    cases i with
    | zero => exact .some hr
    | succ i => exact ih i

theorem rel_head? {l l' : List α} (h : Forall₂ R l l') : Option.Rel R l.head? l'.head? := by
  cases h with
  | nil => exact .none
  | cons hr _ => exact .some hr

theorem rel_modify {l l' : List α} {f g : α → α} (h : Forall₂ R l l')
    (hf : ∀ a b, R a b → R (f a) (g b)) (i : Nat) : Forall₂ R (l.modify i f) (l'.modify i g) := by
  induction h generalizing i with
  | nil =>
    rw [List.modify_nil, List.modify_nil]
    exact .nil
  | cons hr hs ih =>
    cases i with
    | zero =>
      rw [List.modify_zero_cons, List.modify_zero_cons]
      exact .cons (hf _ _ hr) hs
    | succ i =>
      rw [List.modify_succ_cons, List.modify_succ_cons]
      exact .cons hr (ih i)

theorem rel_eraseIdx {l l' : List α} (h : Forall₂ R l l') (i : Nat) :
    Forall₂ R (l.eraseIdx i) (l'.eraseIdx i) := by
  rw [List.eraseIdx_eq_take_drop_succ, List.eraseIdx_eq_take_drop_succ]
  exact List.rel_append (List.forall₂_take i h) (List.forall₂_drop (i + 1) h)

theorem rel_mapM {P : β → β → Prop} {l l' : List α} {f g : α → Option β} (h : Forall₂ R l l')
    (hf : ∀ a b, R a b → Option.Rel P (f a) (g b)) :
    Option.Rel (Forall₂ P) (l.mapM f) (l'.mapM g) := by
  induction h with
  | nil => exact .some .nil
  | cons hr _ ih =>
    rw [List.mapM_cons, List.mapM_cons]
    exact rel_bind (hf _ _ hr) fun _ _ hb => rel_bind ih fun _ _ hbs => .some (.cons hb hbs)

theorem forall₂_eq {l l' : List α} (h : Forall₂ R l l') (hr : ∀ a b, R a b → a = b) : l = l' := by
  have he := h.imp hr
  rwa [List.forall₂_eq_eq_eq] at he

/-! ## 2. Maps -/

/-- Entries with the same key and related values. -/
def SameKey (R : α → α → Prop) (e e' : String × α) : Prop := e.1 = e'.1 ∧ R e.2 e'.2

/-- The same keys in the same order, with related values. -/
structure OrderedMap.Matches (R : α → α → Prop) (m m' : OrderedMap α) : Prop where
  entries : Forall₂ (SameKey R) m.toList m'.toList
  index : m.index = m'.index

namespace OrderedMap.Matches

variable {m m' : OrderedMap α} {v v' : α}

theorem empty : (OrderedMap.empty : OrderedMap α).Matches R .empty := ⟨.nil, rfl⟩

theorem size_eq (h : m.Matches R m') : m.size = m'.size := h.entries.length_eq

theorem keys_eq (h : m.Matches R m') : m.keys = m'.keys :=
  forall₂_eq (List.rel_map (fun _ _ he => he.1) h.entries) fun _ _ he => he

theorem values (h : m.Matches R m') : Forall₂ R m.values m'.values :=
  List.rel_map (fun _ _ he => he.2) h.entries

/-- **Matching maps answer alike.** -/
theorem get? (h : m.Matches R m') (key : String) : Option.Rel R (m.get? key) (m'.get? key) := by
  unfold OrderedMap.get?
  rw [h.index]
  cases m'.index[key]? with
  | none => exact .none
  | some position =>
    have hp : Option.Rel (SameKey R) m.entries[position]? m'.entries[position]? := by
      rw [← Array.getElem?_toList, ← Array.getElem?_toList]
      exact rel_getElem? h.entries position
    exact rel_bind (R := SameKey R) hp fun _ _ he => .some he.2

theorem insert (h : m.Matches R m') (key : String) (hv : R v v') :
    (m.insert key v).Matches R (m'.insert key v') := by
  unfold OrderedMap.insert
  rw [h.index]
  cases m'.index[key]? with
  | none =>
    refine ⟨?_, ?_⟩
    · unfold toList
      rw [Array.toList_push, Array.toList_push]
      exact List.rel_append h.entries (.cons ⟨rfl, hv⟩ .nil)
    · have hs : m.entries.size = m'.entries.size := h.size_eq
      rw [hs]
  | some position =>
    have hset : ∀ e e', SameKey R e e' → SameKey R (e.1, v) (e'.1, v') := fun _ _ he => ⟨he.1, hv⟩
    refine ⟨?_, rfl⟩
    unfold toList
    rw [Array.toList_modify, Array.toList_modify]
    exact rel_modify h.entries hset position

theorem toList_eraseIdxIfInBounds (entries : Array (String × α)) (position : Nat) :
    (entries.eraseIdxIfInBounds position).toList = entries.toList.eraseIdx position := by
  unfold Array.eraseIdxIfInBounds
  split
  · rw [Array.toList_eraseIdx]
  · rename_i hge
    rw [List.eraseIdx_of_length_le (by rw [Array.length_toList]; omega)]

/-- The positions are those of the keys, whatever stands under them. -/
theorem renumber_eq {entries entries' : Array (String × α)}
    (h : Forall₂ (SameKey R) entries.toList entries'.toList) (start : Nat)
    (index : Std.TreeMap String Nat) :
    renumber entries start index = renumber entries' start index := by
  have hkeys : ∀ l : List (String × α), l.zipIdx.map (fun entry => (entry.1.1, entry.2))
      = (l.map (·.1)).zipIdx := by
    intro l
    rw [List.zipIdx_map]
    rfl
  have hfold : ∀ l : List (String × α),
      (l.zipIdx.drop start).foldl (fun positions entry => positions.insert entry.1.1 entry.2) index
        = ((l.map (·.1)).zipIdx.drop start).foldl
          (fun (positions : Std.TreeMap String Nat) entry => positions.insert entry.1 entry.2)
          index := by
    intro l
    rw [← hkeys, ← List.map_drop, List.foldl_map]
  have heq : entries.toList.map (·.1) = entries'.toList.map (·.1) :=
    forall₂_eq (List.rel_map (fun _ _ he => he.1) h) fun _ _ he => he
  unfold renumber
  rw [hfold, hfold, heq]

theorem erase (h : m.Matches R m') (key : String) : (m.erase key).Matches R (m'.erase key) := by
  unfold OrderedMap.erase
  rw [h.index]
  cases m'.index[key]? with
  | none => exact h
  | some position =>
    have hrest : Forall₂ (SameKey R) (m.entries.eraseIdxIfInBounds position).toList
        (m'.entries.eraseIdxIfInBounds position).toList := by
      rw [toList_eraseIdxIfInBounds, toList_eraseIdxIfInBounds]
      exact rel_eraseIdx h.entries position
    exact ⟨hrest, renumber_eq hrest _ _⟩

theorem ofList {pairs pairs' : List (String × α)} (h : Forall₂ (SameKey R) pairs pairs') :
    (OrderedMap.ofList pairs).Matches R (OrderedMap.ofList pairs') :=
  List.rel_foldl (P := OrderedMap.Matches R) (fun _ _ hm _ _ he => he.1 ▸ hm.insert _ he.2) empty h

theorem mono (hr : ∀ a b, R a b → S a b) (h : m.Matches R m') : m.Matches S m' :=
  ⟨h.entries.imp fun _ _ he => ⟨he.1, hr _ _ he.2⟩, h.index⟩

theorem flip (h : m.Matches R m') : m'.Matches (flip R) m :=
  ⟨(h.entries.imp fun _ _ he => ⟨he.1.symm, he.2⟩).flip, h.index.symm⟩

theorem refl (hr : ∀ a ∈ m.values, R a a) : m.Matches R m :=
  ⟨List.forall₂_same.mpr fun _ he => ⟨rfl, hr _ (List.mem_map_of_mem he)⟩, rfl⟩

theorem eq (hr : ∀ a b, R a b → a = b) (h : m.Matches R m') : m = m' := by
  have hentries : m.toList = m'.toList :=
    forall₂_eq h.entries fun _ _ he => Prod.ext he.1 (hr _ _ he.2)
  have hindex := h.index
  cases m with
  | mk entries index =>
    cases m' with
    | mk entries' index' =>
      cases Array.toList_inj.mp hentries
      cases hindex
      rfl

end OrderedMap.Matches

/-! ## 3. Frames, computations and payloads -/

section

variable (R L : Handle → Handle → Prop)

/-- Related arguments, and the same names with related values. -/
structure Script.Frame.Matches (frame frame' : Script.Frame) : Prop where
  args : Forall₂ L frame.args frame'.args
  locals : frame.locals.Matches L frame'.locals

inductive Coroutine.Matches : Coroutine → Coroutine → Prop where
  | items {held held' pending pending' : List Handle} {covered covered'} :
      Forall₂ R held held' → Forall₂ R pending pending' →
      Matches (.items held pending covered) (.items held' pending' covered')
  | entries {held held' : List Handle} {pending pending' : List (String × Handle)}
      {covered covered'} : Forall₂ R held held' → Forall₂ (SameKey R) pending pending' →
      Matches (.entries held pending covered) (.entries held' pending' covered')
  | characters (pending : List Char) : Matches (.characters pending) (.characters pending)
  | progression (bounds : Progression) (next : Option Int64) :
      Matches (.progression bounds next) (.progression bounds next)
  | mapping {function function' iterator iterator' : Handle} : R function function' →
      R iterator iterator' → Matches (.mapping function iterator) (.mapping function' iterator')
  | callUntil {callable callable' sentinel sentinel' : Handle} : R callable callable' →
      R sentinel sentinel' → Matches (.callUntil callable sentinel) (.callUntil callable' sentinel')
  | script (steps : List (Script.Step Script.Expr)) (ending : Script.Ending)
      {held held' : List Handle} (position : Nat) {frame frame' : Script.Frame} :
      Forall₂ R held held' → frame.Matches L frame' → Matches
      (.script steps ending held position frame) (.script steps ending held' position frame')

inductive Generator.Matches : Generator → Generator → Prop where
  | suspended {c c' : Coroutine} : c.Matches R L c' → Matches (.suspended c) (.suspended c')
  | running : Matches .running .running
  | stopped {result result' : Option Handle} : Option.Rel R result result' →
      Matches (.stopped result) (.stopped result')

inductive Payload.Matches : Payload → Payload → Prop where
  | type (name : String) {base base' : Option Handle} : Option.Rel R base base' →
      Matches (.type name base) (.type name base')
  | plain : Matches .plain .plain
  | none : Matches .none .none
  | notImplemented : Matches .notImplemented .notImplemented
  | bool (b : Bool) : Matches (.bool b) (.bool b)
  | int (n : Int64) : Matches (.int n) (.int n)
  | str (text : String) : Matches (.str text) (.str text)
  | tuple {items items' : List Handle} : Forall₂ R items items' →
      Matches (.tuple items) (.tuple items')
  | dict {entries entries' : OrderedMap Handle} : entries.Matches R entries' →
      Matches (.dict entries) (.dict entries')
  | function (name : String) (code : Code) : Matches (.function name code) (.function name code)
  | bound {receiver receiver' function function' : Handle} : R receiver receiver' →
      R function function' → Matches (.bound receiver function) (.bound receiver' function')
  | generator {g g' : Generator} : g.Matches R L g' → Matches (.generator g) (.generator g')

structure Object.Matches (o o' : Object) : Prop where
  payload : o.payload.Matches R L o'.payload
  type : R o.type o'.type
  attributes : o.attributes.Matches R o'.attributes

end

variable {R S L L' : Handle → Handle → Prop}

/-- An object matches itself as far as what it refers to does. Generators keep more than they refer
to. -/
theorem Payload.Matches.refl (hr : ∀ r ∈ p.references, R r r) (hg : ∀ g, p ≠ .generator g) :
    p.Matches R L p := by
  cases p with
  | type name base =>
    refine .type name ?_
    cases base with
    | none => exact .none
    | some base => exact .some (hr base (by simp [Payload.references]))
  | tuple items => exact .tuple (List.forall₂_same.mpr hr)
  | dict entries => exact .dict (.refl hr)
  | bound receiver function =>
    exact .bound (hr receiver (by simp [Payload.references]))
      (hr function (by simp [Payload.references]))
  | generator g => exact absurd rfl (hg g)
  | _ => constructor

theorem Object.Matches.refl {o : Object} (hr : ∀ r ∈ o.references, R r r)
    (hg : ∀ g, o.payload ≠ .generator g) : o.Matches R L o where
  payload := .refl (fun r hm => hr r (List.mem_append_right _ hm)) hg
  type := hr o.type (List.mem_append_left _ List.mem_cons_self)
  attributes := .refl fun r hm => hr r (List.mem_append_left _ (List.mem_cons_of_mem _ hm))

/-! ## 4. Relations of what is referred to -/

theorem forall₂_imp_of_mem {l l' : List Handle} (h : Forall₂ R l l')
    (hr : ∀ a ∈ l, ∀ b, R a b → S a b) : Forall₂ S l l' :=
  ((List.forall₂_and_left l l').mpr ⟨hr, h⟩).imp fun _ b hab => hab.1 b hab.2

theorem sameKey_imp_of_mem {l l' : List (String × Handle)} (h : Forall₂ (SameKey R) l l')
    (hr : ∀ a ∈ l.map (·.2), ∀ b, R a b → S a b) : Forall₂ (SameKey S) l l' := by
  have hall := (List.forall₂_and_left (p := fun e : String × Handle => ∀ b, R e.2 b →
      S e.2 b) l l').mpr ⟨fun e he => hr e.2 (List.mem_map_of_mem he), h⟩
  exact hall.imp fun _ b he => ⟨he.2.1, he.1 _ he.2.2⟩

theorem OrderedMap.Matches.imp_of_mem {m m' : OrderedMap Handle} (h : m.Matches R m')
    (hr : ∀ a ∈ m.values, ∀ b, R a b → S a b) : m.Matches S m' :=
  ⟨sameKey_imp_of_mem h.entries hr, h.index⟩

theorem rel_imp_of_mem {x y : Option Handle} (h : Option.Rel R x y)
    (hr : ∀ a ∈ x.toList, ∀ b, R a b → S a b) : Option.Rel S x y := by
  cases h with
  | none => exact .none
  | some h => exact .some (hr _ List.mem_cons_self _ h)

section

variable (hl : ∀ a b, L a b → L' a b)

include hl

theorem Script.Frame.Matches.mono (h : frame.Matches L frame') : frame.Matches L' frame' :=
  ⟨h.args.imp hl, h.locals.mono hl⟩

/-- What a generator is about to give out is among what it holds. -/
theorem Coroutine.Matches.imp_of_mem (h : c.Matches R L c')
    (hr : ∀ a ∈ c.held, ∀ b, R a b → S a b) : c.Matches S L' c' := by
  cases h with
  | @items _ _ _ _ covered _ hh hp =>
    exact .items (forall₂_imp_of_mem hh hr) (forall₂_imp_of_mem hp fun a ha => hr a (covered ha))
  | @entries _ _ _ _ covered _ hh hp =>
    exact .entries (forall₂_imp_of_mem hh hr) (sameKey_imp_of_mem hp fun a ha => hr a (covered ha))
  | characters pending => exact .characters pending
  | progression bounds next => exact .progression bounds next
  | mapping hf hi =>
    exact .mapping (hr _ List.mem_cons_self _ hf)
      (hr _ (List.mem_cons_of_mem _ List.mem_cons_self) _ hi)
  | callUntil hc hs =>
    exact .callUntil (hr _ List.mem_cons_self _ hc)
      (hr _ (List.mem_cons_of_mem _ List.mem_cons_self) _ hs)
  | script steps ending position hh hf =>
    exact .script steps ending position (forall₂_imp_of_mem hh hr) (hf.mono hl)

theorem Payload.Matches.imp_of_mem (h : p.Matches R L p')
    (hr : ∀ a ∈ p.references, ∀ b, R a b → S a b) : p.Matches S L' p' := by
  cases h with
  | type name hb => exact .type name (rel_imp_of_mem hb hr)
  | tuple hi => exact .tuple (forall₂_imp_of_mem hi hr)
  | dict he => exact .dict (he.imp_of_mem hr)
  | bound hv hf =>
    exact .bound (hr _ List.mem_cons_self _ hv)
      (hr _ (List.mem_cons_of_mem _ List.mem_cons_self) _ hf)
  | generator hg =>
    cases hg with
    | suspended hc => exact .generator (.suspended (hc.imp_of_mem hl hr))
    | running => exact .generator .running
    | stopped hv => exact .generator (.stopped (rel_imp_of_mem hv hr))
  | _ => constructor

/-- **Matching objects match in another relation** that holds of what they refer to. -/
theorem Object.Matches.imp_of_mem {o o' : Object} (h : o.Matches R L o')
    (hr : ∀ a ∈ o.references, ∀ b, R a b → S a b) : o.Matches S L' o' where
  payload := h.payload.imp_of_mem hl fun a ha => hr a (List.mem_append_right _ ha)
  type := hr _ (List.mem_append_left _ List.mem_cons_self) _ h.type
  attributes :=
    h.attributes.imp_of_mem fun a ha => hr a (List.mem_append_left _ (List.mem_cons_of_mem _ ha))

end

theorem Object.Matches.mono (hr : ∀ a b, R a b → S a b) (hl : ∀ a b, L a b → L' a b) {o o' : Object}
    (h : o.Matches R L o') : o.Matches S L' o' :=
  h.imp_of_mem hl fun a _ => hr a

/-- What is said of objects by their parts can be said of matching ones. -/
@[elab_as_elim]
theorem Object.Matches.elim {P : Object → Object → Prop} {o o' : Object} (h : o.Matches R L o')
    (hP : ∀ {p p' : Payload} {t t' : Handle} {a a' : OrderedMap Handle}, p.Matches R L p' →
      R t t' → a.Matches R a' → P ⟨p, t, a⟩ ⟨p', t', a'⟩) : P o o' :=
  hP h.payload h.type h.attributes

/-! ## 5. Swapped sides -/

theorem Script.Frame.Matches.flip (h : frame.Matches L frame') : frame'.Matches (flip L) frame :=
  ⟨h.args.flip, h.locals.flip⟩

theorem Coroutine.Matches.flip (h : c.Matches R L c') : c'.Matches (flip R) (flip L) c := by
  cases h with
  | items hh hp => exact .items hh.flip hp.flip
  | entries hh hp => exact .entries hh.flip (hp.imp fun _ _ he => ⟨he.1.symm, he.2⟩).flip
  | characters pending => exact .characters pending
  | progression bounds next => exact .progression bounds next
  | mapping hf hi => exact .mapping hf hi
  | callUntil hc hs => exact .callUntil hc hs
  | script steps ending position hh hf => exact .script steps ending position hh.flip hf.flip

theorem Generator.Matches.flip {g g' : Generator} (h : g.Matches R L g') :
    g'.Matches (flip R) (flip L) g := by
  cases h with
  | suspended hc => exact .suspended hc.flip
  | running => exact .running
  | stopped hv => exact .stopped (rel_flip hv)

theorem Payload.Matches.flip (h : p.Matches R L p') : p'.Matches (flip R) (flip L) p := by
  cases h with
  | type name hb => exact .type name (rel_flip hb)
  | tuple hi => exact .tuple hi.flip
  | dict he => exact .dict he.flip
  | bound hv hf => exact .bound hv hf
  | generator hg => exact .generator hg.flip
  | _ => constructor

theorem Object.Matches.flip {o o' : Object} (h : o.Matches R L o') :
    o'.Matches (flip R) (flip L) o :=
  ⟨h.payload.flip, h.type, h.attributes.flip⟩

/-! ## 6. Equality -/

section

variable (hr : ∀ a b, R a b → a = b) (hl : ∀ a b, L a b → a = b)

include hr

theorem eq_of_rel {x y : Option Handle} (h : Option.Rel R x y) : x = y :=
  rel_eq_iff.mp (rel_mono hr h)

include hl

theorem Coroutine.Matches.eq (h : c.Matches R L c') : c = c' := by
  cases h with
  | items hh hp =>
    cases forall₂_eq hh hr
    cases forall₂_eq hp hr
    rfl
  | entries hh hp =>
    cases forall₂_eq hh hr
    cases forall₂_eq hp fun _ _ he => Prod.ext he.1 (hr _ _ he.2)
    rfl
  | characters pending => rfl
  | progression bounds next => rfl
  | mapping hf hi => rw [hr _ _ hf, hr _ _ hi]
  | callUntil hc hs => rw [hr _ _ hc, hr _ _ hs]
  | @script steps ending held held' position frame frame' hh hf =>
    have hframe : frame = frame' := by
      cases frame with
      | mk args locals =>
        cases frame' with
        | mk args' locals' =>
          cases forall₂_eq hf.args hl
          cases hf.locals.eq hl
          rfl
    rw [forall₂_eq hh hr, hframe]

theorem Payload.Matches.eq (h : p.Matches R L p') : p = p' := by
  cases h with
  | type name hb => rw [eq_of_rel hr hb]
  | tuple hi => rw [forall₂_eq hi hr]
  | dict he => rw [he.eq hr]
  | bound hv hf => rw [hr _ _ hv, hr _ _ hf]
  | generator hg =>
    cases hg with
    | suspended hc => rw [hc.eq hr hl]
    | running => rfl
    | stopped hv => rw [eq_of_rel hr hv]
  | _ => rfl

theorem Object.Matches.eq {o o' : Object} (h : o.Matches R L o') : o = o' :=
  h.elim fun hp ht ha => by rw [hp.eq hr hl, hr _ _ ht, ha.eq hr]

end

/-! ## 7. What matching objects refer to -/

theorem Coroutine.Matches.held (h : c.Matches R L c') : Forall₂ R c.held c'.held := by
  cases h with
  | items hh _ => exact hh
  | entries hh _ => exact hh
  | characters _ => exact .nil
  | progression _ _ => exact .nil
  | mapping hf hi => exact .cons hf (.cons hi .nil)
  | callUntil hc hs => exact .cons hc (.cons hs .nil)
  | script _ _ _ hh _ => exact hh

theorem Payload.Matches.references (h : p.Matches R L p') :
    Forall₂ R p.references p'.references := by
  cases h with
  | type _ hb => exact rel_toList hb
  | tuple hi => exact hi
  | dict he => exact he.values
  | bound hv hf => exact .cons hv (.cons hf .nil)
  | generator hg =>
    cases hg with
    | suspended hc => exact hc.held
    | running => exact .nil
    | stopped hv => exact rel_toList hv
  | _ => exact .nil

/-- **Matching objects refer to related handles**, one by one. -/
theorem Object.Matches.references {o o' : Object} (h : o.Matches R L o') :
    Forall₂ R o.references o'.references :=
  .cons h.type (List.rel_append h.attributes.values h.payload.references)

section

variable {o o' : Object} (h : o.Matches R L o')

include h

theorem Object.Matches.base : Option.Rel R o.base o'.base := by
  refine h.elim fun hp _ _ => ?_
  cases hp with
  | type _ hb => exact hb
  | _ => exact .none

theorem Object.Matches.tupleItems : Option.Rel (Forall₂ R) o.tupleItems o'.tupleItems := by
  refine h.elim fun hp _ _ => ?_
  cases hp with
  | tuple hi => exact .some hi
  | _ => exact .none

theorem Object.Matches.dictEntries :
    Option.Rel (OrderedMap.Matches R) o.dictEntries o'.dictEntries := by
  refine h.elim fun hp _ _ => ?_
  cases hp with
  | dict he => exact .some he
  | _ => exact .none

theorem Object.Matches.boundParts :
    Option.Rel (fun x y => R x.1 y.1 ∧ R x.2 y.2) o.boundParts o'.boundParts := by
  refine h.elim fun hp _ _ => ?_
  cases hp with
  | bound hr hf => exact .some ⟨hr, hf⟩
  | _ => exact .none

theorem Object.Matches.generatorResult :
    Option.Rel (Option.Rel R) o.generatorResult o'.generatorResult := by
  refine h.elim fun hp _ _ => ?_
  cases hp with
  | generator hg =>
    cases hg with
    | stopped hv => exact .some hv
    | _ => exact .none
  | _ => exact .none

theorem Object.Matches.isType_eq : o.isType = o'.isType := h.elim fun hp _ _ => by cases hp <;> rfl

theorem Object.Matches.intValue_eq : o.intValue = o'.intValue :=
  h.elim fun hp _ _ => by cases hp <;> rfl

theorem Object.Matches.boolValue_eq : o.boolValue = o'.boolValue :=
  h.elim fun hp _ _ => by cases hp <;> rfl

theorem Object.Matches.textValue_eq : o.textValue = o'.textValue :=
  h.elim fun hp _ _ => by cases hp <;> rfl

theorem Object.Matches.isGenerator_eq : o.isGenerator = o'.isGenerator :=
  h.elim fun hp _ _ => by cases hp <;> rfl

theorem Object.Matches.isFunction_eq : o.isFunction = o'.isFunction :=
  h.elim fun hp _ _ => by cases hp <;> rfl

end

end ObjectModel
