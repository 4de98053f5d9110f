import ObjectModel.State

/-!
# Programs

A program is a tree of primitive actions: each action is performed on the state and its answer picks
the subtree that comes next. Every operation of the library is such a tree, and the actions are the
only ways to look at the state and to change it. What holds of every action therefore holds of every
operation, by one induction.

* `Action` lists the primitives. Calls and requests to generators are primitives too: a program asks
  for them and does not perform them.
* `Program` is the tree. Loops without a known bound are nodes of the tree.
* `Run` are programs that may end with a fault.
-/

namespace ObjectModel

/-! ## 1. Actions -/

/-- The primitive actions, by the type of their answer. -/
inductive Action : Type → Type 1 where
  /-- Looks at the state. `none` means that a stale handle was looked up. -/
  | inspect {β : Type} (look : State → Option β) : Action β
  | allocate (object : Object) : Action Handle
  | setAttribute (target : Handle) (name : String) (value : Handle) : Action Unit
  | eraseAttribute (target : Handle) (name : String) : Action Unit
  | setEntry (dict : Handle) (key : String) (value : Handle) : Action Unit
  | eraseEntry (dict : Handle) (key : String) : Action Unit
  | setGlobal (name : String) (value : Handle) : Action Unit
  | setShared (name : String) (value : Handle) : Action Unit
  | pin (h : Handle) : Action Unit
  | unpin (h : Handle) : Action Unit
  | collect (extra : List Handle) : Action (Except Fault Nat)
  /-- A script hands these handles to an operation, or back as its result. Nothing changes; a host
  owes that they are live. -/
  | handOver (handles : List Handle) : Action Unit
  | write (text : String) : Action (Except Fault Unit)
  | flush : Action (Except Fault Unit)
  | readLine : Action (Except Fault (Option String))
  | call (callee : Handle) (args : List Handle) : Action (Except Fault Handle)
  /-- Asks a generator for its next value. -/
  | advance (generator : Handle) : Action (Except Fault Handle)

/-! ## 2. Programs -/

inductive Program : Type → Type 1 where
  | pure {α : Type} (value : α) : Program α
  | perform {α β : Type} (action : Action β) (next : β → Program α) : Program α
  /-- Repeats `body` from `start` on until it answers on the right. -/
  | iterate {α σ β : Type} (body : σ → Program (σ ⊕ β)) (start : σ) (next : β → Program α) :
      Program α

namespace Program

/-- Runs `p` and goes on with its answer. -/
def bind {α γ : Type} (p : Program α) (f : α → Program γ) : Program γ :=
  match p with
  | pure value => f value
  | perform action next => perform action fun answer => (next answer).bind f
  | iterate body start next => iterate body start fun answer => (next answer).bind f

instance : Monad Program where
  pure := pure
  bind := bind

variable {α β γ : Type}

theorem pure_bind (value : α) (f : α → Program β) : (pure value).bind f = f value := rfl

theorem bind_pure (p : Program α) : p.bind pure = p := by
  induction p with
  | pure value => rfl
  | perform action next ih => simp only [bind, ih]
  | iterate body start next _ ih => simp only [bind, ih]

theorem bind_assoc (p : Program α) (f : α → Program β) (g : β → Program γ) :
    (p.bind f).bind g = p.bind fun value => (f value).bind g := by
  induction p with
  | pure value => rfl
  | perform action next ih => simp only [bind, ih]
  | iterate body start next _ ih => simp only [bind, ih]

instance : LawfulMonad Program :=
  .mk' Program (fun p => bind_pure p) (fun value f => pure_bind value f)
    (fun p f g => bind_assoc p f g)

/-- The program of one action. -/
def act {β : Type} (action : Action β) : Program β := perform action pure

/-- Repeats `body` from `start` on until it answers on the right. -/
def loop {σ β : Type} (start : σ) (body : σ → Program (σ ⊕ β)) : Program β :=
  iterate body start pure

end Program

/-! ## 3. Programs that may fail -/

/-- A program that ends with a value or a fault. -/
abbrev Run (α : Type) : Type 1 := ExceptT Fault Program α

namespace Run

/-- An action whose answer is never a fault. -/
def act {β : Type} (action : Action β) : Run β := ExceptT.lift (Program.act action)

/-- An action whose answer may be a fault. -/
def ask {β : Type} (action : Action (Except Fault β)) : Run β := ExceptT.mk (Program.act action)

/-- Turns the outcome of `x` into a value, so that a fault of `x` can be looked at. -/
def attempt {α : Type} (x : Run α) : Run (Except Fault α) := ExceptT.lift x.run

/-- Repeats `body` until it answers on the right; a fault of `body` ends the loop. -/
def loop {σ β : Type} (start : σ) (body : σ → Run (σ ⊕ β)) : Run β :=
  ExceptT.mk (Program.loop start fun acc => do
    match ← (body acc).run with
    | .ok (.inl next) => return .inl next
    | .ok (.inr answer) => return .inr (.ok answer)
    | .error fault => return .inr (.error fault))

end Run

/-! ## 4. The primitive operations -/

/-- Looks at the state; a stale handle ends everything. -/
def inspect {β : Type} (look : State → Option β) : Run β := .act (.inspect look)

/-- Looks at the heap; a stale handle ends everything. -/
def inspectHeap {β : Type} (look : Heap → Option β) : Run β := inspect fun s => look s.heap

def allocate (object : Object) : Run Handle := .act (.allocate object)

/-- Writes an attribute of the object itself. -/
def setAttribute (target : Handle) (name : String) (value : Handle) : Run Unit :=
  .act (.setAttribute target name value)

/-- Marks the handles that a script gives away. -/
def handOver (handles : List Handle) : Run Unit := .act (.handOver handles)

/-- Calls `callee`. Calls nest no deeper than the limit. -/
def call (callee : Handle) (args : List Handle) : Run Handle := .ask (.call callee args)

/-- Resumes a generator once, if it is suspended. -/
def advance (generator : Handle) : Run Handle := .ask (.advance generator)

def collectGarbage (extra : List Handle) : Run Nat := .ask (.collect extra)

/-! ## 5. Looking at an object -/

/-- The object that `h` names. -/
def object (h : Handle) : Run Object := inspectHeap fun heap => heap.get? h

def typeOf (h : Handle) : Run Handle := inspectHeap fun heap => heap.typeOf h

/-- The member `name` along the chain of `h`, as stored. -/
def lookupMember (h : Handle) (name : String) : Run (Option Handle) :=
  inspectHeap fun heap => heap.lookup h name

/-- The member `name` of the type of `h`, as stored. -/
def findHook (h : Handle) (name : String) : Run (Option Handle) :=
  inspectHeap fun heap => heap.hook h name

/-- Name of `h` if it is a type, else of its type. -/
def typeName (h : Handle) : Run String := inspectHeap fun heap => heap.typeName h

/-- Name of the type of `h`. -/
def className (h : Handle) : Run String := inspectHeap fun heap => heap.className h

def isType (h : Handle) : Run Bool := return (← object h).isType

def isInstance (h type : Handle) : Run Bool := inspectHeap fun heap => heap.isInstance h type

def isSubtype (type base : Handle) : Run Bool := inspectHeap fun heap => heap.isSubtype type base

def isCallable (h : Handle) : Run Bool := inspectHeap fun heap => heap.isCallable h

def intValue (h : Handle) : Run (Option Int64) := return (← object h).intValue

def boolValue (h : Handle) : Run (Option Bool) := return (← object h).boolValue

def textValue (h : Handle) : Run (Option String) := return (← object h).textValue

def tupleItems (h : Handle) : Run (Option (List Handle)) := return (← object h).tupleItems

def dictEntries (h : Handle) : Run (Option (OrderedMap Handle)) := return (← object h).dictEntries

def listItems (h : Handle) : Run (Option (List Handle)) := inspectHeap fun heap => heap.listItems h

def exceptionArgs (h : Handle) : Run (List Handle) := inspectHeap fun heap => heap.exceptionArgs h

/-! ## 6. Making objects -/

def newInt (n : Int64) : Run Handle := allocate (.ofInt n)

def newText (text : String) : Run Handle := allocate (.ofText text)

def newTuple (items : List Handle) : Run Handle := allocate (.ofItems items)

def newDict : Run Handle := allocate (.emptyDict BuiltinType.dict.handle)

/-- A list is an object of type `list` whose items stand in one tuple. -/
def newList (items : List Handle) : Run Handle := do
  let cell ← newTuple items
  allocate ⟨.plain, BuiltinType.list.handle, .ofList [(Heap.listCell, cell)]⟩

def newGenerator (c : Coroutine) : Run Handle := allocate (.ofCoroutine c)

end ObjectModel
