import ObjectModel.Types.Sequence

/-!
# Members of `str`

Text is immutable and indexed by character.
-/

namespace ObjectModel

/-- The text a member was called on. -/
def textReceiver (name : String) (h : Handle) : Run String := do
  match ← textValue h with
  | some text => return text
  | none => typeError ("`" ++ name ++ "` requires a str receiver")

def intArgument (name argument : String) (h : Handle) : Run Int64 := do
  match ← intValue h with
  | some n => return n
  | none => typeError ("`" ++ name ++ "` requires `" ++ argument ++ "` to be int")

def textArgument (name argument : String) (h : Handle) : Run String := do
  match ← textValue h with
  | some text => return text
  | none => typeError ("`" ++ name ++ "` requires `" ++ argument ++ "` to be str")

/-- An argument that may be left out. -/
def intArgumentOr (name argument : String) (h : Option Handle) (fallback : Int64) : Run Int64 :=
  match h with
  | some h => intArgument name argument h
  | none => return fallback

/-- Characters from `start` on, before `stop`, `step` apart. -/
def strSlice (receiver start stop : Handle) (step : Option Handle) : Run Handle := do
  let text ← textReceiver "str.slice" receiver
  let start ← intArgument "str.slice" "start" start
  let stop ← intArgument "str.slice" "end" stop
  let step ← intArgumentOr "str.slice" "step" step 1
  if step = 0 then valueError "`str.slice` step cannot be zero"
  else newText (Text.slice text start stop step)

/-- The first place of a text. A negative start counts from the end. -/
def strFind (receiver needle : Handle) (start stop : Option Handle) : Run Handle := do
  let text ← textReceiver "str.find" receiver
  let needle ← textArgument "str.find" "sub" needle
  let size := Int64.ofNat text.length
  let start ← intArgumentOr "str.find" "start" start 0
  let stop ← intArgumentOr "str.find" "end" stop size
  newInt (Text.find text needle (if start < 0 then start + size else start) stop)

/-- One more piece of a joined text; there is no separator in front of the first one. -/
def joinPiece (separator : String) (joined : Option String) (piece : String) : Option String :=
  match joined with
  | none => some piece
  | some text => some (text ++ separator ++ piece)

/-- The items of an iterable with the receiver between them. -/
def strJoin (receiver iterable : Handle) : Run Handle := do
  let separator ← textReceiver "str.join" receiver
  let joined ← forEach iterable none fun joined item => do
    return joinPiece separator joined (← textArgument "str.join" "items" item)
  newText (joined.getD "")

/-- A member that declines operands other than text. -/
def strBinary (name : String) (op : String → String → Run Handle) : List Handle → Run Handle
  | [left, right] => do
    let l ← textReceiver name left
    match ← textValue right with
    | some r => op l r
    | none => return .notImplemented
  | args => wrongArity name 2 2 args

def Comparison.accepts : Comparison → Ordering → Bool
  | lt, o => o.isLT
  | le, o => o.isLE
  | gt, o => o.isGT
  | ge, o => o.isGE

def StrMember.run : StrMember → List Handle → Run Handle
  | new, [_] => newText ""
  | new, [_, h] => do newText (← toText h)
  | new, args => wrongArity "str.__new__" 1 2 args
  | str, [h] => do
    let _ ← textReceiver "str.__str__" h
    return h
  | str, args => wrongArity "str.__str__" 1 1 args
  | repr, [h] => do newText (Text.quote (← textReceiver "str.__repr__" h))
  | repr, args => wrongArity "str.__repr__" 1 1 args
  | len, [h] => do newInt (Int64.ofNat (← textReceiver "str.__len__" h).length)
  | len, args => wrongArity "str.__len__" 1 1 args
  | bool, [h] => do return .ofBool !(← textReceiver "str.__bool__" h).isEmpty
  | bool, args => wrongArity "str.__bool__" 1 1 args
  | getItem, [h, index] => do
    let text ← textReceiver "str.__getitem__" h
    let place ← position "str" index text.length
    newText (Text.slice text (Int64.ofNat place) (Int64.ofNat (place + 1)) 1)
  | getItem, args => wrongArity "str.__getitem__" 2 2 args
  | slice, [h, start, stop] => strSlice h start stop none
  | slice, [h, start, stop, step] => strSlice h start stop (some step)
  | slice, args => wrongArity "str.slice" 3 4 args
  | find, [h, needle] => strFind h needle none none
  | find, [h, needle, start] => strFind h needle (some start) none
  | find, [h, needle, start, stop] => strFind h needle (some start) (some stop)
  | find, args => wrongArity "str.find" 2 4 args
  | int, [h] => do
    match Text.digits? (← textReceiver "str.__int__" h) with
    | some n => newInt n
    | none => valueError "`str.__int__` requires self to be /[0-9]+/"
  | int, args => wrongArity "str.__int__" 1 1 args
  | join, [h, iterable] => strJoin h iterable
  | join, args => wrongArity "str.join" 2 2 args
  | add, args => strBinary "str.__add__" (fun l r => newText (l ++ r)) args
  | eq, args => strBinary "str.__eq__" (fun l r => return .ofBool (l == r)) args
  | compare c, args =>
    strBinary c.name (fun l r => return .ofBool (c.accepts (Text.compare l r))) args
  | iter, [h] => do newGenerator (.characters (← textReceiver "str.__iter__" h).toList)
  | iter, args => wrongArity "str.__iter__" 1 1 args

end ObjectModel
