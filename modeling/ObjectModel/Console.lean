/-!
# Consoles

What a state writes to and reads lines from.

* A buffer collects its output and replays given lines.
* A stream reads bytes line by line, as they come from a process.
* A broken console refuses everything.
-/

namespace ObjectModel

inductive Console where
  | buffer (output : String) (lines : List String) (flushes : Nat)
  | stream (output : String) (pending : List UInt8)
  | broken

/-- The operations of a console. -/
inductive ConsoleOp where
  | write
  | flush
  | read
  deriving DecidableEq

def ConsoleOp.name : ConsoleOp → String
  | write => "write"
  | flush => "flush"
  | read => "read"

/-- What went wrong at a console. -/
inductive ConsoleError where
  /-- A broken console was asked for an operation. -/
  | refused (op : ConsoleOp)
  /-- The bytes of a line are no text. -/
  | notText
  deriving DecidableEq

namespace ConsoleError

def operation : ConsoleError → ConsoleOp
  | refused op => op
  | notText => .read

def message : ConsoleError → String
  | refused op => op.name ++ " refused"
  | notText => "stream did not contain valid UTF-8"

end ConsoleError

namespace Console

/-- A buffer that has written nothing and will replay `lines`. -/
def ofLines (lines : List String) : Console := .buffer "" lines 0

def ofBytes (bytes : List UInt8) : Console := .stream "" bytes

/-- The text written so far. -/
def output : Console → String
  | buffer output _ _ => output
  | stream output _ => output
  | broken => ""

/-- How often a buffer was flushed. -/
def flushes : Console → Nat
  | buffer _ _ n => n
  | stream _ _ => 0
  | broken => 0

def write (text : String) : Console → Except ConsoleError Console
  | buffer output lines n => .ok (.buffer (output ++ text) lines n)
  | stream output pending => .ok (.stream (output ++ text) pending)
  | broken => .error (.refused .write)

def flush : Console → Except ConsoleError Console
  | buffer output lines n => .ok (.buffer output lines (n + 1))
  | stream output pending => .ok (.stream output pending)
  | broken => .error (.refused .flush)

/-! ## Lines of a stream -/

def lineFeed : UInt8 := 10

def carriageReturn : UInt8 := 13

/-- A line with its line feed, and the bytes behind it. -/
def splitLine : List UInt8 → List UInt8 × List UInt8
  | [] => ([], [])
  | b :: rest =>
    if b = lineFeed then ([b], rest)
    else
      let (line, behind) := splitLine rest
      (b :: line, behind)

/-- A line without its ending: a line feed, and a carriage return in front of it. -/
def trimEnding (line : List UInt8) : List UInt8 :=
  match line.reverse with
  | b :: before =>
    if b = lineFeed then
      match before with
      | c :: front => if c = carriageReturn then front.reverse else before.reverse
      | [] => []
    else line
  | [] => []

/-- The text that bytes spell, if they are UTF-8. -/
def decode? (bytes : List UInt8) : Option String := String.fromUTF8? (ByteArray.mk bytes.toArray)

/-- The next line without its ending, or none at the end of the input. A line that is no text is
consumed all the same. -/
def readLine : Console → Except ConsoleError (Option String) × Console
  | buffer output [] n => (.ok none, .buffer output [] n)
  | buffer output (line :: rest) n => (.ok (some line), .buffer output rest n)
  | stream output [] => (.ok none, .stream output [])
  | stream output (b :: bytes) =>
    let (line, rest) := splitLine (b :: bytes)
    match decode? (trimEnding line) with
    | some text => (.ok (some text), .stream output rest)
    | none => (.error .notText, .stream output rest)
  | broken => (.error (.refused .read), .broken)

end Console

end ObjectModel
