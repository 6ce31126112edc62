import IssueRelay.Json.Numeral
import IssueRelay.Json.Literal
import IssueRelay.Text.Cut

/-!
The JSON reader. Values are read by descent, with the nesting that is still allowed as the measure;
the loop over the items of a container takes the reader for the next level as an argument.
-/

set_option autoImplicit false

namespace IssueRelay.Json

namespace Reader

abbrev ValueReader := Text → Except Failure (Json × Text)

def isBlank : CodePoint → Bool
  | .scalar c => c = ' ' || c = '\t' || c = '\n' || c = '\r'
  | .surrogate _ => false

def skip (s : Text) : Text := s.dropWhile isBlank

def words : List (Text × Json) :=
  [("null", .null), ("true", .bool true), ("false", .bool false), ("NaN", .real .notANumber),
    ("Infinity", .real (.infinity false)), ("-Infinity", .real (.infinity true))]

def number (s : Text) : Except Failure (Json × Text) :=
  match Numeral.scan? s with
  | none => .error (.flaw .noValue s)
  | some (n, rest) =>
    match n.value with
    | .ok v => .ok (v, rest)
    | .error l => .error (.limit l)

def wordOrNumber (s : Text) : Except Failure (Json × Text) :=
  match words.findSome? fun (w, v) => (Text.after? w s).map (v, ·) with
  | some taken => .ok taken
  | none => number s

def string (opening s : Text) : Except Failure (Text × Text) :=
  (fun (symbols, r) => (Literal.join symbols, r)) <$> Literal.scan opening s

def items (value : ValueReader) : Nat → Text → Except Failure (List Json × Text)
  | 0, s => .error (.flaw .noValue s)
  | fuel + 1, s => do
    let (v, rest) ← value s
    match skip rest with
    | .scalar ']' :: rest => .ok ([v], rest)
    | .scalar ',' :: rest =>
      let (vs, rest) ← items value fuel (skip rest)
      .ok (v :: vs, rest)
    | rest => .error (.flaw .noComma rest)

def member (value : ValueReader) (s : Text) : Except Failure ((Text × Json) × Text) :=
  match s with
  | .scalar '"' :: inside => do
    let (key, rest) ← string s inside
    match skip rest with
    | .scalar ':' :: rest =>
      let (v, rest) ← value (skip rest)
      .ok ((key, v), rest)
    | rest => .error (.flaw .noColon rest)
  | s => .error (.flaw .noName s)

def members (value : ValueReader) : Nat → Text → Except Failure (List (Text × Json) × Text)
  | 0, s => .error (.flaw .noName s)
  | fuel + 1, s => do
    let (m, rest) ← member value s
    match skip rest with
    | .scalar '}' :: rest => .ok ([m], rest)
    | .scalar ',' :: rest =>
      let (ms, rest) ← members value fuel (skip rest)
      .ok (m :: ms, rest)
    | rest => .error (.flaw .noComma rest)

/-- The rest of an array whose bracket is open. Every item takes something off the text, so that its
length is fuel enough. -/
def array (value : ValueReader) (s : Text) : Except Failure (Json × Text) :=
  match skip s with
  | .scalar ']' :: rest => .ok (.arr [], rest)
  | s => (fun (vs, rest) => (.arr vs, rest)) <$> items value s.length s

def object (value : ValueReader) (s : Text) : Except Failure (Json × Text) :=
  match skip s with
  | .scalar '}' :: rest => .ok (.obj [], rest)
  | s => (fun (ms, rest) => (.obj (ofPairs ms), rest)) <$> members value s.length s

/-- One value; `inside` reads on in a container that opens. -/
def valueWith (inside : Container → ValueReader) : ValueReader
  | .scalar '"' :: rest =>
    (fun (s, rest) => (.str s, rest)) <$> string (.scalar '"' :: rest) rest
  | .scalar '[' :: rest => inside .array rest
  | .scalar '{' :: rest => inside .object rest
  | s => wordOrNumber s

def value : (depth : Nat) → ValueReader
  | 0 => valueWith fun container _ => .error (.limit (.nesting container))
  | depth + 1 => valueWith fun
    | .array => array (value depth)
    | .object => object (value depth)

/-- How many containers deep a text may go. The number stands for what the calls around the reader
leave of the interpreter's limit on recursion, and is one for all callers here. Up to release 3.11
of the interpreter settings, records and envelopes are left one level less than a JSON value that is
read alone; from 3.12 on all are left the same, and more. -/
def maxDepth : Nat := 990

def document (s : Text) : Except Failure Json :=
  match s with
  | .scalar '\uFEFF' :: _ => .error (.flaw .byteOrderMark s)
  | s => do
    let (v, rest) ← value maxDepth (skip s)
    match skip rest with
    | [] => .ok v
    | rest => .error (.flaw .extraData rest)

end Reader

def read (s : Text) : Except Fault Json := (Reader.document s).mapError (Failure.locate s)

end IssueRelay.Json
