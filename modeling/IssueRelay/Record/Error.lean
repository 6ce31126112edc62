import IssueRelay.Json.Fault
import IssueRelay.Record.Catalog

set_option autoImplicit false

namespace IssueRelay

inductive Mismatch
  | notUnsigned (found : Shape)
  | outOfRange (n : Int)
  | notString (found : Shape)
  | surrogate
  | notObject (found : Shape)
  deriving DecidableEq

def Mismatch.message : Mismatch → Text
  | .notUnsigned found => "expected unsigned integer, got " ++ Text.ofString found.noun
  | .outOfRange n => "integer " ++ Text.ofInt n ++ " out of range for uint64"
  | .notString found => "expected string, got " ++ Text.ofString found.noun
  | .surrogate => "invalid unicode string: surrogates not allowed"
  | .notObject found => "expected object, got " ++ Text.ofString found.noun

def childPath (path : Text) (key : String) : Text :=
  if path = [] then key else path ++ .scalar '.' :: Text.ofString key

inductive RecordError
  | mismatch (path : Text) (m : Mismatch)
  | missing (container : Text) (key : String)
  deriving DecidableEq

namespace RecordError

/-- Where the error is: at the value itself, or at the object that lacks a key. -/
def path : RecordError → Text
  | .mismatch path _ => path
  | .missing container _ => container

def problem : RecordError → Text
  | .mismatch _ m => m.message
  | .missing _ key => "missing required field '" ++ Text.ofString key ++ "'"

def message (e : RecordError) : Text :=
  if e.path = [] then e.problem else e.path ++ ": " ++ e.problem

end RecordError

structure BuildError where
  type : RecordType
  field : String
  mismatch : Mismatch
  deriving DecidableEq

def BuildError.message (e : BuildError) : Text :=
  Text.ofString e.type.name ++ "." ++ Text.ofString e.field ++ ": " ++ e.mismatch.message

end IssueRelay
