import IssueRelay.Record.Writing
import IssueRelay.Settings.Indent
import IssueRelay.Text.Utf8

set_option autoImplicit false

namespace IssueRelay

inductive EncodeError
  | indent (e : IndentError)
  | surrogates (run : Utf8.SurrogateRun)
  deriving DecidableEq

def EncodeError.message : EncodeError → Text
  | .indent e => e.message
  | .surrogates run => run.message

namespace Record

def text (r : Record) (excluded : List String) (settings : OutputSettings) :
    Except IndentError Text := do
  let layout ← settings.layout
  .ok ((r.toWire excluded).write layout)

def encode (r : Record) (excluded : List String) (settings : OutputSettings) :
    Except EncodeError (List UInt8) := do
  let text ← (r.text excluded settings).mapError .indent
  (Utf8.encode text).mapError .surrogates

end Record

end IssueRelay
