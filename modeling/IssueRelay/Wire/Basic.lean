import IssueRelay.Json.Basic

set_option autoImplicit false

namespace IssueRelay

inductive Wire
  | number (n : UInt64)
  | text (s : Text)
  | object (entries : List (String × Wire))

namespace Wire

mutual

def toJson : Wire → Json
  | .number n => .int n.toNat
  | .text s => .str s
  | .object entries => .obj (membersOf entries)

def membersOf : List (String × Wire) → List (Text × Json)
  | [] => []
  | (key, w) :: rest => (Text.ofString key, w.toJson) :: membersOf rest

end

mutual

def sorted : Wire → Wire
  | .number n => .number n
  | .text s => .text s
  | .object entries => .object ((sortedEach entries).mergeSort fun a b => a.1 ≤ b.1)

def sortedEach : List (String × Wire) → List (String × Wire)
  | [] => []
  | (key, w) :: rest => (key, w.sorted) :: sortedEach rest

end

end Wire

end IssueRelay
