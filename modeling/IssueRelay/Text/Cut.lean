import IssueRelay.Text.Basic

set_option autoImplicit false

namespace IssueRelay.Text

def cutAt (c : CodePoint) : Text → Text × Option Text
  | [] => ([], none)
  | d :: rest => if d = c then ([], some rest) else (d :: (cutAt c rest).1, (cutAt c rest).2)

def afterLast (c : CodePoint) (t : Text) : Text := (t.reverse.takeWhile (· ≠ c)).reverse

def split (c : CodePoint) : Text → List Text
  | [] => [[]]
  | d :: rest =>
    if d = c then [] :: split c rest
    else match split c rest with
      | [] => [[d]]
      | part :: parts => (d :: part) :: parts

def after? : (word : Text) → Text → Option Text
  | [], t => some t
  | _ :: _, [] => none
  | w :: ws, c :: cs => if w = c then after? ws cs else none

def before? (word : Text) : Text → Option Text
  | [] => if word = [] then some [] else none
  | c :: rest =>
    if (after? word (c :: rest)).isSome then some [] else (before? word rest).map (c :: ·)

end IssueRelay.Text
