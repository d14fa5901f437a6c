/-!
# Splitting at separators

`splitAt` cuts a list at each separator, so it gives one part more than there are separators. Lines of
files and of input, and the components of paths, are cut this way.
-/

namespace DosMonitor.Text

variable {α : Type}

/-- One more element in front of a list that has been cut into parts. -/
def consPart [BEq α] (separator a : α) (parts : List (List α)) : List (List α) :=
  if a == separator then [] :: parts
  else
    match parts with
    | part :: parts => (a :: part) :: parts
    | [] => [[a]]

/-- The parts of a list between separators, empty ones included. -/
def splitAt [BEq α] (separator : α) (s : List α) : List (List α) :=
  s.foldr (consPart separator) [[]]

end DosMonitor.Text
