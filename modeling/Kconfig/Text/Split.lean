/-!
# Cutting text into parts

`splitAt sep cs` is the parts of `cs` between the separators, empty ones included, so that joining
them by the separator gives `cs` back.
-/

namespace Kconfig.Text

/-- The parts of a text between separators. There is one more part than separators. -/
def splitAt (sep : Char) : List Char → List (List Char)
  | [] => [[]]
  | c :: cs =>
    if c = sep then [] :: splitAt sep cs
    else
      match splitAt sep cs with
      | [] => [[c]]
      | part :: parts => (c :: part) :: parts

end Kconfig.Text
