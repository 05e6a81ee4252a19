/-! Texts cut at a separator: at every occurrence, at the first or at the last. -/

namespace ClientRegistry.Text

/-- The parts of a text between the separators; there is one part more than separators. -/
def splitAll (separator : Char) : List Char → List (List Char)
  | [] => [[]]
  | c :: rest =>
    if c = separator then [] :: splitAll separator rest
    else match splitAll separator rest with
      | [] => [[c]]
      | part :: parts => (c :: part) :: parts

/-- The text before the first separator, and the text after it if there is one. -/
def cut (separator : Char) : List Char → List Char × Option (List Char)
  | [] => ([], none)
  | c :: rest =>
    if c = separator then ([], some rest)
    else
      let (before, after) := cut separator rest
      (c :: before, after)

/-- The text before the last separator, and the text after it. -/
def cutLast? (separator : Char) (cs : List Char) : Option (List Char × List Char) :=
  match cut separator cs.reverse with
  | (after, some before) => some (before.reverse, after.reverse)
  | (_, none) => none

theorem splitAll_ne_nil (separator : Char) (cs : List Char) : splitAll separator cs ≠ [] := by
  cases cs with
  | nil => simp [splitAll]
  | cons c rest =>
    simp only [splitAll]
    split
    · simp
    · split <;> simp

example : splitAll ',' ['a', ',', ','] = [['a'], [], []] := by decide
example : cut '=' ['a', '=', 'b', '='] = (['a'], some ['b', '=']) := by decide
example : cutLast? '=' ['a', '=', 'b', '='] = some (['a', '=', 'b'], []) := by decide

end ClientRegistry.Text
