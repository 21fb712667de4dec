import DomainModel.Text.Blank
/-!
# Injected fields

The field that a relationship adds to an entity is written as its name, or as the name and in
parentheses the field of the other entity that is displayed.
-/
namespace DomainModel

structure InjectedField where
  name : String
  displayed : Option String
  deriving DecidableEq, Repr

namespace InjectedField

/-- The characters up to the first opening parenthesis, and those after it if there is one. -/
def splitOpen : List Char → List Char × Option (List Char)
  | [] => ([], none)
  | '(' :: rest => ([], some rest)
  | c :: rest => (c :: (splitOpen rest).1, (splitOpen rest).2)

/-- Reads a written field: closing parentheses at the end and blanks around both parts go. -/
def ofText (s : String) : InjectedField :=
  match splitOpen s.toList with
  | (before, none) => ⟨String.ofList (trimChars before), none⟩
  | (before, some after) =>
    let shown := trimChars (dropTrailing (· == ')') after)
    ⟨String.ofList (trimChars before), if shown.isEmpty then none else some (String.ofList shown)⟩

def text (f : InjectedField) : String :=
  match f.displayed with
  | none => f.name
  | some shown => f.name ++ "(" ++ shown ++ ")"

end InjectedField
end DomainModel
