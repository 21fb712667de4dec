import DomainModel.Model.Relationship
import DomainModel.Proofs.Text.Lines
/-!
# Blocks of relationships, spelled out

A block has a header with the cardinality, the members with commas and line feeds between them, each
line of a member moved right by two blanks, and a brace that closes it.
-/
namespace DomainModel

/-- Each line of the text after two blanks. -/
def spelledMargin (s : String) : String := "\n".intercalate ((linesAtFeeds s).map ("  " ++ ·))

theorem indented_eq_spelledMargin (s : String) : indented s = spelledMargin s := by
  rw [indented, lines_eq_linesAtFeeds, joinWith_eq_intercalate, spelledMargin]

/-- A comment in starred lines, or nothing. -/
def spelledComment : Option String → String
  | none => ""
  | some comment =>
    "/**\n" ++ String.join ((linesAtFeeds comment).map fun line => " * " ++ line ++ "\n") ++ " */\n"

theorem optionalComment_eq_spelledComment (comment : Option String) :
    optionalComment comment = spelledComment comment := by
  cases comment with
  | none => rfl
  | some comment =>
    rw [optionalComment, commentBlock, lines_eq_linesAtFeeds, concat_eq_join, spelledComment]

namespace Relationship

/-- An injected field in braces, with a mark if it is required. -/
def spelledField (field : Option String) (required : Option Bool) : String :=
  match field with
  | none => ""
  | some field => "\x7b" ++ field ++ (if required = some true then " required\x7d" else "\x7d")

theorem endText_eq_spelledField (field : Option String) (required : Option Bool) :
    endText field required = spelledField field required := by
  cases field with
  | none => rfl
  | some field =>
    rw [endText, spelledField, String.append_assoc]
    split <;> rfl

/-- Source and destination with their fields, and the comment of each in front of it. The comment of
the destination starts a line. -/
def spelledMember (r : Relationship) : String :=
  spelledComment r.commentInSource ++ r.source ++
    spelledField r.injectedInSource r.requiredInSource ++
    (if r.commentInDestination = none then " to " else " to\n") ++
    spelledComment r.commentInDestination ++ r.destination ++
    spelledField r.injectedInDestination r.requiredInDestination

theorem memberText_eq_spelledMember (r : Relationship) : r.memberText = r.spelledMember := by
  rw [memberText, spelledMember, optionalComment_eq_spelledComment, endText_eq_spelledField,
    endText_eq_spelledField]
  cases hcomment : r.commentInDestination with
  | none =>
    apply String.toList_inj.mp
    simp [spelledComment]
  | some comment =>
    rw [← optionalComment_eq_spelledComment (some comment)]
    apply String.toList_inj.mp
    simp [optionalComment]

theorem blockText_eq (c : Cardinality) (l : List Relationship) :
    blockText c (l.map memberText) = "relationship " ++ c.word ++ " \x7b\n" ++
      ",\n".intercalate (l.map fun r => spelledMargin r.spelledMember) ++ "\n\x7d" := by
  have hmembers : (l.map memberText).map indented =
      l.map fun r => spelledMargin r.spelledMember := by
    rw [List.map_map]
    refine List.map_congr_left fun r _ => ?_
    rw [Function.comp_apply, indented_eq_spelledMargin, memberText_eq_spelledMember]
  rw [blockText, joinWith_eq_intercalate, hmembers]

end Relationship
end DomainModel
