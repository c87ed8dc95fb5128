/-!
# Written values

A value has two texts. The plain text is what messages and plain listings show; the quoted text puts
every string in quotes with its special characters escaped.
-/

namespace GraphViews

/-- The two texts of a value. -/
class Written (α : Type) where
  plain : α → String
  quoted : α → String

/-- The items one after another, with a comma and a blank between two. -/
def commaSeparated : List String → String
  | [] => ""
  | [s] => s
  | s :: t :: rest => s ++ ", " ++ commaSeparated (t :: rest)

/-- The plain text of a set: its items in square brackets. -/
def plainListing {α : Type} [Written α] (items : List α) : String :=
  "[" ++ commaSeparated (items.map Written.plain) ++ "]"

/-- The quoted text of a set: its items, quoted, in curly brackets. -/
def quotedListing {α : Type} [Written α] (items : List α) : String :=
  "\x7b" ++ commaSeparated (items.map Written.quoted) ++ "\x7d"

/-- The text of a flag. -/
def flagText (b : Bool) : String := if b then "true" else "false"

end GraphViews
