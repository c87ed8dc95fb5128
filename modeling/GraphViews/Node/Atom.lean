import GraphViews.Node
import GraphViews.Text.Quoted
/-!
# Atoms

What the nodes of a workspace are made of. A number never equals a string, though both may have the same
plain text.
-/

namespace GraphViews

/-- A whole number or a string. -/
inductive Atom where
  | integer (n : Int)
  | string (s : String)
  deriving DecidableEq

namespace Atom

/-- A number is written in decimal, a string as it is or in quotes, where `byCode` tells which characters are written by
their code. -/
@[reducible] def written (byCode : Char → Bool) : Written Atom where
  plain
    | integer n => toString n
    | string s => s
  quoted
    | integer n => toString n
    | string s => Quoted.text byCode s

/-- In quotes, control characters are written by their code. -/
instance : Written Atom := written Quoted.isControl

/-- What an atom feeds to a hash. -/
def feed : Atom → List Chunk
  | integer n => [.integer n]
  | string s => [.text s]

/-- Numbers by value, then strings by code point. -/
instance : Ord Atom where
  compare
    | integer m, integer n => Ord.compare m n
    | integer _, string _ => .lt
    | string _, integer _ => .gt
    | string s, string t => Ord.compare s t

end Atom

/-- The hash of a node over atoms. -/
def Node.hash (x : Node Atom) : UInt64 := digest (x.feed digest Atom.feed)

end GraphViews
