/-!
# What a value feeds to a hash

A hash sees a value as a list of chunks. A digest condenses the chunks into one word; the one here is a
fixed function, and nothing else is asked of it.
-/

namespace GraphViews

/-- One piece of data handed to a hash. -/
inductive Chunk where
  | flag (b : Bool)
  | integer (n : Int)
  | text (s : String)
  | word (w : UInt64)
  deriving DecidableEq

namespace Chunk

/-- A chunk as words, led by one that tells its kind. -/
def words : Chunk → List UInt64
  | .flag b => [0, if b then 1 else 0]
  | .integer n => [1, if n < 0 then 1 else 0, n.natAbs.toUInt64]
  | .text s => 2 :: s.length.toUInt64 :: s.toList.map (·.toNat.toUInt64)
  | .word w => [3, w]

end Chunk

/-- Mixes the words in order, each with an exclusive or and a multiplication. -/
def digest (chunks : List Chunk) : UInt64 :=
  (chunks.flatMap Chunk.words).foldl (fun h w => (h ^^^ w) * 1099511628211) 14695981039346656037

end GraphViews
