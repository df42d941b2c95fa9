import DofNumbering.Json.Codec

namespace DofNumbering

/-! Rules by which the indices of the children of a node become indices of the node.

A blocked rule keeps the number of the child in an entry of its own; a flat rule
folds it into the first entry.  The layout tells whether the degrees of freedom
of one child stay together or those of all children alternate.
-/

/-- Order in which the degrees of freedom of the children of a node are numbered. -/
inductive Layout where
  | lexicographic
  | interleaved
deriving DecidableEq, Repr

structure Merging where
  blocked : Bool
  layout : Layout
deriving DecidableEq, Repr

namespace Merging

def blockedLexicographic : Merging := ⟨true, .lexicographic⟩
def blockedInterleaved : Merging := ⟨true, .interleaved⟩
def flatLexicographic : Merging := ⟨false, .lexicographic⟩
def flatInterleaved : Merging := ⟨false, .interleaved⟩

end Merging

def Layout.toJson : Layout → Json
  | .lexicographic => .text "Lexicographic"
  | .interleaved => .text "Interleaved"

/-- Reads a layout inside of a value; `room` more lists and objects may be open. -/
def Layout.ofJsonWithin? (room : Nat) (json : Json) : Option Layout :=
  match json.unitCase? room with
  | some "Lexicographic" => some .lexicographic
  | some "Interleaved" => some .interleaved
  | _ => none

def Layout.ofJson? : Json → Option Layout := ofJsonWithin? Json.maxNesting

instance : Encode Layout := ⟨Layout.toJson⟩
instance : Decode Layout := ⟨Layout.ofJson?⟩

end DofNumbering
