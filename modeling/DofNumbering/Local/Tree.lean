import DofNumbering.Element
import DofNumbering.Text

namespace DofNumbering

/-! The tree of shape functions of a basis on one element.

A leaf carries a local element and the place of its shape functions in the
numbering of the whole tree; the tree is updated in place when it is bound to
another element.
-/

/-- Shape function `j` of a leaf has the local index `offset + j * stride`. -/
structure LeafNode where
  finite : LagrangeElement
  element : Nat
  offset : Nat
  stride : Nat
deriving DecidableEq, Repr

/-- Whether an inner node has copies of one child or a list of distinct ones. -/
inductive InnerKind where
  | power
  | composite
deriving DecidableEq, Repr

def InnerKind.nodeKind : InnerKind → NodeKind
  | .power => .power
  | .composite => .composite

inductive LocalNode where
  | leaf (node : LeafNode)
  | inner (kind : InnerKind) (children : List LocalNode) (size : Nat)
deriving Repr

namespace LeafNode

/-- A leaf that has not been bound yet. -/
def unbound (finite : LagrangeElement) : LeafNode := ⟨finite, 0, 0, 1⟩

def size (leaf : LeafNode) : Nat := leaf.finite.size

def bind (leaf : LeafNode) (element offset stride : Nat) : Except Fault LeafNode :=
  if 0 < stride then .ok { leaf with element, offset, stride } else .error .zeroStride

/-- The local index of a shape function, which has to exist. -/
def localIndex (leaf : LeafNode) (j : Nat) : Except Fault Nat :=
  if j < leaf.size then do
    let distance ← Index.mul j leaf.stride
    Index.add leaf.offset distance
  else .error .shapeFunction

def localIndices (leaf : LeafNode) : Except Fault (List Nat) :=
  Index.collect leaf.localIndex 0 leaf.size

def text (leaf : LeafNode) : String :=
  "P" ++ toString leaf.finite.order ++ "[offset: " ++ toString leaf.offset ++ ", stride: " ++
    toString leaf.stride ++ "]"

end LeafNode

namespace LocalNode

def unboundPower (children : List LocalNode) : LocalNode := .inner .power children 0

def unboundComposite (children : List LocalNode) : LocalNode := .inner .composite children 0

/-- The number of degrees of freedom of the subtree. -/
def size : LocalNode → Nat
  | .leaf node => node.size
  | .inner _ _ size => size

def kind : LocalNode → NodeKind
  | .leaf _ => .leaf
  | .inner kind _ _ => kind.nodeKind

def isLeaf : LocalNode → Bool
  | .leaf _ => true
  | .inner .. => false

def leaf? : LocalNode → Option LeafNode
  | .leaf node => some node
  | .inner .. => none

def children : LocalNode → List LocalNode
  | .leaf _ => []
  | .inner _ children _ => children

/-- The node at a path of child numbers. -/
def descendant? (node : LocalNode) : List Nat → Option LocalNode
  | [] => some node
  | index :: path => do
      let child ← node.children[index]?
      child.descendant? path

mutual

/-- The leaves of the subtree in depth-first order. -/
def leaves : LocalNode → List LeafNode
  | .leaf node => [node]
  | .inner _ children _ => leavesOfAll children

def leavesOfAll : List LocalNode → List LeafNode
  | [] => []
  | child :: rest => child.leaves ++ leavesOfAll rest

end

/-- The local indices of the leaves, one leaf after the other. -/
def localIndicesOf : List LeafNode → Except Fault (List Nat)
  | [] => .ok []
  | first :: rest => do
      let indices ← first.localIndices
      let others ← localIndicesOf rest
      .ok (indices ++ others)

def localIndices (node : LocalNode) : Except Fault (List Nat) := localIndicesOf node.leaves

def expectLeaf : LocalNode → Except Fault LeafNode
  | .leaf node => .ok node
  | node => .error (.unexpectedNode .leaf node.kind)

def expectPower : LocalNode → Except Fault (List LocalNode)
  | .inner .power children _ => .ok children
  | node => .error (.unexpectedNode .power node.kind)

def expectComposite : LocalNode → Except Fault (List LocalNode)
  | .inner .composite children _ => .ok children
  | node => .error (.unexpectedNode .composite node.kind)

mutual

def text : LocalNode → String
  | .leaf node => node.text
  | .inner .power children _ => Text.bracketed (texts children)
  | .inner .composite children _ => Text.parenthesized (texts children)

def texts : List LocalNode → List String
  | [] => []
  | child :: rest => child.text :: texts rest

end

end LocalNode

end DofNumbering
