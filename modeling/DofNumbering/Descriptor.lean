import DofNumbering.Index
import DofNumbering.Text

namespace DofNumbering

/-! Descriptions of nested coefficient containers.

A descriptor says how many children a block has and what each child looks like;
it holds no coefficients.  The tree of descriptors has the nesting of a container
that is addressed by the multi-indices of a basis.
-/

/-- How a block stores its children: of possibly different structure, or of one
structure with a static or a dynamic number of children. -/
inductive Form where
  | tuple
  | array
  | vector
deriving DecidableEq, Repr

/-- The number of children of a uniform block, as a static or a dynamic property. -/
inductive Extent where
  | static (size : Nat)
  | dynamic (size : Nat)
deriving DecidableEq, Repr

def Extent.size : Extent → Nat
  | .static size => size
  | .dynamic size => size

inductive Descriptor where
  /-- Nothing is known about the container. -/
  | unknown
  /-- A single scalar. -/
  | value
  | block (form : Form) (children : List Descriptor)
  /-- Identical children that share one description. -/
  | uniform (extent : Extent) (child : Descriptor)
deriving Repr, Inhabited

namespace Descriptor

mutual

def decEq : (left right : Descriptor) → Decidable (left = right)
  | .unknown, .unknown => isTrue rfl
  | .value, .value => isTrue rfl
  | .block form children, .block form' children' =>
      if sameForm : form = form' then
        match decEqList children children' with
        | isTrue same => isTrue (by rw [sameForm, same])
        | isFalse different => isFalse (by intro equal; cases equal; exact different rfl)
      else isFalse (by intro equal; cases equal; exact sameForm rfl)
  | .uniform extent child, .uniform extent' child' =>
      if sameExtent : extent = extent' then
        match decEq child child' with
        | isTrue same => isTrue (by rw [sameExtent, same])
        | isFalse different => isFalse (by intro equal; cases equal; exact different rfl)
      else isFalse (by intro equal; cases equal; exact sameExtent rfl)
  | .unknown, .value => isFalse nofun
  | .unknown, .block .. => isFalse nofun
  | .unknown, .uniform .. => isFalse nofun
  | .value, .unknown => isFalse nofun
  | .value, .block .. => isFalse nofun
  | .value, .uniform .. => isFalse nofun
  | .block .., .unknown => isFalse nofun
  | .block .., .value => isFalse nofun
  | .block .., .uniform .. => isFalse nofun
  | .uniform .., .unknown => isFalse nofun
  | .uniform .., .value => isFalse nofun
  | .uniform .., .block .. => isFalse nofun

def decEqList : (left right : List Descriptor) → Decidable (left = right)
  | [], [] => isTrue rfl
  | [], _ :: _ => isFalse nofun
  | _ :: _, [] => isFalse nofun
  | child :: rest, child' :: rest' =>
      match decEq child child', decEqList rest rest' with
      | isTrue same, isTrue sameRest => isTrue (by rw [same, sameRest])
      | isFalse different, _ => isFalse (by intro equal; cases equal; exact different rfl)
      | _, isFalse different => isFalse (by intro equal; cases equal; exact different rfl)

end

instance : DecidableEq Descriptor := decEq

/-- The number of direct children. -/
def size : Descriptor → Nat
  | .unknown => 0
  | .value => 0
  | .block _ children => children.length
  | .uniform extent _ => extent.size

def child : Descriptor → Nat → Except Fault Descriptor
  | .unknown, _ => .error .childOfPlaceholder
  | .value, _ => .error .childOfPlaceholder
  | .block _ children, index => Index.entry children index
  | .uniform extent child, index =>
      if index < extent.size then .ok child else .error (.uniformChild index extent.size)

/-- The node found by following the entries of a path. -/
def descendant (node : Descriptor) : List Nat → Except Fault Descriptor
  | [] => .ok node
  | index :: path => do
      let child ← node.child index
      child.descendant path

/-- All children in order. -/
def children : Descriptor → List Descriptor
  | .unknown => []
  | .value => []
  | .block _ children => children
  | .uniform extent child => List.replicate extent.size child

def isLeaf : Descriptor → Bool
  | .unknown => true
  | .value => true
  | _ => false

def isValue : Descriptor → Bool
  | .value => true
  | _ => false

/-- Whether the container is a single block of scalars. -/
def isFlat : Descriptor → Bool
  | .unknown => false
  | .value => false
  | .block _ children => children.all isValue
  | .uniform _ child => child.isValue

mutual

/-- The number of scalars, unless an unknown part leaves it open. -/
def scalarCount : Descriptor → Except Fault (Option Nat)
  | .unknown => .ok none
  | .value => .ok (some 1)
  | .block _ children => scalarCountFrom 0 children
  | .uniform extent child => do
      match ← child.scalarCount with
      | none => .ok none
      | some count => do
          let product ← Index.mul extent.size count
          .ok (some product)

/-- Adds the counts of the children to `total`, up to the first open one. -/
def scalarCountFrom (total : Nat) : List Descriptor → Except Fault (Option Nat)
  | [] => .ok (some total)
  | child :: rest => do
      match ← child.scalarCount with
      | none => .ok none
      | some count => do
          let sum ← Index.add total count
          scalarCountFrom sum rest

end

mutual

/-- The length of the longest path into the tree. -/
def depth : Descriptor → Nat
  | .unknown => 0
  | .value => 0
  | .block _ children => 1 + depthOfAll children
  | .uniform _ child => 1 + child.depth

def depthOfAll : List Descriptor → Nat
  | [] => 0
  | child :: rest => max child.depth (depthOfAll rest)

end

mutual

/-- Whether two descriptors have the same structural type.  Children of arrays
and of vectors are alike among themselves, so the first one stands for all, and
dynamic sizes are no part of the type. -/
def sameType : Descriptor → Descriptor → Bool
  | .unknown, .unknown => true
  | .value, .value => true
  | .block .tuple left, .block .tuple right =>
      left.length == right.length && sameTypes left right
  | .block .array left, .block .array right =>
      left.length == right.length && sameFirstType left right
  | .block .vector left, .block .vector right => sameFirstType left right
  | .uniform (.static size) left, .uniform (.static size') right =>
      size == size' && left.sameType right
  | .uniform (.dynamic _) left, .uniform (.dynamic _) right => left.sameType right
  | _, _ => false

/-- Compares two lists entry by entry, over the shorter of them. -/
def sameTypes : List Descriptor → List Descriptor → Bool
  | left :: restLeft, right :: restRight => left.sameType right && sameTypes restLeft restRight
  | _, _ => true

def sameFirstType : List Descriptor → List Descriptor → Bool
  | left :: _, right :: _ => left.sameType right
  | _, _ => true

end

/-- Whether every child has the type of the first one. -/
def homogeneous : List Descriptor → Bool
  | [] => true
  | first :: rest => rest.all first.sameType

/-- A block of the given children: an array if they are alike, else a tuple. -/
def ofChildren (children : List Descriptor) : Descriptor :=
  if homogeneous children then .block .array children else .block .tuple children

/-- A dynamic sequence of children, which have to be alike. -/
def vectorOf (children : List Descriptor) : Except Fault Descriptor :=
  if homogeneous children then .ok (.block .vector children) else .error .unlikeVectorChildren

def uniformArray (size : Nat) (child : Descriptor) : Descriptor := .uniform (.static size) child

def uniformVector (size : Nat) (child : Descriptor) : Descriptor := .uniform (.dynamic size) child

def flatArray (size : Nat) : Descriptor := uniformArray size .value

def flatVector (size : Nat) : Descriptor := uniformVector size .value

mutual

def text : Descriptor → String
  | .unknown => "Unknown"
  | .value => "Value"
  | .block .tuple children => "Tuple(" ++ Text.separated ", " (texts children) ++ ")"
  | .block .array children => "Array[" ++ Text.separated ", " (texts children) ++ "]"
  | .block .vector children => "Vector[" ++ Text.separated ", " (texts children) ++ "]"
  | .uniform (.static size) child =>
      "UniformArray<" ++ child.text ++ "; " ++ toString size ++ ">"
  | .uniform (.dynamic size) child =>
      "UniformVector<" ++ child.text ++ ">(" ++ toString size ++ ")"

def texts : List Descriptor → List String
  | [] => []
  | child :: rest => child.text :: texts rest

end

end Descriptor

end DofNumbering
