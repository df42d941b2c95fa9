import DofNumbering.Fault
import DofNumbering.Merging
import DofNumbering.Text

namespace DofNumbering

/-! Symbolic descriptions of basis trees.

Descriptions are equal if they describe the same tree, whatever grid the bases
live on.
-/

inductive Description where
  | lagrange (order : Nat)
  /-- `exponent` copies of one child. -/
  | power (child : Description) (exponent : Nat) (merging : Merging)
  | composite (children : List Description) (merging : Merging)
deriving Repr, Inhabited

namespace Description

mutual

def decEq : (left right : Description) → Decidable (left = right)
  | .lagrange order, .lagrange order' =>
      if same : order = order' then isTrue (by rw [same])
      else isFalse (by intro equal; cases equal; exact same rfl)
  | .power child exponent merging, .power child' exponent' merging' =>
      match decEq child child' with
      | isFalse different => isFalse (by intro equal; cases equal; exact different rfl)
      | isTrue same =>
          if sameRest : exponent = exponent' ∧ merging = merging' then
            isTrue (by rw [same, sameRest.1, sameRest.2])
          else isFalse (by intro equal; cases equal; exact sameRest ⟨rfl, rfl⟩)
  | .composite children merging, .composite children' merging' =>
      match decEqList children children' with
      | isFalse different => isFalse (by intro equal; cases equal; exact different rfl)
      | isTrue same =>
          if sameRest : merging = merging' then isTrue (by rw [same, sameRest])
          else isFalse (by intro equal; cases equal; exact sameRest rfl)
  | .lagrange .., .power .. => isFalse nofun
  | .lagrange .., .composite .. => isFalse nofun
  | .power .., .lagrange .. => isFalse nofun
  | .power .., .composite .. => isFalse nofun
  | .composite .., .lagrange .. => isFalse nofun
  | .composite .., .power .. => isFalse nofun

def decEqList : (left right : List Description) → Decidable (left = right)
  | [], [] => isTrue rfl
  | [], _ :: _ => isFalse nofun
  | _ :: _, [] => isFalse nofun
  | child :: rest, child' :: rest' =>
      match decEq child child', decEqList rest rest' with
      | isTrue same, isTrue sameRest => isTrue (by rw [same, sameRest])
      | isFalse different, _ => isFalse (by intro equal; cases equal; exact different rfl)
      | _, isFalse different => isFalse (by intro equal; cases equal; exact different rfl)

end

instance : DecidableEq Description := decEq

/-- A power node that is numbered flat and lexicographically. -/
def flatPower (child : Description) (exponent : Nat) : Description :=
  .power child exponent .flatLexicographic

/-- A composite node that is numbered flat and lexicographically. -/
def flatComposite (children : List Description) : Except Fault Description :=
  if children.isEmpty then .error .emptyComposite
  else .ok (.composite children .flatLexicographic)

/-- The composite of two descriptions. -/
def pair (left right : Description) : Description :=
  .composite [left, right] .flatLexicographic

/-- Leaves have nothing to merge and stay as they are. -/
def withBlocked (blocked : Bool) : Description → Description
  | .lagrange order => .lagrange order
  | .power child exponent merging => .power child exponent { merging with blocked }
  | .composite children merging => .composite children { merging with blocked }

def withLayout (layout : Layout) : Description → Description
  | .lagrange order => .lagrange order
  | .power child exponent merging => .power child exponent { merging with layout }
  | .composite children merging => .composite children { merging with layout }

def numChildren : Description → Nat
  | .lagrange _ => 0
  | .power _ exponent _ => exponent
  | .composite children _ => children.length

def child? : Description → Nat → Option Description
  | .lagrange _, _ => none
  | .power child exponent _, index => if index < exponent then some child else none
  | .composite children _, index => children[index]?

/-- The node at a path of child numbers. -/
def get? (node : Description) : List Nat → Option Description
  | [] => some node
  | index :: path => do
      let child ← node.child? index
      child.get? path

def isLeaf : Description → Bool
  | .lagrange _ => true
  | _ => false

mutual

def text : Description → String
  | .lagrange order => "Lagrange<" ++ toString order ++ ">"
  | .power child exponent _ =>
      if exponent = 1 then child.text else "[" ++ child.text ++ "]^" ++ toString exponent
  | .composite children _ => "(" ++ Text.separated " * " (texts children) ++ ")"

def texts : List Description → List String
  | [] => []
  | child :: rest => child.text :: texts rest

end

end Description

end DofNumbering
