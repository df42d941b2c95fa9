import DofNumbering.Fault

namespace DofNumbering.Index

/-! Index arithmetic and list access that report a fault.

Indices are natural numbers below `limit`.  A result that is not one is an
`arithmetic` fault: nothing wraps around and nothing grows past the limit.

Memory is taken to suffice: no list is too long for it, and no operation stops for the
lack of it.  The one exception is a generated mesh, whose lists are made after `reserve`:
its vertices and cells can be numbered because they fit into memory.
-/

/-- The number of representable indices. -/
def limit : Nat := 18446744073709551616

def add (left right : Nat) : Except Fault Nat :=
  if left + right < limit then .ok (left + right) else .error .arithmetic

def mul (left right : Nat) : Except Fault Nat :=
  if left * right < limit then .ok (left * right) else .error .arithmetic

def div (left right : Nat) : Except Fault Nat :=
  if right = 0 then .error .arithmetic else .ok (left / right)

def mod (left right : Nat) : Except Fault Nat :=
  if right = 0 then .error .arithmetic else .ok (left % right)

/-- The number of bytes in the largest piece of memory. -/
def memory : Nat := 9223372036854775807

/-- Makes sure that memory can hold a number of entries of the given size in bytes. -/
def reserve (entries bytes : Nat) : Except Fault Unit :=
  if entries * bytes ≤ memory then .ok () else .error .capacity

/-- Adds the values of the items from the left, starting at `total`. -/
def sumFrom {α : Type} (value : α → Except Fault Nat) (total : Nat) : List α → Except Fault Nat
  | [] => .ok total
  | item :: rest => do
      let term ← value item
      let next ← add total term
      sumFrom value next rest

def sumOver {α : Type} (value : α → Except Fault Nat) (items : List α) : Except Fault Nat :=
  sumFrom value 0 items

/-- The entry at a position that has to exist. -/
def entry {α : Type} (items : List α) (position : Nat) : Except Fault α :=
  match items[position]? with
  | some item => .ok item
  | none => .error .outOfBounds

/-- The entry of a table at a position that has to exist. -/
def lookUp {α : Type} (table : Array α) (position : Nat) : Except Fault α :=
  match table[position]? with
  | some item => .ok item
  | none => .error .outOfBounds

/-- Visits `count` consecutive numbers from `first` on, stopping at the first failure. -/
def visit {ε σ : Type} (step : σ → Nat → Except ε σ) (first : Nat) : Nat → σ → Except ε σ
  | 0, state => .ok state
  | count + 1, state => do
      let next ← step state first
      visit step (first + 1) count next

/-- Puts the values at `count` consecutive numbers from `first` on in front of
the given ones, each before those of smaller numbers. -/
def collectOnto {ε α : Type} (value : Nat → Except ε α) (first : Nat) :
    Nat → List α → Except ε (List α)
  | 0, values => .ok values
  | count + 1, values => do
      let next ← value first
      collectOnto value (first + 1) count (next :: values)

/-- The values at `count` consecutive numbers from `first` on, up to the first failure. -/
def collect {ε α : Type} (value : Nat → Except ε α) (first count : Nat) : Except ε (List α) := do
  let values ← collectOnto value first count []
  .ok values.reverse

/-- A table of the given size that marks the numbers in a list. -/
def marks (size : Nat) (numbers : List Nat) : Array Bool :=
  numbers.foldl (fun marked number => marked.setIfInBounds number true) (Array.replicate size false)

variable {left right result : Nat}

theorem add_eq_ok_iff :
    add left right = .ok result ↔ left + right < limit ∧ result = left + right := by
  unfold add
  split <;> grind

theorem mul_eq_ok_iff :
    mul left right = .ok result ↔ left * right < limit ∧ result = left * right := by
  unfold mul
  split <;> grind

theorem entry_eq_ok_iff {α : Type} {items : List α} {position : Nat} {item : α} :
    entry items position = .ok item ↔ items[position]? = some item := by
  unfold entry
  split <;> grind

theorem lookUp_eq_ok_iff {α : Type} {table : Array α} {position : Nat} {item : α} :
    lookUp table position = .ok item ↔ table[position]? = some item := by
  unfold lookUp
  split <;> grind

end DofNumbering.Index
