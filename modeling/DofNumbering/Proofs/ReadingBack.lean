import DofNumbering.Proofs.Description.Serial
import DofNumbering.Proofs.Descriptor.Serial

namespace DofNumbering

/-! Trees and multi-indices read back what they write.

A reader admits a number of lists and objects that are open at one place.  A tree with
representable numbers is read back unless its serialized form goes deeper, and then it is refused.
Other spellings are never less deep than the one that is written, so whatever is read can be
written out and read back.
-/

section Nested

/-- A value inside of a number of tuples. -/
def Descriptor.nested : Nat → Descriptor
  | 0 => .value
  | depth + 1 => .block .tuple [nested depth]

theorem Descriptor.bounded_nested (depth : Nat) : (nested depth).Bounded := by
  induction depth with
  | zero => exact .value
  | succ depth ih => exact .block (List.forall_mem_singleton.mpr ih)

theorem Descriptor.nesting_nested (depth : Nat) : (nested depth).toJson.nesting = 2 * depth := by
  induction depth with
  | zero => rfl
  | succ depth ih =>
      rw [nested, nesting_block, List.map_singleton, Json.nestingOfItems, Json.nestingOfItems, ih,
        Nat.max_zero, Nat.mul_succ]

end Nested

/-- Fields in another order and without meaning, fields as a list, a case with null. -/
def Descriptor.mixedSpelling : Json :=
  .object [("UniformArray", .object [
    ("child", .object [("Tuple", .array [.object [("Value", .null)], .text "Unknown",
      .object [("UniformVector", .array [.nat 3, .text "Value"])]])]),
    ("note", .array [.array []]), ("size", .nat 2)])]

def Description.mixedSpelling : Json :=
  .object [("Composite", .object [
    ("layout", .object [("Interleaved", .null)]), ("blocked", .bool true), ("note", .null),
    ("children", .array [.object [("Power", .array [.object [("Lagrange", .array [.nat 2])],
      .nat 3, .bool false, .text "Lexicographic"])]])])]

theorem trees_read_back :
    Json.ReadsBack Descriptor.toJson Descriptor.ofJson? Descriptor.Bounded ∧
      Json.ReadsBack Description.toJson Description.ofJson? Description.Bounded ∧
      Json.ReadsBack MultiIndex.toJson MultiIndex.ofJson? MultiIndex.Bounded :=
  ⟨Descriptor.reads_back, Description.reads_back, MultiIndex.reads_back⟩

/-- The deepest tuples that are read back, and trees in mixed spellings. -/
theorem mixed_spellings_read_back :
    Descriptor.ofJson? (Descriptor.nested 63).toJson = some (Descriptor.nested 63) ∧
      (∃ node, Descriptor.ofJson? Descriptor.mixedSpelling = some node ∧
        Descriptor.ofJson? node.toJson = some node) ∧
      ∃ node, Description.ofJson? Description.mixedSpelling = some node ∧
        Description.ofJson? node.toJson = some node := by
  obtain ⟨descriptors, descriptions, -⟩ := trees_read_back
  refine ⟨?_, ⟨_, rfl, descriptors.normalised Descriptor.mixedSpelling _ rfl⟩,
    ⟨_, rfl, descriptions.normalised Description.mixedSpelling _ rfl⟩⟩
  rw [descriptors.written _ (Descriptor.bounded_nested 63), Descriptor.nesting_nested]
  rfl

/-- One tuple more goes too deep. -/
theorem nested_tuples_refused :
    (Descriptor.nested 64).Bounded ∧
      Descriptor.ofJson? (Descriptor.nested 64).toJson = none := by
  refine ⟨Descriptor.bounded_nested 64, ?_⟩
  rw [Descriptor.ofJson?, Descriptor.ofJsonWithin?_toJson (Descriptor.bounded_nested 64),
    Descriptor.nesting_nested]
  rfl

end DofNumbering
