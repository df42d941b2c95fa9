import DofNumbering.MultiIndex

namespace DofNumbering

/-! How deep serialized values are, and what reading back means.

Readers of trees are given the number of lists and objects that may still be open.  A value
that is written out is read back if its serialized form needs no more than that.
-/

namespace Json

mutual

/-- The largest number of lists and objects that are open at one place. -/
def nesting : Json → Nat
  | .null => 0
  | .bool _ => 0
  | .number _ => 0
  | .text _ => 0
  | .array items => nestingOfItems items + 1
  | .object members => nestingOfMembers members + 1

def nestingOfItems : List Json → Nat
  | [] => 0
  | item :: rest => max item.nesting (nestingOfItems rest)

def nestingOfMembers : List (String × Json) → Nat
  | [] => 0
  | (_, value) :: rest => max value.nesting (nestingOfMembers rest)

end

/-- What is written is read back unless it is nested too deeply, and then it is refused.  What
is read, in whatever form, can be written out and read back. -/
structure ReadsBack {α : Type} (toJson : α → Json) (ofJson? : Json → Option α)
    (bounded : α → Prop) : Prop where
  written : ∀ value, bounded value →
    ofJson? (toJson value) = if (toJson value).nesting ≤ maxNesting then some value else none
  normalised : ∀ json value, ofJson? json = some value → ofJson? (toJson value) = some value

variable {α : Type} {toJson : α → Json} {read? : Json → Option α} {values : List α} {json : Json}
  {room number : Nat}

theorem nestingOfItems_le_iff {items : List Json} :
    nestingOfItems items ≤ room ↔ ∀ item ∈ items, item.nesting ≤ room := by
  induction items with
  | nil => simp [nestingOfItems]
  | cons item rest ih => rw [nestingOfItems, Nat.max_le, ih, List.forall_mem_cons]

theorem nestingOfItems_map_le_iff : nestingOfItems (values.map toJson) ≤ room ↔
    ∀ value ∈ values, (toJson value).nesting ≤ room :=
  nestingOfItems_le_iff.trans List.forall_mem_map

/-- A list is read back if each of its values is, and refused if one of them is. -/
theorem mapM_map_of_each (each : ∀ value ∈ values,
      read? (toJson value) = if (toJson value).nesting ≤ room then some value else none) :
    (values.map toJson).mapM read? =
      if nestingOfItems (values.map toJson) ≤ room then some values else none := by
  induction values with
  | nil => rfl
  | cons value rest ih =>
      obtain ⟨first, others⟩ := List.forall_mem_cons.mp each
      rw [List.map_cons, List.mapM_cons, first, ih others]
      simp only [nestingOfItems, Nat.max_le]
      by_cases fits : (toJson value).nesting ≤ room
      · by_cases restFits : nestingOfItems (rest.map toJson) ≤ room
        · simp [fits, restFits]
        · simp [fits, restFits]
      · simp [fits]

/-- A node is read if its parts are; it adds a number of levels to theirs. -/
theorem map_readable {β : Type} (build : α → β) (value : α) (nested levels : Nat) :
    (if nested ≤ room then some value else none).map build =
      if nested + levels ≤ room + levels then some (build value) else none := by
  by_cases fits : nested ≤ room
  · rw [if_pos fits, if_pos (Nat.add_le_add_right fits levels), Option.map_some]
  · rw [if_neg fits, if_neg (fun deeper => fits (Nat.le_of_add_le_add_right deeper)),
      Option.map_none]

/-- What holds of every single value that is read holds of all values of a list. -/
theorem forall_of_mapM {items : List Json} {holds : α → Prop}
    (read : items.mapM read? = some values)
    (each : ∀ item value, read? item = some value → holds value) :
    ∀ value ∈ values, holds value := by
  induction items generalizing values with
  | nil =>
      cases read
      exact List.forall_mem_nil _
  | cons item rest ih =>
      rw [List.mapM_cons] at read
      obtain ⟨value, first, read⟩ := Option.bind_eq_some_iff.mp read
      obtain ⟨others, restRead, read⟩ := Option.bind_eq_some_iff.mp read
      cases read
      exact List.forall_mem_cons.mpr ⟨each item value first, ih restRead⟩

theorem lt_limit_of_index? (read : json.index? = some number) : number < Index.limit := by
  unfold index? at read
  split at read
  · split at read
    · cases read
      assumption
    · cases read
  · cases read

theorem lt_limit_of_member? {name : String} {members : List (String × Json)}
    (read : (member? name members).bind index? = some number) : number < Index.limit := by
  obtain ⟨json, -, read⟩ := Option.bind_eq_some_iff.mp read
  exact lt_limit_of_index? read

end Json

namespace MultiIndex

/-- The entries are representable. -/
def Bounded (index : MultiIndex) : Prop := ∀ entry ∈ index, entry < Index.limit

theorem nestingOfItems_map_nat (index : MultiIndex) :
    Json.nestingOfItems (index.map Json.nat) = 0 :=
  Nat.le_zero.mp (Json.nestingOfItems_map_le_iff.mpr (fun _ _ => Nat.le_refl 0))

theorem ofJson?_toJson {index : MultiIndex} (bounded : index.Bounded) :
    ofJson? index.toJson = some index := by
  have each : ∀ entry ∈ index, (Json.nat entry).index? =
      if (Json.nat entry).nesting ≤ 0 then some entry else none :=
    fun entry inIndex => Json.index?_nat (bounded entry inIndex)
  change (index.map Json.nat).mapM Json.index? = some index
  rw [Json.mapM_map_of_each each, nestingOfItems_map_nat, if_pos (Nat.le_refl 0)]

theorem reads_back : Json.ReadsBack toJson ofJson? Bounded where
  written index bounded := by
    have flat : index.toJson.nesting = 1 := congrArg (· + 1) (nestingOfItems_map_nat index)
    rw [flat, if_pos (by decide), ofJson?_toJson bounded]
  normalised json index read := by
    cases json with
    | array items =>
        exact ofJson?_toJson (Json.forall_of_mapM read (fun _ _ => Json.lt_limit_of_index?))
    | _ => cases read

end MultiIndex

end DofNumbering
