import DofNumbering.Basis
import DofNumbering.Proofs.Tiling

namespace DofNumbering

/-! Writing the indices of a tree into a buffer.

A change fills an arithmetic progression of places if it writes exactly there,
whatever the buffer held before.  A node fills its places if each of its children
fills its own ones, as far as these agree on what is written.
-/

namespace Change

variable {σ α β : Type} {state next : σ} {value : α}

theorem bind_of_ok {change : Change σ α} {rest : α → Change σ β}
    (done : change state = .ok value next) : (change >>= rest) state = rest value next := by
  change EStateM.bind change rest state = _
  simp only [EStateM.bind, done]

end Change

/-- The change writes `index j` at `offset + j * stride` for each `j` below the
size, and nothing elsewhere. -/
def Fills (change : Change Buffer Unit) (offset stride size : Nat) (index : Nat → MultiIndex) :
    Prop :=
  ∀ buffer : Buffer, (∀ j < size, offset + j * stride < buffer.size) →
    ∃ after : Buffer, change buffer = .ok () after ∧ after.size = buffer.size ∧
      (∀ j < size, after[offset + j * stride]? = some (index j)) ∧
      ∀ place, (∀ j < size, place ≠ offset + j * stride) → after[place]? = buffer[place]?

/-- The places of an arithmetic progression, each of them once. -/
def Enumerates (places : List Nat) (offset stride size : Nat) : Prop :=
  places.Nodup ∧ ∀ place, place ∈ places ↔ ∃ j < size, place = offset + j * stride

namespace Buffer

variable {change : MultiIndex → Except Fault MultiIndex} {old new : MultiIndex} {place : Nat}
  {buffer : Buffer}

theorem update_of_ok (found : buffer[place]? = some old) (done : change old = .ok new) :
    update change place buffer = .ok () (buffer.setIfInBounds place new) := by
  simp only [update, found, done]

theorem forM_update {places : List Nat} (final : Nat → MultiIndex) (distinct : places.Nodup)
    (changes : ∀ place ∈ places, ∃ old, buffer[place]? = some old ∧ change old = .ok (final place)) :
    ∃ after : Buffer, places.forM (update change) buffer = .ok () after ∧
      after.size = buffer.size ∧ (∀ place ∈ places, after[place]? = some (final place)) ∧
      ∀ place, place ∉ places → after[place]? = buffer[place]? := by
  induction places generalizing buffer with
  | nil => exact ⟨buffer, rfl, rfl, by simp, by simp⟩
  | cons first rest ih =>
      obtain ⟨fresh, distinctRest⟩ := List.nodup_cons.mp distinct
      obtain ⟨old, found, done⟩ := changes first (by simp)
      have inBounds : first < buffer.size := (Array.getElem?_eq_some_iff.mp found).1
      have changesRest : ∀ place ∈ rest, ∃ old,
          (buffer.setIfInBounds first (final first))[place]? = some old ∧
            change old = .ok (final place) := by
        intro place member
        have other : first ≠ place := fun same => fresh (same ▸ member)
        rw [Array.getElem?_setIfInBounds_ne other]
        exact changes place (by simp [member])
      obtain ⟨after, run, size, written, unchanged⟩ := ih distinctRest changesRest
      refine ⟨after, ?_, by simpa using size, ?_, ?_⟩
      · exact (Change.bind_of_ok (update_of_ok found done)).trans run
      · intro place member
        rcases List.mem_cons.mp member with rfl | inRest
        · rw [unchanged _ fresh, Array.getElem?_setIfInBounds_self_of_lt inBounds]
        · exact written place inRest
      · intro place absent
        rw [List.mem_cons, not_or] at absent
        rw [unchanged place absent.2, Array.getElem?_setIfInBounds_ne (Ne.symm absent.1)]

end Buffer

namespace Fills

variable {write : Change Buffer Unit} {offset stride size : Nat} {index final : Nat → MultiIndex}

/-- Turning the written indices into others, each once, fills the same places. -/
theorem merge {change : MultiIndex → Except Fault MultiIndex} {places : List Nat}
    (positive : 0 < stride) (fills : Fills write offset stride size index)
    (enumerated : Enumerates places offset stride size)
    (changes : ∀ j < size, change (index j) = .ok (final j)) :
    Fills (do write; places.forM (Buffer.update change)) offset stride size final := by
  intro buffer room
  obtain ⟨middle, run, sameSize, written, unchanged⟩ := fills buffer room
  have position : ∀ j, (offset + j * stride - offset) / stride = j := fun j => by
    rw [Nat.add_sub_cancel_left, Nat.mul_div_cancel _ positive]
  obtain ⟨after, run', sameSize', written', unchanged'⟩ := Buffer.forM_update
    (fun place => final ((place - offset) / stride)) enumerated.1 (by
      intro place member
      obtain ⟨j, below, rfl⟩ := (enumerated.2 place).mp member
      rw [position]
      exact ⟨index j, written j below, changes j below⟩)
  refine ⟨after, ?_, sameSize'.trans sameSize, ?_, ?_⟩
  · exact (Change.bind_of_ok run).trans run'
  · intro j below
    rw [written' _ ((enumerated.2 _).mpr ⟨j, below, rfl⟩), position]
  · intro place absent
    have notListed : place ∉ places := fun member => by
      obtain ⟨j, below, same⟩ := (enumerated.2 place).mp member
      exact absent j below same
    rw [unchanged' place notListed, unchanged place absent]

theorem forM_range {step : Nat → Change Buffer Unit} (positive : 0 < stride)
    (each : ∀ j < size, ∀ buffer : Buffer, offset + j * stride < buffer.size →
      step j buffer = .ok () (buffer.setIfInBounds (offset + j * stride) (index j))) :
    Fills ((List.range size).forM step) offset stride size index := by
  intro buffer room
  induction size with
  | zero => exact ⟨buffer, rfl, rfl, by simp, by simp⟩
  | succ size ih =>
      obtain ⟨middle, run, sameSize, written, unchanged⟩ :=
        ih (fun j below => each j (by omega)) (fun j below => room j (by omega))
      have inBounds : offset + size * stride < middle.size := by
        rw [sameSize]
        exact room size (by omega)
      have later : ∀ j < size, offset + size * stride ≠ offset + j * stride := fun j below equal =>
        Nat.ne_of_gt below (Nat.eq_of_mul_eq_mul_right positive (Nat.add_left_cancel equal))
      have split : (List.range (size + 1)).forM step = (do
          (List.range size).forM step
          [size].forM step) := by
        rw [List.range_succ]
        exact List.forM_append
      refine ⟨middle.setIfInBounds (offset + size * stride) (index size), ?_, ?_, ?_, ?_⟩
      · rw [split]
        refine (Change.bind_of_ok run).trans ?_
        exact Change.bind_of_ok (each size (by omega) middle inBounds)
      · rw [Array.size_setIfInBounds, sameSize]
      · intro j below
        rcases Nat.lt_succ_iff_lt_or_eq.mp below with earlier | rfl
        · rw [Array.getElem?_setIfInBounds_ne (later j earlier), written j earlier]
        · exact Array.getElem?_setIfInBounds_self_of_lt inBounds
      · intro place absent
        rw [Array.getElem?_setIfInBounds_ne (Ne.symm (absent size (by omega))),
          unchanged place (fun j below => absent j (by omega))]

end Fills

/-- The part of writing the indices of the children of a node that concerns one child. -/
def writeChild (write : Change Buffer Unit)
    (merge : Except Fault (MultiIndex → Except Fault MultiIndex)) (node : LocalNode) :
    Change Buffer Unit := do
  write
  let change ← merge
  let places ← node.localIndices
  places.forM (Buffer.update change)

theorem writeChild_fills {write : Change Buffer Unit} {node : LocalNode}
    {merge : Except Fault (MultiIndex → Except Fault MultiIndex)}
    {change : MultiIndex → Except Fault MultiIndex} {places : List Nat}
    {offset stride size : Nat} {index final : Nat → MultiIndex}
    (positive : 0 < stride) (fills : Fills write offset stride size index)
    (merges : merge = .ok change) (listed : node.localIndices = .ok places)
    (enumerated : Enumerates places offset stride size)
    (changes : ∀ j < size, change (index j) = .ok (final j)) :
    Fills (writeChild write merge node) offset stride size final := by
  subst merges
  intro buffer room
  obtain ⟨after, run, results⟩ := fills.merge positive enumerated changes buffer room
  refine ⟨after, ?_, results⟩
  rw [← run, writeChild, listed]
  rfl

section Children

variable {write : (child : Nat) → LocalNode → Change Buffer Unit}
  {merge : (child : Nat) → Except Fault (MultiIndex → Except Fault MultiIndex)}

theorem writeChildren_cons (child : Nat) (node : LocalNode) (rest : List LocalNode) :
    Basis.writeChildren write merge child (node :: rest) = (do
      writeChild (write child node) (merge child) node
      Basis.writeChildren write merge (child + 1) rest) := by
  simp only [Basis.writeChildren, writeChild, bind_assoc]

/-- Where the children agree with `target` on what they write, so does the node. -/
theorem writeChildren_of_fills {nodes : List LocalNode} (first : Nat)
    (offset stride size : Nat → Nat) (target : Nat → MultiIndex) {buffer : Buffer}
    (fills : ∀ i node, nodes[i]? = some node →
      Fills (writeChild (write (first + i) node) (merge (first + i)) node)
        (offset i) (stride i) (size i) (fun j => target (offset i + j * stride i)))
    (room : ∀ i < nodes.length, ∀ j < size i, offset i + j * stride i < buffer.size) :
    ∃ after : Buffer, Basis.writeChildren write merge first nodes buffer = .ok () after ∧
      after.size = buffer.size ∧
      (∀ i < nodes.length, ∀ j < size i,
        after[offset i + j * stride i]? = some (target (offset i + j * stride i))) ∧
      ∀ place, (∀ i < nodes.length, ∀ j < size i, place ≠ offset i + j * stride i) →
        after[place]? = buffer[place]? := by
  induction nodes generalizing first offset stride size buffer with
  | nil => exact ⟨buffer, rfl, rfl, by simp, by simp⟩
  | cons node rest ih =>
      obtain ⟨middle, run, sameSize, written, unchanged⟩ :=
        fills 0 node rfl buffer (room 0 (by simp))
      obtain ⟨after, run', sameSize', written', unchanged'⟩ := ih (first + 1)
        (fun i => offset (i + 1)) (fun i => stride (i + 1)) (fun i => size (i + 1))
        (by
          intro i node' found
          simpa only [Nat.add_assoc, Nat.add_comm 1] using fills (i + 1) node' found)
        (by
          intro i below j within
          rw [sameSize]
          exact room (i + 1) (by simpa using below) j within)
      refine ⟨after, ?_, sameSize'.trans sameSize, ?_, ?_⟩
      · rw [writeChildren_cons]
        exact (Change.bind_of_ok run).trans run'
      · intro i below j within
        cases i with
        | succ i => exact written' i (by simpa using below) j within
        | zero =>
            -- a later child may write there too, but then it writes the same
            by_cases later : ∃ i < rest.length, ∃ j' < size (i + 1),
                offset 0 + j * stride 0 = offset (i + 1) + j' * stride (i + 1)
            · obtain ⟨i, inRest, j', within', same⟩ := later
              rw [same]
              exact written' i inRest j' within'
            · rw [unchanged' _ (fun i inRest j' within' same =>
                later ⟨i, inRest, j', within', same⟩)]
              exact written j within
      · intro place absent
        rw [unchanged' place (fun i inRest => absent (i + 1) (by simpa using inRest))]
        exact unchanged place (absent 0 (by simp))

/-- If the places of the children tile those of the node, the node fills its own. -/
theorem writeChildren_fills {sizes : List Nat} {slot : Nat → Nat → Nat} {nodes : List LocalNode}
    {offset stride : Nat} {childOffset childStride : Nat → Nat} {index : Nat → MultiIndex}
    (tiling : Tiling sizes slot) (sameLength : nodes.length = sizes.length)
    (positive : 0 < stride)
    (places : ∀ i < sizes.length, ∀ j,
      childOffset i + j * childStride i = offset + slot i j * stride)
    (fills : ∀ i node size, nodes[i]? = some node → sizes[i]? = some size →
      Fills (writeChild (write i node) (merge i) node) (childOffset i) (childStride i) size
        (fun j => index (slot i j))) :
    Fills (Basis.writeChildren write merge 0 nodes) offset stride sizes.sum index := by
  intro buffer room
  have position : ∀ m, (offset + m * stride - offset) / stride = m := fun m => by
    rw [Nat.add_sub_cancel_left, Nat.mul_div_cancel _ positive]
  have inSizes : ∀ {i}, i < nodes.length → ∃ size, sizes[i]? = some size := fun below =>
    ⟨_, List.getElem?_eq_getElem (sameLength ▸ below)⟩
  obtain ⟨after, run, sameSize, written, unchanged⟩ := writeChildren_of_fills 0
    childOffset childStride (fun i => sizes[i]?.getD 0)
    (fun place => index ((place - offset) / stride))
    (by
      intro i node found
      have below : i < nodes.length := (List.getElem?_eq_some_iff.mp found).1
      obtain ⟨size, foundSize⟩ := inSizes below
      simp only [places i (sameLength ▸ below), position, foundSize, Nat.zero_add,
        Option.getD_some]
      exact fills i node size found foundSize)
    (by
      intro i below j within
      obtain ⟨size, foundSize⟩ := inSizes below
      rw [places i (sameLength ▸ below)]
      exact room _ (tiling.lt_sum foundSize (by simpa [foundSize] using within)))
  refine ⟨after, run, sameSize, ?_, ?_⟩
  · intro m below
    obtain ⟨i, size, j, foundSize, within, rfl⟩ := tiling.onto below
    have inRange : i < sizes.length := (List.getElem?_eq_some_iff.mp foundSize).1
    rw [← places i inRange, written i (by omega) j (by simpa [foundSize] using within),
      places i inRange, position]
  · intro place absent
    refine unchanged place (fun i below j within => ?_)
    obtain ⟨size, foundSize⟩ := inSizes below
    rw [places i (sameLength ▸ below)]
    exact absent _ (tiling.lt_sum foundSize (by simpa [foundSize] using within))

end Children

end DofNumbering
