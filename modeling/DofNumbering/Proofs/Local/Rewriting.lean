import DofNumbering.Proofs.Built
import DofNumbering.Proofs.Local.Moving
import Mathlib.Data.Set.Lattice

namespace DofNumbering

/-! Indices that do not depend on what the buffer held before.

A leaf writes whole indices, and a node only changes those that its children have
written.  So two runs on buffers of the same size stop at the same fault or end
with the same indices at the places of the tree.  Nothing is said here about which
indices these are, and the numbers need not be indices.
-/

/-- Two buffers of the given size that have the same entries at the held places. -/
structure Buffer.AgreeAt (size : Nat) (held : Set Nat) (left right : Buffer) : Prop where
  leftSize : left.size = size
  rightSize : right.size = size
  entries : ∀ place ∈ held, left[place]? = right[place]?

theorem Buffer.AgreeAt.set {size : Nat} {held : Set Nat} {left right : Buffer}
    (agree : AgreeAt size held left right) (place : Nat) (new : MultiIndex) :
    AgreeAt size (held ∪ {place}) (left.setIfInBounds place new)
      (right.setIfInBounds place new) := by
  refine ⟨by simp [agree.leftSize], by simp [agree.rightSize], fun other inHeld => ?_⟩
  by_cases here : place = other
  · simp [Array.getElem?_setIfInBounds, here, agree.leftSize, agree.rightSize]
  · rw [Array.getElem?_setIfInBounds_ne here, Array.getElem?_setIfInBounds_ne here]
    exact agree.entries other (inHeld.resolve_right (Ne.symm here))

/-- Two runs that end with agreeing buffers or that were stopped by the same fault. -/
def Matching {α : Type} (size : Nat) (held : Set Nat)
    (run run' : EStateM.Result Fault Buffer α) : Prop :=
  (∃ value left right, run = .ok value left ∧ run' = .ok value right ∧
    Buffer.AgreeAt size held left right) ∨
  ∃ fault left right, run = .error fault left ∧ run' = .error fault right

/-- Buffers that agree at the needed places agree at the written ones, too, after the change. -/
def Rewrites {α : Type} (change : Change Buffer α) (needed written : Set Nat) : Prop :=
  ∀ size held left right, needed ⊆ held → Buffer.AgreeAt size held left right →
    Matching size (held ∪ written) (change left) (change right)

namespace Rewrites

variable {α β : Type} {change : Change Buffer α} {rest : α → Change Buffer β}
  {needed needed' written written' : Set Nat}

theorem mono (rewrites : Rewrites change needed written) (more : needed ⊆ needed')
    (fewer : written' ⊆ written) : Rewrites change needed' written' := by
  intro size held left right enough agree
  rcases rewrites size held left right (more.trans enough) agree with
    ⟨value, left, right, run, run', agree⟩ | stopped
  · refine .inl ⟨value, left, right, run, run', { agree with entries := fun place inHeld => ?_ }⟩
    exact agree.entries place (Set.union_subset_union_right _ fewer inHeld)
  · exact .inr stopped

theorem pure (value : α) : Rewrites (Pure.pure value) needed ∅ := by
  intro size held left right enough agree
  rw [Set.union_empty]
  exact .inl ⟨value, left, right, rfl, rfl, agree⟩

theorem bind (first : Rewrites change needed written)
    (next : ∀ value, Rewrites (rest value) (needed ∪ written) written') :
    Rewrites (change >>= rest) needed (written ∪ written') := by
  intro size held left right enough agree
  change Matching _ _ (EStateM.bind change rest left) (EStateM.bind change rest right)
  rcases first size held left right enough agree with
    ⟨value, middle, middle', run, run', agree⟩ | ⟨fault, middle, middle', run, run'⟩
  · rw [← Set.union_assoc]
    simpa only [EStateM.bind, run, run'] using
      next value size _ middle middle' (Set.union_subset_union_left _ enough) agree
  · simp only [EStateM.bind, run, run']
    exact .inr ⟨fault, middle, middle', rfl, rfl⟩

/-- A fault that does not depend on the buffer stops both runs. -/
theorem lift {result : Except Fault α}
    (next : ∀ value, result = .ok value → Rewrites (rest value) needed written) :
    Rewrites ((liftM result : Change Buffer α) >>= rest) needed written := by
  intro size held left right enough agree
  cases result with
  | ok value => exact next value rfl size held left right enough agree
  | error fault => exact .inr ⟨fault, left, right, rfl, rfl⟩

/-- An index can be changed where the buffers agree. -/
theorem update (change : MultiIndex → Except Fault MultiIndex) (place : Nat) :
    Rewrites (Buffer.update change place) {place} {place} := by
  intro size held left right enough agree
  have same := agree.entries place (enough rfl)
  cases found : left[place]? with
  | none => exact .inr ⟨.outOfBounds, left, right, by simp [Buffer.update, found],
      by simp [Buffer.update, ← same, found]⟩
  | some old =>
      rw [found] at same
      cases done : change old with
      | error fault => exact .inr ⟨fault, left, right, by simp [Buffer.update, found, done],
          by simp [Buffer.update, ← same, done]⟩
      | ok new => exact .inl ⟨(), _, _, Buffer.update_of_ok found done,
          Buffer.update_of_ok same.symm done, agree.set place new⟩

/-- An index that does not depend on the old one can be written anywhere. -/
theorem update_const (result : Except Fault MultiIndex) (place : Nat) :
    Rewrites (Buffer.update (fun _ => result) place) ∅ {place} := by
  intro size held left right enough agree
  by_cases inBounds : place < size
  · have found := Array.getElem?_eq_getElem (agree.leftSize.symm ▸ inBounds)
    have found' := Array.getElem?_eq_getElem (agree.rightSize.symm ▸ inBounds)
    cases result with
    | error fault => exact .inr ⟨fault, left, right, by simp [Buffer.update, found],
        by simp [Buffer.update, found']⟩
    | ok new => exact .inl ⟨(), _, _, Buffer.update_of_ok found rfl,
        Buffer.update_of_ok found' rfl, agree.set place new⟩
  · have missing : left[place]? = none := Array.getElem?_eq_none (by rw [agree.leftSize]; omega)
    have missing' : right[place]? = none := Array.getElem?_eq_none (by rw [agree.rightSize]; omega)
    exact .inr ⟨.outOfBounds, left, right, by simp [Buffer.update, missing],
      by simp [Buffer.update, missing']⟩

theorem forM {items : List β} {step : β → Change Buffer Unit} {written : β → Set Nat}
    (each : ∀ item ∈ items, Rewrites (step item) needed (written item)) :
    Rewrites (items.forM step) needed (⋃ item ∈ items, written item) := by
  induction items with
  | nil => exact (pure ()).mono subset_rfl (by simp)
  | cons item items ih =>
      have others := ih (fun other inItems => each other (List.mem_cons_of_mem _ inItems))
      refine ((each item List.mem_cons_self).bind (fun _ =>
        others.mono Set.subset_union_left subset_rfl)).mono subset_rfl ?_
      simp

/-- Indices that have been written are turned into others. -/
theorem writeChild {write : Change Buffer Unit} {node : LocalNode}
    {merge : Except Fault (MultiIndex → Except Fault MultiIndex)}
    (rewrites : Rewrites write ∅ {place | place ∈ node.places}) :
    Rewrites (writeChild write merge node) ∅ {place | place ∈ node.places} := by
  refine (rewrites.bind (fun _ => (?_ : Rewrites _ _ ∅))).mono subset_rfl Set.subset_union_left
  refine lift (fun change _ => lift (fun listed isListed => ?_))
  obtain ⟨-, rfl⟩ := LocalNode.localIndices_eq_ok_iff.mp isListed
  have each : ∀ place ∈ node.places,
      Rewrites (Buffer.update change place) {place | place ∈ node.places} ∅ := fun place inTree =>
    (update change place).mono (Set.singleton_subset_iff.mpr inTree) (Set.empty_subset _)
  exact (forM each).mono Set.subset_union_right (Set.empty_subset _)

theorem writeChildren {write : (child : Nat) → LocalNode → Change Buffer Unit}
    {merge : (child : Nat) → Except Fault (MultiIndex → Except Fault MultiIndex)}
    (rewrites : ∀ child node, Rewrites (write child node) ∅ {place | place ∈ node.places})
    (first : Nat) (nodes : List LocalNode) :
    Rewrites (Basis.writeChildren write merge first nodes) ∅
      {place | place ∈ nodes.flatMap LocalNode.places} := by
  induction nodes generalizing first with
  | nil => exact (pure ()).mono subset_rfl (by simp)
  | cons node rest ih =>
      rw [writeChildren_cons]
      refine ((rewrites first node).writeChild.bind (fun _ =>
        (ih (first + 1)).mono (Set.empty_subset _) subset_rfl)).mono subset_rfl ?_
      intro place inNodes
      simpa using inNodes

end Rewrites

theorem LagrangeBasis.rewrites (basis : LagrangeBasis) (node : LocalNode) :
    Rewrites (basis.indices node) ∅ {place | place ∈ node.places} := by
  refine .lift (fun leaf isLeaf => ?_)
  cases node with
  | inner kind children size => simp [LocalNode.expectLeaf] at isLeaf
  | leaf other =>
      obtain rfl : other = leaf := Except.ok.inj isLeaf
      have each : ∀ j ∈ List.range other.size,
          Rewrites (basis.writeIndex other j) ∅ {other.offset + j * other.stride} := by
        intro j _
        refine .lift (fun position found => ?_)
        obtain ⟨-, -, rfl⟩ := LeafNode.localIndex_eq_ok_iff.mp found
        exact .update_const _ _
      refine (Rewrites.forM each).mono subset_rfl (fun place inLeaf => ?_)
      obtain ⟨j, below, rfl⟩ : ∃ j < other.size, other.offset + j * other.stride = place := by
        simpa [LocalNode.places, LocalNode.leaves, LeafNode.places] using inLeaf
      exact Set.mem_biUnion (List.mem_range.mpr below) rfl

/-- What a built basis writes for a tree does not depend on what the buffer held before. -/
theorem Built.rewrites {grid : GridView} {least : Nat} {basis : Basis}
    (built : Built grid least basis) (node : LocalNode) :
    Rewrites (basis.indices node) ∅ {place | place ∈ node.places} := by
  induction built generalizing node with
  | lagrange _ => exact LagrangeBasis.rewrites _ node
  | power merging exponent _ _ ih =>
      refine .lift (fun children isPower => .lift (fun childSize _ => ?_))
      cases node with
      | leaf leaf => simp [LocalNode.expectPower] at isPower
      | inner kind others size =>
          cases kind with
          | composite => simp [LocalNode.expectPower] at isPower
          | power =>
              obtain rfl : others = children := Except.ok.inj isPower
              rw [LocalNode.places_inner]
              exact .writeChildren (fun _ child => ih child) 0 others
  | @composite blocked members basis created _ ih =>
      refine .lift (fun children isComposite => ?_)
      cases node with
      | leaf leaf => simp [LocalNode.expectComposite] at isComposite
      | inner kind others size =>
          cases kind with
          | power => simp [LocalNode.expectComposite] at isComposite
          | composite =>
              obtain rfl : others = children := Except.ok.inj isComposite
              rw [LocalNode.places_inner]
              refine .writeChildren (fun child node => .lift (fun member found => ?_)) 0 others
              cases CompositeBasis.create_eq_ok created
              exact ih member (members.mem_of_member found) node
  | tagged _ _ ih => exact ih node

end DofNumbering
