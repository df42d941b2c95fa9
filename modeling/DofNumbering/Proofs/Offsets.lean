import DofNumbering.Flattener
import DofNumbering.Proofs.Built
import DofNumbering.Proofs.IndexTree.Sizes

namespace DofNumbering

/-! The offsets that a flattener counts and keeps.

All known offsets are those of the tree of the basis.  Counting more blocks keeps
this true, and so does flattening any index.
-/

/-- Entry `i` counts the whole indices in the blocks before block `i`, and the last
entry those in all blocks. -/
structure IndexTree.HasOffsets (tree : IndexTree) (offsets : Array Nat) : Prop where
  size : offsets.size = tree.count + 1
  entries : ∀ block ≤ tree.count, offsets[block]? = some (tree.before block)

/-- Every known stem is one of the tree, and its offsets are those of the subtree. -/
def Offsets.Of (known : Offsets) (tree : IndexTree) : Prop :=
  ∀ stem offsets, known.get? stem = some offsets →
    ∃ sub, tree.at? stem = some sub ∧ sub.HasOffsets offsets

/-- The sizes of a basis are those of a tree that is at most `depth` deep, and its whole
indices can be counted. -/
structure Basis.Countable (basis : Basis) (depth : Nat) (tree : IndexTree) : Prop where
  follows : tree.Follows basis.size
  bounded : ∀ stem sub, tree.at? stem = some sub → sub.count + 1 < Index.limit
  deep : ∀ index, tree.Whole index → index.length ≤ depth
  room : tree.total < Index.limit

/-- Right behind a beginning that leads to a node there is an entry that is too large to be
increased. -/
def IndexTree.Overflows (tree : IndexTree) : MultiIndex → Prop
  | [] => False
  | entry :: rest =>
      Index.limit ≤ entry + 1 ∨ entry < tree.count ∧ (tree.block entry).Overflows rest

/-- An operation gives a value with a property. -/
def Gives {α : Type} (holds : α → Prop) (run : Except Fault α) : Prop :=
  ∃ value, run = .ok value ∧ holds value

namespace Gives

variable {α β : Type} {value : α} {holds : α → Prop} {holds' : β → Prop} {run : Except Fault α}
  {rest : α → Except Fault β}

theorem ok (held : holds value) : Gives holds (.ok value) := ⟨value, rfl, held⟩

theorem bind (first : Gives holds run) (next : ∀ value, holds value → Gives holds' (rest value)) :
    Gives holds' (run >>= rest) := by
  obtain ⟨value, rfl, held⟩ := first
  exact next value held

end Gives

variable {basis : Basis} {tree sub : IndexTree} {known : Offsets} {stem : MultiIndex}
  {offsets : Array Nat} {depth : Nat}

theorem Offsets.of_empty : Offsets.Of ∅ tree := by
  intro stem offsets found
  simp at found

theorem Offsets.Of.insert (of : known.Of tree) (found : tree.at? stem = some sub)
    (hasOffsets : sub.HasOffsets offsets) : Offsets.Of (known.insert stem offsets) tree := by
  intro stem' offsets' found'
  by_cases same : stem = stem'
  · subst same
    obtain rfl : offsets = offsets' := by simpa using found'
    exact ⟨sub, found, hasOffsets⟩
  · have different : MultiIndex.compare stem stem' ≠ .eq := fun equal =>
      same (MultiIndex.compare_eq_eq_iff.mp equal)
    refine of stem' offsets' ?_
    simpa [Std.TreeMap.getElem?_insert, different] using found'

theorem IndexTree.before_le_total {block : Nat} (le : block ≤ tree.count) :
    tree.before block ≤ tree.total := by
  rcases Nat.eq_zero_or_pos tree.count with empty | nonempty
  · obtain rfl : block = 0 := by omega
    exact Nat.zero_le _
  · rw [total_of_count_pos nonempty]
    exact before_mono le

theorem Offsets.Of.hasOffsets (of : known.Of tree) (found : tree.at? stem = some sub)
    (stored : known.get? stem = some offsets) : sub.HasOffsets offsets := by
  obtain ⟨sub', found', hasOffsets⟩ := of stem offsets stored
  obtain rfl := Option.some.inj (found.symm.trans found')
  exact hasOffsets

theorem IndexTree.hasOffsets_of_count_zero (empty : sub.count = 0) : sub.HasOffsets #[0] where
  size := congrArg (· + 1) empty.symm
  entries block le := by
    obtain rfl : block = 0 := by omega
    rfl

theorem IndexTree.not_overflows_of_small {index : MultiIndex}
    (small : ∀ entry ∈ index, entry + 1 < Index.limit) : ¬ tree.Overflows index := by
  induction index generalizing tree with
  | nil => exact id
  | cons entry rest ih =>
      rintro (large | ⟨-, inRest⟩)
      · have := small entry List.mem_cons_self
        omega
      · exact ih (fun other inIndex => small other (List.mem_cons_of_mem _ inIndex)) inRest

/-- The entries of whole indices are so small that their offsets can be looked up. -/
theorem Basis.Countable.small (countable : basis.Countable depth tree) {index : MultiIndex}
    (whole : tree.Whole index) : ∀ entry ∈ index, entry + 1 < Index.limit := by
  intro entry inIndex
  obtain ⟨stem, rest, rfl⟩ := List.append_of_mem inIndex
  obtain ⟨sub, found⟩ := IndexTree.exists_at?_of_whole whole
  have inRange : entry < sub.count := ((IndexTree.whole_of_at? found).mp whole).1
  have bounded := countable.bounded stem sub found
  omega

namespace Flattener

/-- Counting the blocks below a node extends the offsets up to the last block. -/
theorem gives_blockOffsets {count : Nat → Offsets → Except Fault (Nat × Offsets)}
    (counts : ∀ block < sub.count, ∀ known : Offsets, known.Of tree → Gives
      (fun result => result.1 = (sub.block block).total ∧ result.2.Of tree) (count block known))
    (room : sub.total < Index.limit) {block remaining : Nat}
    (all : block + remaining = sub.count) (size : offsets.size = block + 1)
    (entries : ∀ earlier ≤ block, offsets[earlier]? = some (sub.before earlier))
    (of : known.Of tree) :
    Gives (fun result => sub.HasOffsets result.1 ∧ result.2.Of tree)
      (blockOffsets count block (sub.before block) remaining offsets known) := by
  induction remaining generalizing block offsets known with
  | zero =>
      obtain rfl : block = sub.count := by omega
      exact .ok ⟨⟨size, entries⟩, of⟩
  | succ remaining ih =>
      refine (counts block (by omega) known of).bind ?_
      rintro ⟨_, known'⟩ ⟨rfl, of'⟩
      have le : sub.before (block + 1) ≤ sub.total := IndexTree.before_le_total (by omega)
      rw [IndexTree.before_succ] at le
      have added : Index.add (sub.before block) (sub.block block).total =
          .ok (sub.before (block + 1)) := Index.add_eq_ok_iff.mpr ⟨by omega, IndexTree.before_succ⟩
      simp only [added, ok_bind]
      refine ih (by omega) (by rw [Array.size_push, size]) (fun earlier le => ?_) of'
      rw [Array.getElem?_push]
      split
      · rw [show earlier = block + 1 by omega]
      · exact entries earlier (by omega)

theorem gives_wholeIndices (countable : basis.Countable depth tree)
    {below : MultiIndex → Offsets → Except Fault (Array Nat × Offsets)}
    (found : tree.at? stem = some sub)
    (counts : Gives (fun result => sub.HasOffsets result.1 ∧ result.2.Of tree)
      (below stem known))
    (of : known.Of tree) :
    Gives (fun result => result.1 = sub.total ∧ result.2.Of tree)
      (wholeIndices basis below stem known) := by
  rw [wholeIndices, countable.follows stem sub found, ok_bind]
  rcases Nat.eq_zero_or_pos sub.count with empty | nonempty
  · rw [if_pos empty, ← IndexTree.total_of_count_zero empty]
    exact .ok ⟨rfl, of⟩
  · rw [if_neg (Nat.ne_of_gt nonempty)]
    refine counts.bind ?_
    rintro ⟨offsets, known'⟩ ⟨hasOffsets, of'⟩
    have last : offsets.back? = some (sub.before sub.count) := by
      rw [Array.back?_eq_getElem?, hasOffsets.size]
      exact hasOffsets.entries sub.count (Nat.le_refl _)
    simp only [last, Option.getD_some]
    exact .ok ⟨(IndexTree.total_of_count_pos nonempty).symm, of'⟩

/-- The offsets below a stem are counted or looked up; `height` bounds what can follow
the stem. -/
theorem gives_offsetsBelow (countable : basis.Countable depth tree) {height : Nat}
    (found : tree.at? stem = some sub)
    (bound : ∀ rest, sub.Whole rest → rest.length ≤ height) (of : known.Of tree) :
    Gives (fun result => sub.HasOffsets result.1 ∧ result.2.Of tree)
      (offsetsBelow basis height stem known) := by
  induction height generalizing stem sub known with
  | zero =>
      rw [offsetsBelow]
      cases stored : known.get? stem with
      | some offsets => exact .ok ⟨of.hasOffsets found stored, of⟩
      | none =>
          have empty : sub.count = 0 := by
            obtain ⟨rest, whole⟩ := sub.exists_whole
            obtain rfl := List.eq_nil_of_length_eq_zero (Nat.le_zero.mp (bound rest whole))
            exact whole
          have hasOffsets := IndexTree.hasOffsets_of_count_zero empty
          simp only [countable.follows stem sub found, ok_bind, if_pos empty]
          exact .ok ⟨hasOffsets, of.insert found hasOffsets⟩
  | succ height ih =>
      rw [offsetsBelow]
      cases stored : known.get? stem with
      | some offsets => exact .ok ⟨of.hasOffsets found stored, of⟩
      | none =>
          have counted : Index.add sub.count 1 = .ok (sub.count + 1) :=
            Index.add_eq_ok_iff.mpr ⟨countable.bounded stem sub found, rfl⟩
          simp only [countable.follows stem sub found, ok_bind, counted]
          have counts : ∀ block < sub.count, ∀ known : Offsets, known.Of tree →
              Gives (fun result => result.1 = (sub.block block).total ∧ result.2.Of tree)
                (wholeIndices basis (offsetsBelow basis height) (stem ++ [block]) known) := by
            intro block inRange known of
            have foundBlock := IndexTree.at?_push found inRange
            refine gives_wholeIndices countable foundBlock (ih foundBlock ?_ of) of
            intro rest whole
            exact Nat.le_of_succ_le_succ (bound (block :: rest) ⟨inRange, whole⟩)
          have room := Nat.lt_of_le_of_lt (IndexTree.total_le_of_at? found) countable.room
          have none : sub.before 0 = 0 := Finset.sum_range_zero _
          have blocks := gives_blockOffsets counts room (Nat.zero_add sub.count)
            (show (#[0] : Array Nat).size = 1 from rfl)
            (fun earlier le => by rw [Nat.le_zero.mp le, none]; rfl) of
          rw [none] at blocks
          refine blocks.bind ?_
          rintro ⟨offsets, known'⟩ ⟨hasOffsets, of'⟩
          exact .ok ⟨hasOffsets, of'.insert found hasOffsets⟩

theorem gives_flattenFrom (countable : basis.Countable depth tree) {rest : MultiIndex}
    {flat : Nat} (found : tree.at? stem = some sub) (fine : ¬ sub.Overflows rest)
    (room : flat + sub.total < Index.limit) (of : known.Of tree) :
    Gives (fun result => result.1 = (sub.rank? rest).map (flat + ·) ∧ result.2.Of tree)
      (flattenFrom basis depth stem rest flat known) := by
  induction rest generalizing stem sub flat known with
  | nil =>
      rw [flattenFrom, countable.follows stem sub found, ok_bind]
      refine .ok ⟨?_, of⟩
      rw [IndexTree.rank?]
      split <;> rfl
  | cons entry rest ih =>
      have bound : ∀ rest, sub.Whole rest → rest.length ≤ depth := by
        intro rest whole
        have deep := countable.deep _ ((IndexTree.whole_of_at? found).mpr whole)
        rw [List.length_append] at deep
        omega
      have next : Index.add entry 1 = .ok (entry + 1) :=
        Index.add_eq_ok_iff.mpr ⟨Nat.lt_of_not_le (fun large => fine (.inl large)), rfl⟩
      refine (gives_offsetsBelow countable found bound of).bind ?_
      rintro ⟨offsets, known'⟩ ⟨hasOffsets, of'⟩
      simp only [next, ok_bind, hasOffsets.size]
      by_cases inRange : entry < sub.count
      · have le := IndexTree.before_succ_le_total inRange
        have added : Index.add flat (sub.before entry) = .ok (flat + sub.before entry) :=
          Index.add_eq_ok_iff.mpr ⟨by omega, rfl⟩
        have inBlock := ih (IndexTree.at?_push found inRange)
          (fun inRest => fine (.inr ⟨inRange, inRest⟩))
          (show flat + sub.before entry + (sub.block entry).total < Index.limit by omega) of'
        rw [if_neg (by omega), Index.lookUp_eq_ok_iff.mpr (hasOffsets.entries entry (by omega)),
          ok_bind, added, ok_bind]
        simpa only [IndexTree.rank?, if_pos inRange, Option.map_map, Function.comp_def,
          Nat.add_assoc] using inBlock
      · rw [if_pos (by omega)]
        refine .ok ⟨?_, of'⟩
        simp only [IndexTree.rank?, if_neg inRange, Option.map_none]

/-- The flattener belongs to the basis and knows only offsets of its tree. -/
structure Knows (flattener : Flattener) (basis : Basis) (depth : Nat) (tree : IndexTree) :
    Prop where
  owner : flattener.basis = basis
  depth : flattener.depth = depth
  known : flattener.offsets.Of tree

theorem knows_create : (create basis depth).Knows basis depth tree := ⟨rfl, rfl, Offsets.of_empty⟩

variable {flattener : Flattener} {index : MultiIndex}

/-- A flattener of the basis gives ranks, and still knows only offsets of the tree. -/
theorem Knows.exists_flatten (knows : flattener.Knows basis depth tree)
    (countable : basis.Countable depth tree) (fine : ¬ tree.Overflows index) :
    ∃ next, flattener.flatten index = .ok (tree.rank? index, next) ∧
      next.Knows basis depth tree := by
  obtain ⟨rfl, rfl, known⟩ := knows
  have root : tree.at? [] = some tree := rfl
  obtain ⟨⟨_, offsets⟩, run, rfl, of⟩ := gives_flattenFrom countable root fine
    (by rw [Nat.zero_add]; exact countable.room) known
  refine ⟨{ flattener with offsets }, ?_, rfl, rfl, of⟩
  rw [flatten, run, ok_bind]
  simp

/-- The flatteners of a basis after some calls, successful or not. -/
inductive ReachedFrom (basis : Basis) : Flattener → Prop where
  | create : ReachedFrom basis (create basis)
  | flatten {flattener next : Flattener} {index : MultiIndex} {flat : Option Nat}
      (reached : ReachedFrom basis flattener) (small : ∀ entry ∈ index, entry + 1 < Index.limit)
      (run : flattener.flatten index = .ok (flat, next)) : ReachedFrom basis next

theorem ReachedFrom.knows (reached : flattener.ReachedFrom basis)
    (countable : basis.Countable basis.maxIndexLength tree) :
    flattener.Knows basis basis.maxIndexLength tree := by
  induction reached with
  | create => exact knows_create
  | flatten _ small run ih =>
      obtain ⟨next, run', knows⟩ :=
        ih.exists_flatten countable (IndexTree.not_overflows_of_small small)
      obtain ⟨-, rfl⟩ := Prod.mk.inj (Except.ok.inj (run.symm.trans run'))
      exact knows

end Flattener

end DofNumbering
