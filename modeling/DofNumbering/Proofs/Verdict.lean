import DofNumbering.Basis.Adapted
import DofNumbering.Coverage
import DofNumbering.Proofs.Marks
import DofNumbering.Proofs.Offsets
import DofNumbering.Proofs.Rebinding
import DofNumbering.Proofs.Samples
import DofNumbering.Proofs.Traversal

namespace DofNumbering

/-! What the coverage check says about the indices of any basis.

All that is wrong with the indices of the elements is listed in the order of the
traversal, and the check refuses them with the first entry of the list.  Two
indices have the same rank only if they are equal, so the check does not miss a
repeated index and does not take another index for one.
-/

namespace Coverage

/-- What is wrong with the indices of an element; `before` has those of smaller local
index. -/
def indexViolations (flat : MultiIndex → Option Nat) (dimension element : Nat) :
    (before indices : List MultiIndex) → List CoverageError
  | _, [] => []
  | before, index :: rest =>
      (if (flat index).any (· < dimension) then [] else [.outOfBounds element index]) ++
        ((if index ∈ before then [.duplicate element index] else []) ++
          indexViolations flat dimension element (index :: before) rest)

/-- What is wrong with an element that has the given indices. -/
def elementViolations (flat : MultiIndex → Option Nat) (dimension maximum element : Nat)
    (indices : List MultiIndex) : List CoverageError :=
  (if maximum < indices.length then [.tooLarge element indices.length maximum] else []) ++
    indexViolations flat dimension element [] indices

/-- The numbers of degrees of freedom that no element has. -/
def missing (flat : MultiIndex → Option Nat) (dimension : Nat) (produced : List (List MultiIndex)) :
    List Nat :=
  (List.range dimension).filter (fun number => some number ∉ produced.flatten.map flat)

/-- All that is wrong with the indices of all elements, which are given by element. -/
def violations (flat : MultiIndex → Option Nat) (dimension maximum : Nat)
    (produced : List (List MultiIndex)) : List CoverageError :=
  produced.zipIdx.flatMap (fun pair => elementViolations flat dimension maximum pair.2 pair.1) ++
    if missing flat dimension produced = [] then []
    else [.uncovered (missing flat dimension produced) dimension]

/-- The report on indices with nothing wrong. -/
def report (dimension : Nat) (produced : List (List MultiIndex)) : Coverage where
  dimension := dimension
  numLocalIndices := (produced.map List.length).sum
  maxLocalSize := (produced.map List.length).foldl max 0

/-- The first violation, or else the report. -/
def verdict (flat : MultiIndex → Option Nat) (dimension maximum : Nat)
    (produced : List (List MultiIndex)) : Except (Failure CoverageError) Coverage :=
  match violations flat dimension maximum produced with
  | [] => .ok (report dimension produced)
  | first :: _ => refuse first

section Violations

variable {flat : MultiIndex → Option Nat} {dimension maximum element number : Nat}
  {before indices : List MultiIndex} {produced : List (List MultiIndex)}

theorem any_lt_iff {index : MultiIndex} :
    (flat index).any (· < dimension) = true ↔ ∃ number < dimension, flat index = some number := by
  cases flat index <;> simp

theorem indexViolations_eq_nil_iff : indexViolations flat dimension element before indices = [] ↔
    (∀ index ∈ indices, ∃ number < dimension, flat index = some number) ∧
      indices.Nodup ∧ ∀ index ∈ indices, index ∉ before := by
  induction indices generalizing before with
  | nil => simp [indexViolations]
  | cons index rest ih =>
      rw [indexViolations, List.append_eq_nil_iff, List.append_eq_nil_iff, ih, ite_eq_left_iff,
        ite_eq_right_iff, any_lt_iff, List.forall_mem_cons, List.forall_mem_cons, List.nodup_cons]
      simp only [List.cons_ne_nil, imp_false, not_not, List.mem_cons, not_or]
      constructor
      · rintro ⟨inBounds, isNew, inBoundsRest, distinct, apart⟩
        exact ⟨⟨inBounds, inBoundsRest⟩, ⟨fun inRest => (apart index inRest).1 rfl, distinct⟩, isNew,
          fun other inRest => (apart other inRest).2⟩
      · rintro ⟨⟨inBounds, inBoundsRest⟩, ⟨notInRest, distinct⟩, isNew, apart⟩
        exact ⟨inBounds, isNew, inBoundsRest, distinct, fun other inRest =>
          ⟨fun same => notInRest (same ▸ inRest), apart other inRest⟩⟩

theorem elementViolations_eq_nil_iff :
    elementViolations flat dimension maximum element indices = [] ↔ indices.length ≤ maximum ∧
      (∀ index ∈ indices, ∃ number < dimension, flat index = some number) ∧ indices.Nodup := by
  rw [elementViolations, List.append_eq_nil_iff, indexViolations_eq_nil_iff, ite_eq_right_iff]
  simp

theorem mem_missing_iff : number ∈ missing flat dimension produced ↔
    number < dimension ∧ ¬ ∃ indices ∈ produced, ∃ index ∈ indices, flat index = some number := by
  simp [missing]

/-- Nothing is wrong exactly with the indices that cover the numbering. -/
theorem violations_eq_nil_iff : violations flat dimension maximum produced = [] ↔
    (∀ indices ∈ produced, indices.length ≤ maximum) ∧
      (∀ indices ∈ produced, ∀ index ∈ indices, ∃ number < dimension, flat index = some number) ∧
      (∀ indices ∈ produced, indices.Nodup) ∧
      ∀ number < dimension, ∃ indices ∈ produced, ∃ index ∈ indices, flat index = some number := by
  have onElements : (∀ pair ∈ produced.zipIdx,
      elementViolations flat dimension maximum pair.2 pair.1 = []) ↔
      ∀ indices ∈ produced, indices.length ≤ maximum ∧
        (∀ index ∈ indices, ∃ number < dimension, flat index = some number) ∧ indices.Nodup := by
    simp only [elementViolations_eq_nil_iff]
    conv_rhs => rw [← List.zipIdx_map_fst 0 produced, List.forall_mem_map]
  have allFound : missing flat dimension produced = [] ↔
      ∀ number < dimension, ∃ indices ∈ produced, ∃ index ∈ indices, flat index = some number := by
    rw [List.eq_nil_iff_forall_not_mem]
    exact forall_congr' (fun number => by rw [mem_missing_iff, not_and, not_not])
  rw [violations, List.append_eq_nil_iff, List.flatMap_eq_nil_iff, onElements, ite_eq_left_iff,
    ← allFound]
  simp only [List.cons_ne_nil, imp_false, not_not, forall_and, and_assoc]

theorem verdict_eq_ok_iff {coverage : Coverage} :
    verdict flat dimension maximum produced = .ok coverage ↔
      coverage = report dimension produced ∧ violations flat dimension maximum produced = [] := by
  unfold verdict
  split
  · rename_i none
    simp [none, eq_comm]
  · rename_i some
    simp [some, refuse]

theorem exists_index_of_mem_indexViolations (distinct : indices.Nodup)
    (apart : ∀ index ∈ indices, index ∉ before) {violation : CoverageError}
    (found : violation ∈ indexViolations flat dimension element before indices) :
    ∃ index, violation = .outOfBounds element index := by
  induction indices generalizing before with
  | nil => exact absurd found List.not_mem_nil
  | cons index rest ih =>
      obtain ⟨notInRest, distinctRest⟩ := List.nodup_cons.mp distinct
      rw [indexViolations, if_neg (apart index List.mem_cons_self), List.nil_append,
        List.mem_append] at found
      rcases found with here | inRest
      · split at here
        · exact absurd here List.not_mem_nil
        · exact ⟨index, List.mem_singleton.mp here⟩
      · refine ih distinctRest (fun other inIndices => ?_) inRest
        rw [List.mem_cons, not_or]
        exact ⟨fun same => notInRest (same ▸ inIndices), apart other (List.mem_cons_of_mem _ inIndices)⟩

/-- Where no element has too many indices or one of them twice, an index without a number below
the dimension is refused as such. -/
theorem exists_verdict_eq_outOfBounds (bounded : ∀ indices ∈ produced, indices.length ≤ maximum)
    (distinct : ∀ indices ∈ produced, indices.Nodup)
    (outside : ¬ ∀ indices ∈ produced, ∀ index ∈ indices,
      ∃ number < dimension, flat index = some number) :
    ∃ element index, verdict flat dimension maximum produced = refuse (.outOfBounds element index) := by
  let onElements := produced.zipIdx.flatMap (fun pair =>
    elementViolations flat dimension maximum pair.2 pair.1)
  have each : ∀ violation ∈ onElements, ∃ element index, violation = .outOfBounds element index := by
    intro violation found
    obtain ⟨⟨indices, element⟩, onElement, here⟩ := List.mem_flatMap.mp found
    have inProduced := (List.mem_zipIdx' onElement).2 ▸ List.getElem_mem _
    rw [elementViolations, if_neg (Nat.not_lt.mpr (bounded _ inProduced)), List.nil_append] at here
    exact ⟨element, exists_index_of_mem_indexViolations (distinct _ inProduced)
      (fun _ _ => List.not_mem_nil) here⟩
  cases shape : onElements with
  | cons first others =>
      obtain ⟨element, index, rfl⟩ := each first (shape ▸ List.mem_cons_self)
      refine ⟨element, index, ?_⟩
      have violated : violations flat dimension maximum produced = .outOfBounds element index ::
          (others ++ if missing flat dimension produced = [] then []
            else [.uncovered (missing flat dimension produced) dimension]) :=
        congrArg (· ++ _) shape
      rw [verdict, violated]
  | nil =>
      refine absurd (fun indices inProduced => ?_) outside
      obtain ⟨element, found⟩ := List.mem_iff_getElem?.mp inProduced
      have noneHere := List.flatMap_eq_nil_iff.mp shape (indices, element)
        (List.mem_zipIdx_iff_getElem?.mpr found)
      exact (elementViolations_eq_nil_iff.mp noneHere).2.1

end Violations

/-- A check refuses the first violation, and gives a value with a property if there is
none.  Only if there are more local indices than can be counted it may stop instead. -/
inductive Finds {α : Type} (fits : Prop) (violations : List CoverageError) (holds : α → Prop) :
    Except (Failure CoverageError) α → Prop where
  | passed {value : α} (none : violations = []) (held : holds value) :
      Finds fits violations holds (.ok value)
  | refused {first : CoverageError} {others : List CoverageError}
      (some : violations = first :: others) : Finds fits violations holds (refuse first)
  | stopped (tooMany : ¬ fits) : Finds fits violations holds (.error (.fault .arithmetic))

namespace Finds

variable {α β : Type} {fits : Prop} {found found' : List CoverageError} {holds : α → Prop}
  {holds' : β → Prop} {run : Except (Failure CoverageError) α}
  {rest : α → Except (Failure CoverageError) β}

theorem bind (first : Finds fits found holds run)
    (next : ∀ value, holds value → Finds fits found' holds' (rest value)) :
    Finds fits (found ++ found') holds' (run >>= rest) := by
  cases first with
  | passed none held =>
      rw [none]
      exact next _ held
  | refused some => exact .refused (congrArg (· ++ found') some)
  | stopped tooMany => exact .stopped tooMany

theorem imp {holds' : α → Prop} (finds : Finds fits found holds run)
    (weaker : ∀ value, holds value → holds' value) : Finds fits found holds' run := by
  cases finds with
  | passed none held => exact .passed none (weaker _ held)
  | refused some => exact .refused some
  | stopped tooMany => exact .stopped tooMany

/-- Without a violation there is a value, or the check has stopped. -/
theorem eq_ok_or (finds : Finds fits [] holds run) :
    (∃ value, run = .ok value ∧ holds value) ∨ ¬ fits ∧ run = .error (.fault .arithmetic) := by
  cases finds with
  | passed _ held => exact .inl ⟨_, rfl, held⟩
  | refused some => contradiction
  | stopped tooMany => exact .inr ⟨tooMany, rfl⟩

theorem exists_eq_ok (finds : Finds fits [] holds run) (fit : fits) :
    ∃ value, run = .ok value ∧ holds value :=
  finds.eq_ok_or.resolve_right (fun stopped => stopped.1 fit)

theorem eq_verdict {flat : MultiIndex → Option Nat} {dimension maximum : Nat}
    {produced : List (List MultiIndex)} {holds : Coverage → Prop}
    {run : Except (Failure CoverageError) Coverage}
    (finds : Finds fits (violations flat dimension maximum produced) holds run)
    (reports : ∀ coverage, holds coverage → coverage = report dimension produced) (fit : fits) :
    run = verdict flat dimension maximum produced := by
  rw [verdict]
  cases finds with
  | passed none held => rw [none, reports _ held]
  | refused some => rw [some]
  | stopped tooMany => exact absurd fit tooMany

theorem eq_refuse {flat : MultiIndex → Option Nat} {dimension maximum : Nat}
    {produced : List (List MultiIndex)} {violation : CoverageError}
    (finds : Finds fits (violations flat dimension maximum produced) holds run) (fit : fits)
    (refused : verdict flat dimension maximum produced = refuse violation) :
    run = refuse violation := by
  rw [verdict] at refused
  cases finds with
  | passed none => exact absurd (none ▸ refused) nofun
  | refused some =>
      rw [some] at refused
      cases refused
      rfl
  | stopped tooMany => exact absurd fit tooMany

end Finds

section Runs

variable {basis : Basis} {tree : IndexTree} {depth dimension maximum element : Nat}

/-- If the numbers seen are the ranks of the indices before, a number is seen again only with
the same index. -/
theorem contains_iff_mem {seen : Std.TreeSet Nat} {before : List MultiIndex} {index : MultiIndex}
    {rank : Nat} (ranks : ∀ number, number ∈ seen ↔ some number ∈ before.map tree.rank?)
    (ranked : tree.rank? index = some rank) : seen.contains rank = true ↔ index ∈ before := by
  rw [← Std.TreeSet.mem_iff_contains, ranks, List.mem_map]
  constructor
  · rintro ⟨other, inBefore, same⟩
    exact IndexTree.rank?_injective same ranked ▸ inBefore
  · intro inBefore
    exact ⟨index, inBefore, ranked⟩

theorem finds_visitIndices (fits : Prop) (dimension element : Nat)
    (countable : basis.Countable depth tree) {before indices : List MultiIndex}
    (small : ∀ index ∈ indices, ∀ entry ∈ index, entry + 1 < Index.limit)
    {seen : Std.TreeSet Nat} {flattener : Flattener} (knows : flattener.Knows basis depth tree)
    (ranks : ∀ number, number ∈ seen ↔ some number ∈ before.map tree.rank?) :
    Finds fits (indexViolations tree.rank? dimension element before indices)
      (fun result => result.2.Knows basis depth tree ∧ ∀ number, number ∈ result.1 ↔
        some number ∈ before.map tree.rank? ∨ some number ∈ indices.map tree.rank?)
      (visitIndices dimension element indices seen flattener) := by
  induction indices generalizing before seen flattener with
  | nil => exact .passed rfl ⟨knows, by simpa using ranks⟩
  | cons index rest ih =>
      obtain ⟨next, run, knows'⟩ := knows.exists_flatten countable
        (IndexTree.not_overflows_of_small (small index List.mem_cons_self))
      rw [visitIndices, run, lift_ok, ok_bind, indexViolations]
      cases ranked : tree.rank? index with
      | none => exact .refused rfl
      | some rank =>
          simp only [Option.any_some, decide_eq_true_eq]
          by_cases inBounds : rank < dimension
          · rw [if_pos inBounds, if_neg (Nat.not_le_of_lt inBounds), List.nil_append]
            have repeated := contains_iff_mem ranks ranked
            by_cases again : index ∈ before
            · rw [if_pos again, if_pos (repeated.mpr again)]
              exact .refused rfl
            · rw [if_neg again, if_neg (again ∘ repeated.mp), List.nil_append]
              have ranks' : ∀ number, number ∈ seen.insert rank ↔
                  some number ∈ (index :: before).map tree.rank? := by
                intro number
                rw [Std.TreeSet.mem_insert, Std.LawfulEqCmp.compare_eq_iff_eq, ranks,
                  List.map_cons, List.mem_cons, ranked, Option.some.injEq, eq_comm]
              refine (ih (fun other inRest => small other (List.mem_cons_of_mem _ inRest)) knows'
                ranks').imp ?_
              rintro result ⟨knowsLast, members⟩
              refine ⟨knowsLast, fun number => ?_⟩
              rw [members, List.map_cons, List.map_cons, List.mem_cons, List.mem_cons]
              tauto
          · rw [if_neg inBounds, if_pos (Nat.le_of_not_lt inBounds)]
            exact .refused rfl

/-- What has been seen on the elements with the given indices. -/
structure Progress.Of (progress : Progress) (basis : Basis) (depth : Nat) (tree : IndexTree)
    (done : List (List MultiIndex)) : Prop where
  numLocalIndices : progress.numLocalIndices = (done.map List.length).sum
  maxLocalSize : progress.maxLocalSize = (done.map List.length).foldl max 0
  room : (done.map List.length).sum < Index.limit
  knows : progress.flattener.Knows basis depth tree
  hits : ∀ number, number ∈ progress.hits ↔ some number ∈ done.flatten.map tree.rank?

theorem Progress.Of.start : Progress.Of ⟨0, 0, .create basis depth, []⟩ basis depth tree [] where
  numLocalIndices := rfl
  maxLocalSize := rfl
  room := by decide
  knows := Flattener.knows_create
  hits number := by simp

variable {progress : Progress} {view : LocalView} {set : LocalIndexSet}
  {done produced : List (List MultiIndex)} {indices : List MultiIndex}

theorem finds_visitElement (countable : basis.Countable depth tree)
    (of : progress.Of basis depth tree done) (isElement : view.elementIndex = element)
    (sized : set.boundSize = .ok indices.length) (shown : set.indices = .ok indices)
    (small : ∀ index ∈ indices, ∀ entry ∈ index, entry + 1 < Index.limit)
    (room : fits → (done.map List.length).sum + indices.length < Index.limit) :
    Finds fits (elementViolations tree.rank? dimension maximum element indices)
      (fun next => next.Of basis depth tree (done ++ [indices]))
      (visitElement dimension maximum progress view set) := by
  rw [visitElement, sized, lift_ok, ok_bind, elementViolations]
  by_cases tooLarge : maximum < indices.length
  · rw [if_pos tooLarge, if_pos tooLarge, isElement]
    exact .refused rfl
  rw [if_neg tooLarge, if_neg tooLarge, Index.add, of.numLocalIndices]
  by_cases roomHere : (done.map List.length).sum + indices.length < Index.limit
  · rw [if_pos roomHere, lift_ok, ok_bind, shown, lift_ok, ok_bind, isElement, List.nil_append]
    have noneSeen : ∀ number, number ∈ (∅ : Std.TreeSet Nat) ↔
        some number ∈ ([] : List MultiIndex).map tree.rank? := by simp
    have visited := finds_visitIndices fits dimension element countable small of.knows noneSeen
    rw [← List.append_nil (indexViolations ..)]
    refine visited.bind ?_
    rintro ⟨seen, flattener⟩ ⟨knows, members⟩
    refine .passed rfl ⟨?_, ?_, ?_, knows, fun number => ?_⟩
    · simp
    · simp [of.maxLocalSize]
    · simpa using roomHere
    · rw [List.mem_append, Std.TreeSet.mem_toList, members, of.hits]
      simp [or_comm]
  · rw [if_neg roomHere]
    exact .stopped (fun fit => roomHere (room fit))

/-- The index set shows the indices, and it has as many of them as it says. -/
def ShowsList (pair : LocalView × LocalIndexSet) (indices : List MultiIndex) : Prop :=
  pair.2.boundSize = .ok indices.length ∧ pair.2.indices = .ok indices

open Traversal in
theorem finds_visit (dimension maximum : Nat) (countable : basis.Countable depth tree)
    {worker : Worker} {first : Nat} {elements : List Nat} {shown : List (LocalView × LocalIndexSet)}
    (visits : Visits worker elements shown) (all : elements = List.range' first produced.length)
    (shows : List.Forall₂ ShowsList shown produced)
    (small : ∀ indices ∈ produced, ∀ index ∈ indices, ∀ entry ∈ index, entry + 1 < Index.limit)
    (room : fits → ((done ++ produced).map List.length).sum < Index.limit)
    (of : progress.Of basis depth tree done) :
    Finds fits ((produced.zipIdx first).flatMap (fun pair =>
        elementViolations tree.rank? dimension maximum pair.2 pair.1))
      (fun final => final.Of basis depth tree (done ++ produced))
      (visit (visitElement dimension maximum) elements worker progress) := by
  induction visits generalizing produced first done progress with
  | nil =>
      cases shows
      exact .passed rfl (by rwa [List.append_nil])
  | @cons worker element _ view set _ bindsView bindsSet others ih =>
      cases shows with
      | @cons _ indices _ rest here later =>
          rw [List.length_cons, List.range'_succ] at all
          obtain ⟨rfl, allRest⟩ := List.cons.inj all
          have isElement : view.elementIndex = element := by
            obtain ⟨-, -, tree', -, rfl⟩ := LocalView.bind_eq_ok_iff.mp bindsView
            rfl
          rw [visit_cons bindsView bindsSet, List.zipIdx_cons, List.flatMap_cons]
          rw [← List.singleton_append, ← List.append_assoc] at room ⊢
          have roomHere : fits → (done.map List.length).sum + indices.length < Index.limit := by
            intro fit
            have roomAll := room fit
            rw [List.map_append, List.map_append, List.sum_append, List.sum_append] at roomAll
            exact Nat.lt_of_le_of_lt (Nat.le_add_right _ _) roomAll
          refine (finds_visitElement countable of isElement here.1 here.2
            (small indices List.mem_cons_self) roomHere).bind (fun next ofNext => ?_)
          exact ih allRest later (fun other inRest => small other (List.mem_cons_of_mem _ inRest))
            room ofNext

theorem unmarked_marks {hits : List Nat} :
    unmarked (Index.marks dimension hits) = (List.range dimension).filter (· ∉ hits) := by
  rw [unmarked, Index.size_marks]
  refine List.filter_congr (fun place inRange => ?_)
  rw [Index.getElem?_marks, if_pos (List.mem_range.mp inRange)]
  by_cases hit : place ∈ hits <;> simp [hit]

/-- The check of a basis that shows these indices on its elements.  It stops if it cannot count
them. -/
theorem finds_check (countable : basis.Countable depth tree)
    (counted : basis.dimension = .ok dimension) (sized : basis.maxNodeSize = .ok maximum)
    {shown : List (LocalView × LocalIndexSet)}
    (visits : Traversal.Visits (.create basis) (List.range (basis.grid.size 0)) shown)
    (shows : List.Forall₂ ShowsList shown produced)
    (small : ∀ indices ∈ produced, ∀ index ∈ indices, ∀ entry ∈ index, entry + 1 < Index.limit) :
    Finds ((produced.map List.length).sum < Index.limit)
      (violations tree.rank? dimension maximum produced)
      (fun coverage => coverage = report dimension produced ∧
        (produced.map List.length).sum < Index.limit)
      (check basis depth) := by
  have all : List.range (basis.grid.size 0) = List.range' 0 produced.length := by
    have length := visits.length_eq
    rw [List.length_range] at length
    rw [List.range_eq_range', length, shows.length_eq]
  rw [check, counted, lift_ok, ok_bind, sized, lift_ok, ok_bind]
  have start : Progress.Of ⟨0, 0, .create basis depth, []⟩ basis depth tree [] := .start
  have visited := finds_visit dimension maximum countable visits all shows small
    (fun room => by rwa [List.nil_append]) start
  rw [List.nil_append] at visited
  refine visited.bind (fun progress of => ?_)
  have unmarked : unmarked (Index.marks dimension progress.hits) =
      missing tree.rank? dimension produced := by
    rw [unmarked_marks, missing]
    exact List.filter_congr (fun number _ => decide_eq_decide.mpr (not_congr (of.hits number)))
  simp only [unmarked, List.isEmpty_iff]
  split
  · refine .passed rfl ⟨?_, of.room⟩
    rw [report, ← of.numLocalIndices, ← of.maxLocalSize]
  · exact .refused rfl

end Runs

end Coverage

/-- What a basis reports, truthful or not: a traversal shows these indices on its elements,
and no path stays within the sizes forever.  All numbers are so small that they can be
counted and looked up. -/
structure Basis.Reports (basis : Basis) (dimension maximum : Nat)
    (produced : List (List MultiIndex)) : Prop where
  counted : basis.dimension = .ok dimension
  bounded : basis.maxNodeSize = .ok maximum
  sizes : ∀ stem, MultiIndex.WithinSizes basis.size stem →
    ∃ size, basis.size stem = .ok size ∧ size + 1 < Index.limit
  finite : ∀ path : Nat → Nat, ∃ length,
    ¬ MultiIndex.WithinSizes basis.size ((List.range length).map path)
  total : {index | MultiIndex.Complete basis.size index}.ncard < Index.limit
  traversed :
    Traversal.forEach basis (fun shown _ set => shown ++ [(set.boundSize, set.indices)]) [] =
      .ok (produced.map (fun indices => (.ok indices.length, .ok indices)))
  entries : ∀ indices ∈ produced, ∀ index ∈ indices, ∀ entry ∈ index, entry + 1 < Index.limit
  locals : (produced.map List.length).sum < Index.limit

namespace Basis.Reports

variable {basis : Basis} {dimension maximum : Nat} {produced : List (List MultiIndex)}

theorem exists_countable (reports : basis.Reports dimension maximum produced) :
    ∃ (tree : IndexTree) (least : Nat), tree.Follows basis.size ∧
      ∀ depth, least ≤ depth → basis.Countable depth tree := by
  have sized : ∀ stem, MultiIndex.WithinSizes basis.size stem → ∃ size, basis.size stem = .ok size :=
    fun stem within => (reports.sizes stem within).imp (fun _ => And.left)
  obtain ⟨tree, follows⟩ := IndexTree.exists_follows sized reports.finite
  obtain ⟨least, bound⟩ := tree.exists_height
  refine ⟨tree, least, follows, fun depth enough => ⟨follows, fun stem sub found => ?_,
    fun index whole => (bound index whole).trans enough,
    IndexTree.ncard_complete follows ▸ reports.total⟩⟩
  obtain ⟨size, sized, small⟩ :=
    reports.sizes stem ((IndexTree.withinSizes_iff follows).mpr ⟨sub, found⟩)
  obtain rfl : size = sub.count := Except.ok.inj (sized.symm.trans (follows stem sub found))
  exact small

theorem exists_visits (reports : basis.Reports dimension maximum produced) :
    ∃ shown, Traversal.Visits (.create basis) (List.range (basis.grid.size 0)) shown ∧
      List.Forall₂ Coverage.ShowsList shown produced := by
  obtain ⟨shown, visits, values⟩ := Traversal.exists_visits_of_forEach reports.traversed
  rw [← List.forall₂_eq_eq_eq, List.forall₂_map_left_iff, List.forall₂_map_right_iff] at values
  exact ⟨shown, visits, values.flip.imp (fun pair indices same =>
    ⟨(Prod.mk.inj same).1.symm, (Prod.mk.inj same).2.symm⟩)⟩

end Basis.Reports

/-- The check of any basis with sizes of finite depth refuses the first violation in the
order of the traversal, and gives the report if there is none.  It compares the numbers
that the flattener gives, which are the numbers of complete indices before an index. -/
theorem check_finds_first_violation {basis : Basis} {dimension maximum : Nat}
    {produced : List (List MultiIndex)} (reports : basis.Reports dimension maximum produced) :
    ∃ (flat : MultiIndex → Option Nat) (least : Nat),
      (∀ index number, flat index = some number ↔ MultiIndex.Complete basis.size index ∧
        number = {other | MultiIndex.Complete basis.size other ∧
          MultiIndex.compare other index = .lt}.ncard) ∧
      ∀ depth, least ≤ depth →
        (∀ index : MultiIndex, (∀ entry ∈ index, entry + 1 < Index.limit) →
          ∃ next, (Flattener.create basis depth).flatten index = .ok (flat index, next)) ∧
        Coverage.check basis depth = Coverage.verdict flat dimension maximum produced ∧
        ∀ coverage, Coverage.check basis depth = .ok coverage ↔
          coverage = ⟨dimension, (produced.map List.length).sum,
            (produced.map List.length).foldl max 0⟩ ∧
          (∀ indices ∈ produced, indices.length ≤ maximum) ∧
          (∀ indices ∈ produced, ∀ index ∈ indices,
            ∃ number < dimension, flat index = some number) ∧
          (∀ indices ∈ produced, indices.Nodup) ∧
          ∀ number < dimension,
            ∃ indices ∈ produced, ∃ index ∈ indices, flat index = some number := by
  obtain ⟨tree, least, follows, countable⟩ := reports.exists_countable
  obtain ⟨shown, visits, shows⟩ := reports.exists_visits
  refine ⟨tree.rank?, least, fun index number => IndexTree.rank?_eq_some_iff follows,
    fun depth enough => ⟨fun index small => ?_, ?_⟩⟩
  · obtain ⟨next, run, -⟩ := Flattener.knows_create.exists_flatten (countable depth enough)
      (IndexTree.not_overflows_of_small small)
    exact ⟨next, run⟩
  · have finds := Coverage.finds_check (countable depth enough) reports.counted reports.bounded
      visits shows reports.entries
    have answered := finds.eq_verdict (fun _ => And.left) reports.locals
    refine ⟨answered, fun coverage => ?_⟩
    rw [answered, Coverage.verdict_eq_ok_iff, Coverage.violations_eq_nil_iff, Coverage.report]

namespace Sample

/-- A linear basis on one triangle that claims to have more degrees of freedom than its three,
and a bound on the local ones. -/
def overstated (extraDofs maximum : Nat) : Basis := corner.toBasis.adjusted extraDofs (some maximum) []

def overstatedTree (extraDofs : Nat) : IndexTree := .node (3 + extraDofs) (fun _ => .leaf)

variable {extraDofs maximum : Nat}

theorem overstated_size_nil (room : 3 + extraDofs < Index.limit) :
    (overstated extraDofs maximum).size [] = .ok (3 + extraDofs) := if_pos room

theorem overstated_size_cons (entry : Nat) (rest : List Nat) :
    (overstated extraDofs maximum).size (entry :: rest) = .ok 0 := rfl

theorem overstated_follows (room : 3 + extraDofs < Index.limit) :
    (overstatedTree extraDofs).Follows (overstated extraDofs maximum).size := by
  refine IndexTree.follows_node (overstated_size_nil room) (fun entry _ stem sub found => ?_)
  cases stem with
  | nil =>
      obtain rfl := Option.some.inj found
      exact overstated_size_cons entry []
  | cons entry rest => simp [IndexTree.at?, IndexTree.count] at found

theorem overstated_reports (room : 3 + extraDofs + 1 < Index.limit)
    (traversed : Traversal.forEach (overstated extraDofs maximum)
      (fun shown _ set => shown ++ [(set.boundSize, set.indices)]) [] =
      .ok [(.ok 3, .ok [[0], [1], [2]])]) :
    (overstated extraDofs maximum).Reports (3 + extraDofs) maximum [[[0], [1], [2]]] where
  counted := if_pos (Nat.lt_of_succ_lt room)
  bounded := rfl
  sizes stem _ := by
    cases stem with
    | nil => exact ⟨_, overstated_size_nil (Nat.lt_of_succ_lt room), room⟩
    | cons entry rest => exact ⟨0, overstated_size_cons entry rest, by decide⟩
  finite path := by
    refine ⟨2, fun within => ?_⟩
    obtain ⟨size, sized, below⟩ := within [path 0] (path 1) (List.prefix_refl _)
    obtain rfl : 0 = size := Except.ok.inj sized
    exact absurd below (Nat.not_lt_zero _)
  total := by
    have small := Nat.lt_of_succ_lt room
    rw [IndexTree.ncard_complete (overstated_follows small), overstatedTree, IndexTree.total]
    simpa [IndexTree.total] using small
  traversed := traversed
  entries := by decide
  locals := by decide

end Sample

/-- Two degrees of freedom are on no element. -/
theorem check_finds_first_violation_overstated : ∃ least, ∀ depth, least ≤ depth →
    Coverage.check (Sample.overstated 2 3) depth = refuse (.uncovered [3, 4] 5) := by
  have reports : (Sample.overstated 2 3).Reports 5 3 [[[0], [1], [2]]] :=
    Sample.overstated_reports (by decide) (by decide +kernel)
  obtain ⟨flat, least, numbers, checks⟩ := check_finds_first_violation reports
  have follows : (Sample.overstatedTree 2).Follows (Sample.overstated 2 3).size :=
    Sample.overstated_follows (by decide)
  obtain rfl : flat = (Sample.overstatedTree 2).rank? := funext fun index => Option.ext fun number =>
    (numbers index number).trans (IndexTree.rank?_eq_some_iff follows).symm
  refine ⟨least, fun depth enough => ?_⟩
  obtain ⟨-, answered, -⟩ := checks depth enough
  rw [answered]
  rfl

end DofNumbering
