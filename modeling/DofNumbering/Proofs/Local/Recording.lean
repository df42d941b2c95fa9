import DofNumbering.Proofs.Local.Moving
import Mathlib.Data.Set.Basic

namespace DofNumbering

/-! What a finished change has written into a buffer.

Nothing is said about changes that a fault stops, so no number has to be an index.  A
node records its places if each of its children records its own ones, as far as these
agree on what is recorded.
-/

namespace Change

variable {σ α β : Type} {state after : σ} {result : β} {rest : α → Change σ β}

theorem of_bind_eq_ok {change : Change σ α} (ran : (change >>= rest) state = .ok result after) :
    ∃ value middle, change state = .ok value middle ∧ rest value middle = .ok result after := by
  change EStateM.bind change rest state = _ at ran
  unfold EStateM.bind at ran
  split at ran
  · rename_i value middle done
    exact ⟨value, middle, done, ran⟩
  · contradiction

theorem of_lift_eq_ok {checked : Except Fault α}
    (ran : ((liftM checked : Change σ α) >>= rest) state = .ok result after) :
    ∃ value, checked = .ok value ∧ rest value state = .ok result after := by
  cases checked with
  | ok value => exact ⟨value, rfl, ran⟩
  | error fault => contradiction

end Change

/-- Unless a fault stops it, the change writes `final place` at each of the places, and
nothing elsewhere. -/
def Records (change : Change Buffer Unit) (places : Set Nat) (final : Nat → MultiIndex) : Prop :=
  ∀ buffer after : Buffer, change buffer = .ok () after →
    (∀ place ∈ places, after[place]? = some (final place)) ∧
    ∀ place, place ∉ places → after[place]? = buffer[place]?

namespace Buffer

variable {change : MultiIndex → Except Fault MultiIndex} {buffer after : Buffer}

theorem of_update {place : Nat} (ran : update change place buffer = .ok () after) :
    ∃ old new, buffer[place]? = some old ∧ change old = .ok new ∧
      after[place]? = some new ∧ ∀ other, other ≠ place → after[other]? = buffer[other]? := by
  unfold update at ran
  split at ran
  · contradiction
  · rename_i old found
    have inBounds := (Array.getElem?_eq_some_iff.mp found).1
    split at ran
    · rename_i new done
      obtain rfl := (EStateM.Result.ok.inj ran).2
      exact ⟨old, new, found, done, Array.getElem?_setIfInBounds_self_of_lt inBounds,
        fun other different => Array.getElem?_setIfInBounds_ne (Ne.symm different)⟩
    · contradiction

theorem of_forM_update {places : List Nat} (distinct : places.Nodup)
    (ran : places.forM (update change) buffer = .ok () after) :
    (∀ place ∈ places, ∃ old new, buffer[place]? = some old ∧ change old = .ok new ∧
      after[place]? = some new) ∧
    ∀ place, place ∉ places → after[place]? = buffer[place]? := by
  induction places generalizing buffer with
  | nil =>
      obtain rfl := (EStateM.Result.ok.inj ran).2
      exact ⟨fun _ inNone => absurd inNone List.not_mem_nil, fun _ _ => rfl⟩
  | cons first rest ih =>
      obtain ⟨fresh, distinctRest⟩ := List.nodup_cons.mp distinct
      obtain ⟨_, middle, here, ranRest⟩ := Change.of_bind_eq_ok ran
      obtain ⟨old, new, found, done, written, others⟩ := of_update here
      obtain ⟨changed, unchanged⟩ := ih distinctRest ranRest
      refine ⟨fun place inPlaces => ?_, fun place absent => ?_⟩
      · rcases List.mem_cons.mp inPlaces with rfl | inRest
        · exact ⟨old, new, found, done, (unchanged _ fresh).trans written⟩
        · have other : place ≠ first := fun same => fresh (same ▸ inRest)
          rw [← others place other]
          exact changed place inRest
      · obtain ⟨other, notInRest⟩ := not_or.mp (List.mem_cons.not.mp absent)
        rw [unchanged place notInRest, others place other]

end Buffer

namespace Records

variable {change next write : Change Buffer Unit} {places places' : Set Nat}
  {index final : Nat → MultiIndex} {node : LocalNode}

theorem nothing (none : ∀ place, place ∉ places) : Records (pure ()) places final := by
  intro buffer after ran
  obtain rfl := (EStateM.Result.ok.inj ran).2
  exact ⟨fun place inNone => absurd inNone (none place), fun _ _ => rfl⟩

/-- The second change may write over the first one, but then it writes the same. -/
theorem andThen (first : Records change places final) (second : Records next places' final) :
    Records (do change; next) (places ∪ places') final := by
  intro buffer after ran
  obtain ⟨_, middle, here, ranNext⟩ := Change.of_bind_eq_ok ran
  obtain ⟨written, untouched⟩ := first buffer middle here
  obtain ⟨writtenNext, untouchedNext⟩ := second middle after ranNext
  refine ⟨fun place inEither => ?_, fun place outside => ?_⟩
  · by_cases inNext : place ∈ places'
    · exact writtenNext place inNext
    · rw [untouchedNext place inNext, written place (inEither.resolve_right inNext)]
  · obtain ⟨notHere, notInNext⟩ := not_or.mp outside
    rw [untouchedNext place notInNext, untouched place notHere]

theorem forM {items : List Nat} {step : Nat → Change Buffer Unit} {slot : Nat → Nat}
    (each : ∀ item ∈ items, Records (step item) {slot item} final) :
    Records (items.forM step) {place | place ∈ items.map slot} final := by
  induction items with
  | nil => exact nothing (fun _ => List.not_mem_nil)
  | cons item rest ih =>
      have both := (each item List.mem_cons_self).andThen
        (ih (fun other inRest => each other (List.mem_cons_of_mem _ inRest)))
      have same : {place | place ∈ (item :: rest).map slot} =
          {slot item} ∪ {place | place ∈ rest.map slot} := Set.ext fun _ => List.mem_cons
      exact same ▸ both

/-- Indices that have been recorded are turned into others, each once. -/
theorem writeChild {merge : Except Fault (MultiIndex → Except Fault MultiIndex)}
    (distinct : node.places.Nodup) (records : Records write {place | place ∈ node.places} index)
    (changes : ∀ change, merge = .ok change → ∀ place ∈ node.places, ∀ merged,
      change (index place) = .ok merged → merged = final place) :
    Records (writeChild write merge node) {place | place ∈ node.places} final := by
  intro buffer after ran
  obtain ⟨_, middle, wrote, ranMerge⟩ := Change.of_bind_eq_ok ran
  obtain ⟨change, merges, ranList⟩ := Change.of_lift_eq_ok ranMerge
  obtain ⟨places, listed, ranUpdates⟩ := Change.of_lift_eq_ok ranList
  obtain ⟨-, rfl⟩ := LocalNode.localIndices_eq_ok_iff.mp listed
  obtain ⟨written, untouched⟩ := records buffer middle wrote
  obtain ⟨changed, unchanged⟩ := Buffer.of_forM_update distinct ranUpdates
  refine ⟨fun place inTree => ?_, fun place outside => ?_⟩
  · obtain ⟨old, new, found, done, entry⟩ := changed place inTree
    obtain rfl : index place = old := Option.some.inj ((written place inTree).symm.trans found)
    rw [entry, changes change merges place inTree new done]
  · rw [unchanged place outside, untouched place outside]

theorem writeChildren {write : (child : Nat) → LocalNode → Change Buffer Unit}
    {merge : (child : Nat) → Except Fault (MultiIndex → Except Fault MultiIndex)}
    {nodes : List LocalNode} (first : Nat)
    (each : ∀ i node, nodes[i]? = some node →
      Records (DofNumbering.writeChild (write (first + i) node) (merge (first + i)) node)
        {place | place ∈ node.places} final) :
    Records (Basis.writeChildren write merge first nodes)
      {place | place ∈ nodes.flatMap LocalNode.places} final := by
  induction nodes generalizing first with
  | nil => exact nothing (fun _ => List.not_mem_nil)
  | cons node rest ih =>
      have eachRest : ∀ (i : Nat) (other : LocalNode), rest[i]? = some other →
          Records (DofNumbering.writeChild (write (first + 1 + i) other) (merge (first + 1 + i))
            other) {place | place ∈ other.places} final := by
        intro i other found
        simpa only [Nat.add_assoc, Nat.add_comm 1] using each (i + 1) other found
      have both := (each 0 node rfl).andThen (ih (first + 1) eachRest)
      have same : {place | place ∈ (node :: rest).flatMap LocalNode.places} =
          {place | place ∈ node.places} ∪ {place | place ∈ rest.flatMap LocalNode.places} :=
        Set.ext fun _ => by rw [List.flatMap_cons]; exact List.mem_append
      rw [writeChildren_cons, same]
      exact both

end Records

end DofNumbering
