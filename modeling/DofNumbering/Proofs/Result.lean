import DofNumbering.Index
import Mathlib.Algebra.GroupWithZero.Nat

namespace DofNumbering

/-! Sequencing of operations that may fail. -/

variable {ε α β : Type} {value : α} {result : β} {reason : ε} {first : Except ε α}
  {rest : α → Except ε β}

@[simp] theorem ok_bind : (.ok value : Except ε α) >>= rest = rest value := rfl

@[simp] theorem error_bind : (.error reason : Except ε α) >>= rest = .error reason := rfl

theorem bind_eq_ok_iff :
    first >>= rest = .ok result ↔ ∃ value, first = .ok value ∧ rest value = .ok result := by
  cases first <;> simp

@[simp] theorem lift_ok : (liftM (.ok value : Except Fault α) : Except (Failure ε) α) = .ok value :=
  rfl

theorem mapM_eq_ok {value : α → Except ε β} {result : α → β} {items : List α}
    (each : ∀ item ∈ items, value item = .ok (result item)) :
    items.mapM value = .ok (items.map result) := by
  induction items with
  | nil => rfl
  | cons item others ih =>
      rw [List.mapM_cons, each item (by simp), ok_bind,
        ih (fun other inOthers => each other (by simp [inOthers])), ok_bind, List.map_cons]
      rfl

theorem mapM_cons_eq_ok_iff {value : α → Except ε β} {item : α} {items : List α}
    {results : List β} : (item :: items).mapM value = .ok results ↔
      ∃ first others, value item = .ok first ∧ items.mapM value = .ok others ∧
        results = first :: others := by
  rw [List.mapM_cons, bind_eq_ok_iff]
  constructor
  · rintro ⟨first, here, rest⟩
    obtain ⟨others, collected, same⟩ := bind_eq_ok_iff.mp rest
    exact ⟨first, others, here, collected, (Except.ok.inj same).symm⟩
  · rintro ⟨first, others, here, collected, rfl⟩
    exact ⟨first, here, bind_eq_ok_iff.mpr ⟨others, collected, rfl⟩⟩

/-- The results of the items in another order are those results in another order. -/
theorem exists_mapM_of_perm {value : α → Except ε β} {items items' : List α} {results : List β}
    (same : items.Perm items') (collected : items.mapM value = .ok results) :
    ∃ results', items'.mapM value = .ok results' ∧ results'.Perm results := by
  induction same generalizing results with
  | nil => exact ⟨results, collected, .refl _⟩
  | cons item _ ih =>
      obtain ⟨first, others, here, rest, rfl⟩ := mapM_cons_eq_ok_iff.mp collected
      obtain ⟨others', rest', perm⟩ := ih rest
      exact ⟨first :: others', mapM_cons_eq_ok_iff.mpr ⟨first, others', here, rest', rfl⟩,
        perm.cons first⟩
  | swap item other items =>
      obtain ⟨first, _, here, rest, rfl⟩ := mapM_cons_eq_ok_iff.mp collected
      obtain ⟨second, others, there, last, rfl⟩ := mapM_cons_eq_ok_iff.mp rest
      have swapped := mapM_cons_eq_ok_iff.mpr ⟨first, others, here, last, rfl⟩
      exact ⟨second :: first :: others,
        mapM_cons_eq_ok_iff.mpr ⟨second, _, there, swapped, rfl⟩, .swap first second others⟩
  | trans _ _ ih ih' =>
      obtain ⟨middle, collected', perm⟩ := ih collected
      obtain ⟨results', collected'', perm'⟩ := ih' collected'
      exact ⟨results', collected'', perm'.trans perm⟩

theorem exists_of_mapM_eq_error {value : α → Except ε β} {items : List α}
    (failed : items.mapM value = .error reason) : ∃ item ∈ items, value item = .error reason := by
  induction items with
  | nil => contradiction
  | cons item others ih =>
      rw [List.mapM_cons] at failed
      cases here : value item with
      | error fault =>
          rw [here, error_bind] at failed
          obtain rfl := Except.error.inj failed
          exact ⟨item, by simp, here⟩
      | ok first =>
          rw [here, ok_bind] at failed
          cases rest : others.mapM value with
          | ok values =>
              rw [rest] at failed
              contradiction
          | error fault =>
              rw [rest, error_bind] at failed
              obtain rfl := Except.error.inj failed
              obtain ⟨other, inOthers, found⟩ := ih rest
              exact ⟨other, by simp [inOthers], found⟩

theorem lift_eq_ok_iff {checked : Except Fault α} :
    (liftM checked : Except (Failure ε) α) = .ok value ↔ checked = .ok value := by
  cases checked with
  | ok other => rw [lift_ok, Except.ok.injEq, Except.ok.injEq]
  | error fault => exact ⟨nofun, nofun⟩

namespace Index

theorem sumFrom_eq_ok {value : α → Except Fault Nat} {number : α → Nat} {items : List α}
    {total : Nat} (each : ∀ item ∈ items, value item = .ok (number item))
    (room : total + (items.map number).sum < limit) :
    sumFrom value total items = .ok (total + (items.map number).sum) := by
  induction items generalizing total with
  | nil => rfl
  | cons item others ih =>
      rw [List.map_cons, List.sum_cons] at room ⊢
      rw [sumFrom, each item (by simp), ok_bind, add, if_pos (by omega), ok_bind,
        ih (fun other member => each other (by simp [member])) (by omega), Nat.add_assoc]

theorem sumOver_eq_ok {value : α → Except Fault Nat} {number : α → Nat} {items : List α}
    (each : ∀ item ∈ items, value item = .ok (number item))
    (room : (items.map number).sum < limit) :
    sumOver value items = .ok (items.map number).sum := by
  rw [sumOver, sumFrom_eq_ok each (by omega), Nat.zero_add]

theorem sumOver_replicate_eq_ok {value : α → Except Fault Nat} {item : α} {count number : Nat}
    (found : value item = .ok number) (room : count * number < limit) :
    sumOver value (List.replicate count item) = .ok (count * number) := by
  have summed := @sumOver_eq_ok _ value (fun _ => number) (List.replicate count item)
    (fun other inCopies => List.eq_of_mem_replicate inCopies ▸ found)
  rw [List.map_replicate, List.sum_replicate_nat] at summed
  exact summed room

/-- An item of value zero does not change a sum. -/
theorem sumFrom_insert_eq_ok {value : α → Except Fault Nat} {front back : List α} {item : α}
    {total sum : Nat} (none : value item = .ok 0) (room : total < limit)
    (summed : sumFrom value total (front ++ back) = .ok sum) :
    sumFrom value total (front ++ item :: back) = .ok sum := by
  induction front generalizing total with
  | nil =>
      have same : add total 0 = .ok total := add_eq_ok_iff.mpr ⟨room, rfl⟩
      rwa [List.nil_append, sumFrom, none, ok_bind, same, ok_bind]
  | cons first others ih =>
      obtain ⟨term, found, rest⟩ := bind_eq_ok_iff.mp summed
      obtain ⟨next, added, summedRest⟩ := bind_eq_ok_iff.mp rest
      obtain ⟨inLimit, rfl⟩ := add_eq_ok_iff.mp added
      rw [List.cons_append, sumFrom, found, ok_bind, added, ok_bind]
      exact ih inLimit summedRest

theorem le_of_sumFrom_eq_ok {value : α → Except Fault Nat} {items : List α} {total sum : Nat}
    (summed : sumFrom value total items = .ok sum) : total ≤ sum := by
  induction items generalizing total with
  | nil => exact Nat.le_of_eq (Except.ok.inj summed)
  | cons item others ih =>
      obtain ⟨term, -, rest⟩ := bind_eq_ok_iff.mp summed
      obtain ⟨next, added, summedRest⟩ := bind_eq_ok_iff.mp rest
      have := ih summedRest
      obtain ⟨-, rfl⟩ := add_eq_ok_iff.mp added
      omega

theorem sumFrom_lt_limit {value : α → Except Fault Nat} {items : List α} {total sum : Nat}
    (room : total < limit) (summed : sumFrom value total items = .ok sum) : sum < limit := by
  induction items generalizing total with
  | nil => exact Except.ok.inj summed ▸ room
  | cons item others ih =>
      obtain ⟨term, -, rest⟩ := bind_eq_ok_iff.mp summed
      obtain ⟨next, added, summedRest⟩ := bind_eq_ok_iff.mp rest
      obtain ⟨inLimit, rfl⟩ := add_eq_ok_iff.mp added
      exact ih inLimit summedRest

theorem exists_of_sumFrom_eq_ok {value : α → Except Fault Nat} {items : List α} {total sum : Nat}
    (summed : sumFrom value total items = .ok sum) {item : α} (inItems : item ∈ items) :
    ∃ term, value item = .ok term ∧ term ≤ sum := by
  induction items generalizing total with
  | nil => exact absurd inItems List.not_mem_nil
  | cons first others ih =>
      obtain ⟨term, found, rest⟩ := bind_eq_ok_iff.mp summed
      obtain ⟨next, added, summedRest⟩ := bind_eq_ok_iff.mp rest
      obtain ⟨-, rfl⟩ := add_eq_ok_iff.mp added
      rcases List.mem_cons.mp inItems with rfl | inOthers
      · have below := le_of_sumFrom_eq_ok summedRest
        exact ⟨term, found, by omega⟩
      · exact ih summedRest inOthers

theorem of_sumFrom_eq_ok {value : α → Except Fault Nat} {number : α → Nat} {items : List α}
    {total sum : Nat} (summed : sumFrom value total items = .ok sum)
    (agree : ∀ item ∈ items, ∀ term, value item = .ok term → term ≤ sum → number item = term) :
    sum = total + (items.map number).sum := by
  induction items generalizing total with
  | nil => exact (Except.ok.inj summed).symm
  | cons item others ih =>
      obtain ⟨term, found, rest⟩ := bind_eq_ok_iff.mp summed
      obtain ⟨next, added, summedRest⟩ := bind_eq_ok_iff.mp rest
      obtain ⟨-, rfl⟩ := add_eq_ok_iff.mp added
      have below := le_of_sumFrom_eq_ok summedRest
      have equal := ih summedRest (fun other inOthers => agree other (by simp [inOthers]))
      rw [List.map_cons, List.sum_cons, agree item (by simp) term found (by omega)]
      omega

/-- A check that lets a whole visit pass lets each of its numbers pass. -/
theorem of_visit_eq_ok {check : Nat → Except ε Unit} {first count : Nat}
    (passed : visit (fun _ i => check i) first count () = .ok ()) :
    ∀ i < count, check (first + i) = .ok () := by
  induction count generalizing first with
  | zero => exact fun i below => absurd below (Nat.not_lt_zero i)
  | succ count ih =>
      obtain ⟨_, here, rest⟩ := bind_eq_ok_iff.mp passed
      intro i below
      cases i with
      | zero => exact here
      | succ i =>
          have later := ih rest i (Nat.lt_of_succ_lt_succ below)
          rwa [Nat.add_assoc, Nat.add_comm 1] at later

/-- A visit passes if its check lets each of its numbers pass. -/
theorem visit_eq_ok {check : Nat → Except ε Unit} {first count : Nat}
    (each : ∀ i < count, check (first + i) = .ok ()) :
    visit (fun _ i => check i) first count () = .ok () := by
  induction count generalizing first with
  | zero => rfl
  | succ count ih =>
      have here : check first = .ok () := each 0 (Nat.succ_pos count)
      rw [visit, here, ok_bind]
      refine ih (fun i below => ?_)
      rw [Nat.add_assoc, Nat.add_comm 1]
      exact each (i + 1) (Nat.succ_lt_succ below)

theorem collectOnto_eq_ok {value : Nat → Except ε α} {number : Nat → α} {first count : Nat}
    {values : List α} (each : ∀ i < count, value (first + i) = .ok (number (first + i))) :
    collectOnto value first count values =
      .ok (((List.range' first count).map number).reverse ++ values) := by
  induction count generalizing first values with
  | zero => rfl
  | succ count ih =>
      have eachRest : ∀ i < count, value (first + 1 + i) = .ok (number (first + 1 + i)) := by
        intro i below
        simpa only [Nat.add_assoc, Nat.add_comm 1] using each (i + 1) (by omega)
      rw [collectOnto, show value first = .ok (number first) from each 0 (by omega), ok_bind,
        ih eachRest]
      simp [List.range'_succ]

theorem collect_eq_ok {value : Nat → Except ε α} {number : Nat → α} {count : Nat}
    (each : ∀ i < count, value i = .ok (number i)) :
    collect value 0 count = .ok ((List.range count).map number) := by
  have fromZero : ∀ i < count, value (0 + i) = .ok (number (0 + i)) := by simpa using each
  rw [collect, collectOnto_eq_ok fromZero, ok_bind]
  simp [List.range_eq_range']

/-- Entries that exist are collected into the list that has them. -/
theorem collect_entries {value : Nat → Except ε α} {items : List α}
    (default : α) (each : ∀ position item, items[position]? = some item → value position = .ok item) :
    collect value 0 items.length = .ok items := by
  have eachNumber : ∀ position < items.length,
      value position = .ok (items[position]?.getD default) := by
    intro position inItems
    rw [List.getElem?_eq_getElem inItems]
    exact each position _ (List.getElem?_eq_getElem inItems)
  have same : (List.range items.length).map (fun position => items[position]?.getD default) = items :=
    List.ext_getElem (by simp) (fun position inRange inItems => by simp [inItems])
  rw [collect_eq_ok eachNumber, same]

theorem reserve_eq_ok_iff {entries bytes : Nat} :
    reserve entries bytes = .ok () ↔ entries * bytes ≤ memory := by
  unfold reserve
  split <;> simp [*]

end Index

end DofNumbering
