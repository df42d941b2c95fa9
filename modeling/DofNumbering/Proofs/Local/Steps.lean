import DofNumbering.Local.Session
import DofNumbering.Proofs.Rebinding

namespace DofNumbering

/-! What a step of a session makes of each view and each index set.

A step binds at most one view and one set.  The guards of a scope bind them too, but
release them in the same step.  A set that is not bound to what it is offered stays as
it is, except that a fault may stop it while it writes over its indices.
-/

theorem Change.after_replace {σ : Type} (next : σ → Except Fault σ) (state : σ) :
    (Change.replace next).after state =
      match next state with
      | .ok new => new
      | .error _ => state := by
  unfold Change.after Change.replace
  cases next state <;> rfl

/-- A fault stops the set while it writes the indices for the view. -/
def LocalIndexSet.StoppedBy (set : LocalIndexSet) (view : LocalView) : Prop :=
  view.isBound = true ∧ view.basis.tag = set.basis.tag ∧
    ∃ fault left, LocalIndexSet.bind view set = .error fault left

theorem of_getElem?_set {α : Type} {items : List α} {position place : Nat} {new item : α}
    (found : (items.set position new)[place]? = some item) :
    (position = place ∧ new = item) ∨ (position ≠ place ∧ items[place]? = some item) := by
  by_cases here : position = place
  · subst here
    have inItems := (List.getElem?_eq_some_iff.mp found).1
    rw [List.length_set] at inItems
    rw [List.getElem?_set_self inItems] at found
    exact .inl ⟨rfl, Option.some.inj found⟩
  · rw [List.getElem?_set_ne here] at found
    exact .inr ⟨here, found⟩

theorem of_getElem?_concat {α : Type} {items : List α} {place : Nat} {new item : α}
    (found : (items ++ [new])[place]? = some item) :
    items[place]? = some item ∨ (items[place]? = none ∧ new = item) := by
  by_cases old : place < items.length
  · rw [List.getElem?_append_left old] at found
    exact .inl found
  · have none : items[place]? = none := List.getElem?_eq_none (Nat.le_of_not_lt old)
    rw [List.getElem?_append_right (Nat.le_of_not_lt old), List.getElem?_singleton] at found
    split at found
    · exact .inr ⟨none, Option.some.inj found⟩
    · contradiction

namespace LocalIndexSet

variable {view : LocalView} {set after left : LocalIndexSet} {fault : Fault}

/-- A set is not changed by a view that it does not accept. -/
theorem left_eq_of_not_stoppedBy (ran : bind view set = .error fault left)
    (accepted : ¬ set.StoppedBy view) : left = set := by
  by_cases isBound : view.isBound = true
  · by_cases owner : view.basis.tag = set.basis.tag
    · exact absurd ⟨isBound, owner, fault, left, ran⟩ accepted
    · rw [bind, if_pos isBound, if_neg owner] at ran
      exact (EStateM.Result.error.inj ran).2.symm
  · rw [bind, if_neg isBound] at ran
    exact (EStateM.Result.error.inj ran).2.symm

theorem of_bind_eq_ok (ran : bind view set = .ok () after) : view.isBound = true ∧
    view.basis.tag = set.basis.tag ∧ after.basis = set.basis ∧ after.element = view.element := by
  by_cases isBound : view.isBound = true
  · by_cases owner : view.basis.tag = set.basis.tag
    · rw [bind_of_bound isBound owner] at ran
      split at ran
      · obtain rfl := (EStateM.Result.ok.inj ran).2
        exact ⟨isBound, owner, rfl, rfl⟩
      · contradiction
    · rw [bind, if_pos isBound, if_neg owner] at ran
      contradiction
  · rw [bind, if_neg isBound] at ran
    contradiction

/-- What a fault leaves of a set. -/
theorem exists_buffer_of_stoppedBy (ran : bind view set = .error fault left)
    (accepted : set.StoppedBy view) : ∃ buffer, left = { set with buffer } := by
  rw [bind_of_bound accepted.1 accepted.2.1] at ran
  split at ran
  · contradiction
  · exact ⟨_, (EStateM.Result.error.inj ran).2.symm⟩

end LocalIndexSet

/-- A new view is bound to the element, and then a new set to the view. -/
theorem of_bindFresh_eq_ok {basis : Basis} {element : Nat} {view : LocalView} {set : LocalIndexSet}
    (ran : bindFresh basis element = .ok (view, set)) :
    (LocalView.create basis).bind (Entity.element element) = .ok view ∧
      LocalIndexSet.bind view (.create basis) = .ok () set := by
  obtain ⟨other, bound, bindsSet⟩ := bind_eq_ok_iff.mp ran
  obtain ⟨after, result, same⟩ := bind_eq_ok_iff.mp bindsSet
  obtain ⟨rfl, rfl⟩ := Prod.mk.inj (Except.ok.inj same)
  refine ⟨bound, ?_⟩
  unfold Change.result at result
  split at result
  · rename_i done
    exact Except.ok.inj result ▸ done
  · contradiction

section Scope

variable {α : Type} {inside : LocalView → LocalIndexSet → α} {view bound : LocalView}
  {set left : LocalIndexSet} {entity : Entity} {fault : Fault}

/-- The guard of a view releases it, even if no guard of a set comes to exist. -/
theorem view_of_withBound (ran : view.bind entity = .ok bound) :
    (withBound view set entity inside).2.1 = bound.unbind := by
  simp only [withBound, ran]
  cases LocalIndexSet.bind bound set <;> rfl

theorem set_of_withBound (ran : view.bind entity = .ok bound) :
    (withBound view set entity inside).2.2 =
      match LocalIndexSet.bind bound set with
      | .error _ left => left
      | .ok _ boundSet => boundSet.unbind := by
  simp only [withBound, ran]
  cases LocalIndexSet.bind bound set <;> rfl

end Scope

namespace Session

/-- The step binds a view. -/
def BindsView (v : Nat) (session : Session) : Step → Prop
  | .bind view entity => view = v ∧ ∃ old bound, session.views[v]? = some old ∧
      old.bind entity = .ok bound
  | _ => False

/-- The step releases a view, by unbinding it or by leaving the scope of a guard. -/
def ReleasesView (v : Nat) (session : Session) : Step → Prop
  | .unbind view => view = v
  | .scoped view set entity => view = v ∧ ∃ old bound oldSet, session.views[v]? = some old ∧
      session.sets[set]? = some oldSet ∧ old.bind entity = .ok bound
  | _ => False

/-- The step binds an index set. -/
def BindsSet (s : Nat) (session : Session) : Step → Prop
  | .bindSet set view => set = s ∧ ∃ old source bound, session.sets[s]? = some old ∧
      session.views[view]? = some source ∧ LocalIndexSet.bind source old = .ok () bound
  | _ => False

/-- The step releases an index set, by unbinding it or by leaving the scope of a guard. -/
def ReleasesSet (s : Nat) (session : Session) : Step → Prop
  | .unbindSet set => set = s
  | .scoped view set entity => set = s ∧ ∃ old source boundView bound,
      session.sets[s]? = some old ∧ session.views[view]? = some source ∧
      source.bind entity = .ok boundView ∧ LocalIndexSet.bind boundView old = .ok () bound
  | _ => False

/-- A fault stops the step while it writes the indices of a set. -/
def StopsSet (s : Nat) (session : Session) : Step → Prop
  | .bindSet set view => set = s ∧ ∃ old source, session.sets[s]? = some old ∧
      session.views[view]? = some source ∧ old.StoppedBy source
  | .scoped view set entity => set = s ∧ ∃ old source boundView,
      session.sets[s]? = some old ∧ session.views[view]? = some source ∧
      source.bind entity = .ok boundView ∧ old.StoppedBy boundView
  | _ => False

/-- The step makes a set lose what it had from its last binding. -/
def DisturbsSet (s : Nat) (session : Session) (step : Step) : Prop :=
  ReleasesSet s session step ∨ StopsSet s session step

section Steps

variable {session : Session} {step : Step} {v u s b : Nat} {entity : Entity} {view : LocalView}
  {set : LocalIndexSet}

theorem after_createView : session.after (.createView u) =
    match session.bases[u]? with
    | some owner => { session with views := session.views ++ [LocalView.create owner] }
    | none => session := by
  rw [after, take, Change.after_replace]
  cases found : session.bases[u]? <;> simp [Index.entry, found]

theorem after_createSet : session.after (.createSet u) =
    match session.bases[u]? with
    | some owner => { session with sets := session.sets ++ [LocalIndexSet.create owner] }
    | none => session := by
  rw [after, take, Change.after_replace]
  cases found : session.bases[u]? <;> simp [Index.entry, found]

theorem after_changeView (change : LocalView → Except Fault LocalView) :
    (changeView v change).after session =
      match session.views[v]?.map change with
      | some (.ok new) => { session with views := session.views.set v new }
      | _ => session := by
  rw [changeView, Change.after_replace]
  cases found : session.views[v]? with
  | none => simp [Index.entry, found]
  | some old => cases done : change old <;> simp [Index.entry, found, done]

theorem after_changeSet (change : Change LocalIndexSet Unit) :
    (changeSet u change).after session =
      match session.sets[u]? with
      | some old => { session with sets := session.sets.set u (change.after old) }
      | none => session := by
  cases found : session.sets[u]? with
  | none => simp [changeSet, Change.after, found]
  | some old => cases done : change old <;> simp [changeSet, Change.after, found, done]

theorem after_bindSet : session.after (.bindSet u v) =
    match session.views[v]? with
    | some source => (changeSet u (LocalIndexSet.bind source)).after session
    | none => session := by
  have run : take (.bindSet u v) session =
      ((liftM (Index.entry session.views v) : Change Session LocalView) >>= fun source =>
        changeSet u (LocalIndexSet.bind source)) session := rfl
  rw [after, Change.after, run]
  cases found : session.views[v]? with
  | none =>
      rw [Index.entry, found]
      rfl
  | some source =>
      rw [Index.entry, found]
      rfl

theorem views_after_changeSet (change : Change LocalIndexSet Unit) :
    ((changeSet u change).after session).views = session.views := by
  rw [after_changeSet]
  cases session.sets[u]? <;> rfl

theorem sets_after_changeView (change : LocalView → Except Fault LocalView) :
    ((changeView v change).after session).sets = session.sets := by
  rw [after_changeView]
  rcases session.views[v]?.map change with _ | ⟨_ | _⟩ <;> rfl

theorem views_after_bindSet : (session.after (.bindSet u v)).views = session.views := by
  rw [after_bindSet]
  cases session.views[v]? with
  | none => rfl
  | some source => exact views_after_changeSet _

theorem after_scoped : session.after (.scoped v u entity) =
    match session.views[v]?, session.sets[u]? with
    | some view, some set =>
        { session with
          views := session.views.set v (withBound view set entity (fun _ _ => ())).2.1
          sets := session.sets.set u (withBound view set entity (fun _ _ => ())).2.2 }
    | _, _ => session := by
  rw [after, take, Change.after_replace]
  cases found : session.views[v]? with
  | none => simp [withScope, Index.entry, found]
  | some view =>
      cases found' : session.sets[u]? <;> simp [withScope, Index.entry, found, found']

/-- What a step makes of the view with a number. -/
inductive ViewStep (session : Session) (step : Step) (v : Nat) : LocalView → Prop
  | created (owner : Basis) : owner ∈ session.bases → session.views[v]? = none →
      ViewStep session step v (LocalView.create owner)
  | kept (view : LocalView) : session.views[v]? = some view → ¬ BindsView v session step →
      ¬ ReleasesView v session step → ViewStep session step v view
  | bound (view after : LocalView) (entity : Entity) : session.views[v]? = some view →
      view.bind entity = .ok after → BindsView v session step → ViewStep session step v after
  | released (view : LocalView) : session.views[v]? = some view → ¬ BindsView v session step →
      ReleasesView v session step → ViewStep session step v view.unbind
  | guarded (view bound : LocalView) (entity : Entity) : session.views[v]? = some view →
      view.bind entity = .ok bound → ¬ BindsView v session step → ReleasesView v session step →
      ViewStep session step v bound.unbind

theorem viewStep_createView (found : (session.after (.createView u)).views[v]? = some view) :
    session.ViewStep (.createView u) v view := by
  rw [after_createView] at found
  cases owned : session.bases[u]? with
  | none =>
      rw [owned] at found
      exact .kept view found id id
  | some owner =>
      rw [owned] at found
      rcases of_getElem?_concat found with old | ⟨none, rfl⟩
      · exact .kept view old id id
      · exact .created owner (List.mem_of_getElem? owned) none

theorem of_changeView {change : LocalView → Except Fault LocalView}
    (found : ((changeView u change).after session).views[v]? = some view) :
    (u = v ∧ ∃ old, session.views[v]? = some old ∧ change old = .ok view) ∨
      (session.views[v]? = some view ∧ (u = v → ∃ fault, change view = .error fault)) := by
  rw [after_changeView] at found
  cases old : session.views[u]? with
  | none =>
      rw [old] at found
      replace found : session.views[v]? = some view := found
      refine .inr ⟨found, ?_⟩
      rintro rfl
      rw [old] at found
      contradiction
  | some oldView =>
      cases ran : change oldView with
      | error fault =>
          rw [old, Option.map_some, ran] at found
          refine .inr ⟨found, ?_⟩
          rintro rfl
          obtain rfl := Option.some.inj (old.symm.trans found)
          exact ⟨fault, ran⟩
      | ok new =>
          rw [old, Option.map_some, ran] at found
          rcases of_getElem?_set found with ⟨rfl, rfl⟩ | ⟨other, found⟩
          · exact .inl ⟨rfl, oldView, old, ran⟩
          · exact .inr ⟨found, fun here => absurd here other⟩

theorem viewStep_bind (found : (session.after (.bind u entity)).views[v]? = some view) :
    session.ViewStep (.bind u entity) v view := by
  rcases of_changeView found with ⟨rfl, old, isOld, ran⟩ | ⟨same, fails⟩
  · exact .bound old view entity isOld ran ⟨rfl, old, view, isOld, ran⟩
  · refine .kept view same ?_ id
    rintro ⟨here, old, bound, isOld, ran⟩
    obtain rfl := Option.some.inj (same.symm.trans isOld)
    obtain ⟨fault, failed⟩ := fails here
    rw [ran] at failed
    contradiction

theorem viewStep_unbind (found : (session.after (.unbind u)).views[v]? = some view) :
    session.ViewStep (.unbind u) v view := by
  rcases of_changeView found with ⟨rfl, old, isOld, unbound⟩ | ⟨same, fails⟩
  · obtain rfl := Except.ok.inj unbound
    exact .released old isOld id rfl
  · refine .kept view same id (fun here => ?_)
    obtain ⟨fault, failed⟩ := fails here
    contradiction

theorem views_of_scoped (found : (session.after (.scoped u s entity)).views[v]? = some view) :
    (u = v ∧ ∃ old set, session.views[v]? = some old ∧ session.sets[s]? = some set ∧
      (withBound old set entity (fun _ _ => ())).2.1 = view) ∨
      (session.views[v]? = some view ∧ (u = v → session.sets[s]? = none)) := by
  rw [after_scoped] at found
  cases isView : session.views[u]? with
  | none =>
      rw [isView] at found
      replace found : session.views[v]? = some view := found
      refine .inr ⟨found, ?_⟩
      rintro rfl
      rw [isView] at found
      contradiction
  | some old =>
  cases isSet : session.sets[s]? with
  | none =>
      rw [isView, isSet] at found
      exact .inr ⟨found, fun _ => rfl⟩
  | some set =>
      rw [isView, isSet] at found
      rcases of_getElem?_set found with ⟨rfl, rfl⟩ | ⟨other, found⟩
      · exact .inl ⟨rfl, old, set, isView, rfl, rfl⟩
      · exact .inr ⟨found, fun here => absurd here other⟩

theorem viewStep_scoped (found : (session.after (.scoped u s entity)).views[v]? = some view) :
    session.ViewStep (.scoped u s entity) v view := by
  rcases views_of_scoped found with ⟨rfl, old, set, isOld, isSet, rfl⟩ | ⟨same, missing⟩
  · cases ran : old.bind entity with
    | error fault =>
        rw [withBound, ran]
        refine .kept old isOld id ?_
        rintro ⟨-, _, _, _, isOld', -, done⟩
        obtain rfl := Option.some.inj (isOld.symm.trans isOld')
        rw [ran] at done
        contradiction
    | ok bound =>
        rw [view_of_withBound ran]
        exact .guarded old bound entity isOld ran id ⟨rfl, old, bound, set, isOld, isSet, ran⟩
  · refine .kept view same id ?_
    rintro ⟨here, _, _, _, -, isSet, -⟩
    rw [missing here] at isSet
    contradiction

theorem viewStep (found : (session.after step).views[v]? = some view) :
    session.ViewStep step v view := by
  cases step with
  | createView u => exact viewStep_createView found
  | createSet u =>
      rw [after_createSet] at found
      refine .kept view ?_ id id
      cases owned : session.bases[u]? <;> rw [owned] at found <;> exact found
  | bind u entity => exact viewStep_bind found
  | unbind u => exact viewStep_unbind found
  | bindSet s u =>
      rw [views_after_bindSet] at found
      exact .kept view found id id
  | unbindSet s =>
      change ((changeSet s (modify LocalIndexSet.unbind)).after session).views[v]? = _ at found
      rw [views_after_changeSet] at found
      exact .kept view found id id
  | «scoped» u s entity => exact viewStep_scoped found

/-- The view is one of the session, or one of these bound to an entity by a guard. -/
def Supplies (session : Session) (source : LocalView) : Prop :=
  source ∈ session.views ∨ ∃ view ∈ session.views, ∃ entity, view.bind entity = .ok source

/-- What a step makes of the index set with a number. -/
inductive SetStep (session : Session) (step : Step) (s : Nat) : LocalIndexSet → Prop
  | created (owner : Basis) : owner ∈ session.bases → session.sets[s]? = none →
      SetStep session step s (LocalIndexSet.create owner)
  | kept (set : LocalIndexSet) : session.sets[s]? = some set → ¬ BindsSet s session step →
      ¬ ReleasesSet s session step → SetStep session step s set
  | bound (set after : LocalIndexSet) (source : LocalView) : session.sets[s]? = some set →
      session.Supplies source → LocalIndexSet.bind source set = .ok () after →
      BindsSet s session step → SetStep session step s after
  | released (set after : LocalIndexSet) : session.sets[s]? = some set → after.basis = set.basis →
      after.element = none → ¬ BindsSet s session step → ReleasesSet s session step →
      SetStep session step s after
  | stopped (set left : LocalIndexSet) (source : LocalView) (fault : Fault) :
      session.sets[s]? = some set → session.Supplies source → set.StoppedBy source →
      LocalIndexSet.bind source set = .error fault left → ¬ BindsSet s session step →
      ¬ ReleasesSet s session step → StopsSet s session step → SetStep session step s left

/-- What becomes of a set that is not bound to the view that it is offered. -/
theorem SetStep.offered {s : Nat} {old left : LocalIndexSet} {source : LocalView} {fault : Fault}
    (found : session.sets[s]? = some old) (supplied : session.Supplies source)
    (ran : LocalIndexSet.bind source old = .error fault left) (binds : ¬ BindsSet s session step)
    (releases : ¬ ReleasesSet s session step)
    (stops : old.StoppedBy source → StopsSet s session step) : session.SetStep step s left := by
  by_cases stopped : old.StoppedBy source
  · exact .stopped old left source fault found supplied stopped ran binds releases (stops stopped)
  · obtain rfl := LocalIndexSet.left_eq_of_not_stoppedBy ran stopped
    exact .kept left found binds releases

theorem setStep_createSet (found : (session.after (.createSet b)).sets[u]? = some set) :
    session.SetStep (.createSet b) u set := by
  rw [after_createSet] at found
  cases owned : session.bases[b]? with
  | none =>
      rw [owned] at found
      exact .kept set found id id
  | some owner =>
      rw [owned] at found
      rcases of_getElem?_concat found with old | ⟨none, rfl⟩
      · exact .kept set old id id
      · exact .created owner (List.mem_of_getElem? owned) none

theorem of_changeSet {change : Change LocalIndexSet Unit}
    (found : ((changeSet s change).after session).sets[u]? = some set) :
    (s = u ∧ ∃ old, session.sets[u]? = some old ∧ change.after old = set) ∨
      (s ≠ u ∧ session.sets[u]? = some set) := by
  rw [after_changeSet] at found
  cases old : session.sets[s]? with
  | none =>
      rw [old] at found
      replace found : session.sets[u]? = some set := found
      refine .inr ⟨?_, found⟩
      rintro rfl
      rw [old] at found
      contradiction
  | some oldSet =>
      rw [old] at found
      rcases of_getElem?_set found with ⟨rfl, rfl⟩ | ⟨other, found⟩
      · exact .inl ⟨rfl, oldSet, old, rfl⟩
      · exact .inr ⟨other, found⟩

theorem setStep_bindSet (found : (session.after (.bindSet s v)).sets[u]? = some set) :
    session.SetStep (.bindSet s v) u set := by
  rw [after_bindSet] at found
  cases isSource : session.views[v]? with
  | none =>
      rw [isSource] at found
      refine .kept set found ?_ id
      rintro ⟨-, _, _, _, -, isSource', -⟩
      rw [isSource] at isSource'
      contradiction
  | some source =>
      rw [isSource] at found
      rcases of_changeSet found with ⟨rfl, old, isOld, rfl⟩ | ⟨other, same⟩
      · have supplied : session.Supplies source := .inl (List.mem_of_getElem? isSource)
        rw [Change.after]
        cases ran : LocalIndexSet.bind source old with
        | ok _ after =>
            exact .bound old after source isOld supplied ran
              ⟨rfl, old, source, after, isOld, isSource, ran⟩
        | error fault left =>
            have notBinds : ¬ BindsSet s session (.bindSet s v) := by
              rintro ⟨-, _, _, _, isOld', isSource', done⟩
              obtain rfl := Option.some.inj (isOld.symm.trans isOld')
              obtain rfl := Option.some.inj (isSource.symm.trans isSource')
              rw [ran] at done
              contradiction
            exact .offered isOld supplied ran notBinds id
              (fun stopped => ⟨rfl, old, source, isOld, isSource, stopped⟩)
      · exact .kept set same (fun binds => other binds.1) id

theorem setStep_unbindSet (found : (session.after (.unbindSet s)).sets[u]? = some set) :
    session.SetStep (.unbindSet s) u set := by
  change ((changeSet s (modify LocalIndexSet.unbind)).after session).sets[u]? = _ at found
  rcases of_changeSet found with ⟨rfl, old, isOld, rfl⟩ | ⟨other, same⟩
  · exact .released old _ isOld rfl rfl id rfl
  · exact .kept set same id other

theorem sets_of_scoped (found : (session.after (.scoped v s entity)).sets[u]? = some set) :
    (s = u ∧ ∃ source old, session.views[v]? = some source ∧ session.sets[u]? = some old ∧
      (withBound source old entity (fun _ _ => ())).2.2 = set) ∨
      (session.sets[u]? = some set ∧ (s = u → session.views[v]? = none)) := by
  rw [after_scoped] at found
  cases isView : session.views[v]? with
  | none =>
      rw [isView] at found
      exact .inr ⟨found, fun _ => rfl⟩
  | some source =>
  cases isSet : session.sets[s]? with
  | none =>
      rw [isView, isSet] at found
      replace found : session.sets[u]? = some set := found
      refine .inr ⟨found, ?_⟩
      rintro rfl
      rw [isSet] at found
      contradiction
  | some old =>
      rw [isView, isSet] at found
      rcases of_getElem?_set found with ⟨rfl, rfl⟩ | ⟨other, found⟩
      · exact .inl ⟨rfl, source, old, rfl, isSet, rfl⟩
      · exact .inr ⟨found, fun here => absurd here other⟩

theorem setStep_scoped (found : (session.after (.scoped v s entity)).sets[u]? = some set) :
    session.SetStep (.scoped v s entity) u set := by
  rcases sets_of_scoped found with ⟨rfl, view, old, isView, isOld, rfl⟩ | ⟨same, missing⟩
  · cases ranView : view.bind entity with
    | error fault =>
        rw [withBound, ranView]
        refine .kept old isOld id ?_
        rintro ⟨-, _, _, _, _, -, isView', done, -⟩
        obtain rfl := Option.some.inj (isView.symm.trans isView')
        rw [ranView] at done
        contradiction
    | ok source =>
        rw [set_of_withBound ranView]
        cases ran : LocalIndexSet.bind source old with
        | ok _ after =>
            exact .released old _ isOld (LocalIndexSet.of_bind_eq_ok ran).2.2.1 rfl id
              ⟨rfl, old, view, source, after, isOld, isView, ranView, ran⟩
        | error fault left =>
            have notReleases : ¬ ReleasesSet s session (.scoped v s entity) := by
              rintro ⟨-, _, _, _, _, isOld', isView', done, done'⟩
              obtain rfl := Option.some.inj (isOld.symm.trans isOld')
              obtain rfl := Option.some.inj (isView.symm.trans isView')
              obtain rfl := Except.ok.inj (ranView.symm.trans done)
              rw [ran] at done'
              contradiction
            exact .offered isOld (.inr ⟨view, List.mem_of_getElem? isView, entity, ranView⟩) ran id
              notReleases (fun stopped => ⟨rfl, old, view, source, isOld, isView, ranView, stopped⟩)
  · refine .kept set same id ?_
    rintro ⟨here, _, _, _, _, -, isView, -⟩
    rw [missing here] at isView
    contradiction

theorem setStep (found : (session.after step).sets[u]? = some set) : session.SetStep step u set := by
  cases step with
  | createView b =>
      rw [after_createView] at found
      refine .kept set ?_ id id
      cases owned : session.bases[b]? <;> rw [owned] at found <;> exact found
  | createSet b => exact setStep_createSet found
  | bind v entity =>
      change ((changeView v (fun old => old.bind entity)).after session).sets[u]? = _ at found
      rw [sets_after_changeView] at found
      exact .kept set found id id
  | unbind v =>
      change ((changeView v (fun old => .ok old.unbind)).after session).sets[u]? = _ at found
      rw [sets_after_changeView] at found
      exact .kept set found id id
  | bindSet s v => exact setStep_bindSet found
  | unbindSet s => exact setStep_unbindSet found
  | «scoped» v s entity => exact setStep_scoped found

/-- The later session has the same bases, and no fewer views and sets. -/
structure Extends (later session : Session) : Prop where
  bases : later.bases = session.bases
  views : session.views.length ≤ later.views.length
  sets : session.sets.length ≤ later.sets.length

theorem Extends.refl (session : Session) : session.Extends session :=
  ⟨rfl, Nat.le_refl _, Nat.le_refl _⟩

theorem extends_changeView (change : LocalView → Except Fault LocalView) :
    ((changeView v change).after session).Extends session := by
  rw [after_changeView]
  split
  · exact ⟨rfl, by simp, Nat.le_refl _⟩
  · exact .refl session

theorem extends_changeSet (change : Change LocalIndexSet Unit) :
    ((changeSet u change).after session).Extends session := by
  rw [after_changeSet]
  split
  · exact ⟨rfl, Nat.le_refl _, by simp⟩
  · exact .refl session

theorem extends_after (session : Session) (step : Step) : (session.after step).Extends session := by
  cases step with
  | createView b =>
      rw [after_createView]
      split
      · exact ⟨rfl, by simp, Nat.le_refl _⟩
      · exact .refl session
  | createSet b =>
      rw [after_createSet]
      split
      · exact ⟨rfl, Nat.le_refl _, by simp⟩
      · exact .refl session
  | bind v entity => exact extends_changeView _
  | unbind v => exact extends_changeView _
  | bindSet s v =>
      rw [after_bindSet]
      split
      · exact extends_changeSet _
      · exact .refl session
  | unbindSet s => exact extends_changeSet (modify LocalIndexSet.unbind)
  | «scoped» v s entity =>
      rw [after_scoped]
      split
      · exact ⟨rfl, by simp, by simp⟩
      · exact .refl session

theorem exists_view_after (step : Step) (found : session.views[v]? = some view) :
    ∃ after, (session.after step).views[v]? = some after :=
  ⟨_, List.getElem?_eq_getElem (Nat.lt_of_lt_of_le (List.getElem?_eq_some_iff.mp found).1
    (extends_after session step).views)⟩

theorem exists_set_after (step : Step) (found : session.sets[u]? = some set) :
    ∃ after, (session.after step).sets[u]? = some after :=
  ⟨_, List.getElem?_eq_getElem (Nat.lt_of_lt_of_le (List.getElem?_eq_some_iff.mp found).1
    (extends_after session step).sets)⟩

end Steps

end Session

end DofNumbering
