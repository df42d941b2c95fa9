import DofNumbering.Proofs.Local.Steps
import DofNumbering.Proofs.Samples

namespace DofNumbering

/-! What views and index sets show does not depend on their history.

A view or a set is bound from a successful binding on until it is released; a guard
that releases it when it is dropped counts like an unbinding there.  While it is
bound it is like a new one, except for a set that was written over by a binding that
a fault stopped.
-/

namespace Session

/-- Some step starts and none of the later ones ends. -/
inductive Since (starts ends : Session → Step → Prop) (session : Session) : List Step → Prop
  | start {steps : List Step} {step : Step} :
      starts (session.run steps) step → Since starts ends session (steps ++ [step])
  | keep {steps : List Step} {step : Step} : Since starts ends session steps →
      ¬ ends (session.run steps) step → Since starts ends session (steps ++ [step])

variable {starts ends : Session → Step → Prop} {session : Session} {steps : List Step} {step : Step}

theorem not_since_nil : ¬ Since starts ends session [] := by
  generalize empty : ([] : List Step) = steps
  rintro (_ | _) <;> simp at empty

theorem since_append_iff : Since starts ends session (steps ++ [step]) ↔
    starts (session.run steps) step ∨
      (Since starts ends session steps ∧ ¬ ends (session.run steps) step) := by
  constructor
  · generalize whole : steps ++ [step] = all
    intro since
    cases since with
    | start starts =>
        obtain ⟨rfl, same⟩ := List.append_inj' whole rfl
        obtain rfl := List.singleton_inj.mp same
        exact .inl starts
    | keep since lasts =>
        obtain ⟨rfl, same⟩ := List.append_inj' whole rfl
        obtain rfl := List.singleton_inj.mp same
        exact .inr ⟨since, lasts⟩
  · rintro (starts | ⟨since, lasts⟩)
    · exact .start starts
    · exact .keep since lasts

theorem run_append_run (steps others : List Step) :
    session.run (steps ++ others) = (session.run steps).run others := List.foldl_append

theorem run_append (steps : List Step) (step : Step) :
    session.run (steps ++ [step]) = (session.run steps).after step := run_append_run steps [step]

theorem bases_run (steps : List Step) : (session.run steps).bases = session.bases := by
  induction steps using List.reverseRecOn with
  | nil => rfl
  | append_singleton steps step ih => rw [run_append, (extends_after _ step).bases, ih]

/-- What a step makes true or false is what has been true since some step. -/
theorem since_iff (held : Session → Prop) (initially : ¬ held session)
    (each : ∀ session step,
      held (session.after step) ↔ starts session step ∨ (held session ∧ ¬ ends session step)) :
    Since starts ends session steps ↔ held (session.run steps) := by
  induction steps using List.reverseRecOn with
  | nil => exact iff_of_false not_since_nil initially
  | append_singleton steps step ih => rw [since_append_iff, run_append, each, ih]

section Bound

variable {v u : Nat}

/-- The session has a bound view with the given number. -/
def HasBoundView (v : Nat) (session : Session) : Prop :=
  ∃ view, session.views[v]? = some view ∧ view.isBound = true

def HasBoundSet (s : Nat) (session : Session) : Prop :=
  ∃ set, session.sets[s]? = some set ∧ set.isBound = true

theorem BindsView.exists_view (binds : BindsView v session step) :
    ∃ view, session.views[v]? = some view := by
  cases step with
  | bind u entity =>
      obtain ⟨-, view, -, found, -⟩ := binds
      exact ⟨view, found⟩
  | _ => exact binds.elim

theorem BindsSet.exists_set (binds : BindsSet u session step) :
    ∃ set, session.sets[u]? = some set := by
  cases step with
  | bindSet s v =>
      obtain ⟨-, set, -, -, found, -⟩ := binds
      exact ⟨set, found⟩
  | _ => exact binds.elim

theorem hasBoundView_after : HasBoundView v (session.after step) ↔
    BindsView v session step ∨ (HasBoundView v session ∧ ¬ ReleasesView v session step) := by
  constructor
  · rintro ⟨view, found, isBound⟩
    cases viewStep found with
    | created owner => contradiction
    | kept view old _ stays => exact .inr ⟨⟨view, old, isBound⟩, stays⟩
    | bound _ _ _ _ _ binds => exact .inl binds
    | released => contradiction
    | guarded => contradiction
  · intro either
    obtain ⟨old, foundOld⟩ : ∃ old, session.views[v]? = some old :=
      either.elim BindsView.exists_view (fun held => ⟨_, held.1.choose_spec.1⟩)
    obtain ⟨view, found⟩ := exists_view_after step foundOld
    refine ⟨view, found, ?_⟩
    cases viewStep found with
    | created _ _ missing =>
        rw [missing] at foundOld
        contradiction
    | kept _ same notBinds _ =>
        obtain ⟨⟨other, foundOther, isBound⟩, -⟩ := either.resolve_left notBinds
        obtain rfl := Option.some.inj (same.symm.trans foundOther)
        exact isBound
    | bound _ _ entity _ ran _ =>
        obtain ⟨-, -, tree, -, rfl⟩ := LocalView.bind_eq_ok_iff.mp ran
        rfl
    | released _ _ notBinds releases => exact absurd releases (either.resolve_left notBinds).2
    | guarded _ _ _ _ _ notBinds releases => exact absurd releases (either.resolve_left notBinds).2

theorem hasBoundSet_after : HasBoundSet u (session.after step) ↔
    BindsSet u session step ∨ (HasBoundSet u session ∧ ¬ ReleasesSet u session step) := by
  constructor
  · rintro ⟨set, found, isBound⟩
    cases setStep found with
    | created owner => contradiction
    | kept set old _ stays => exact .inr ⟨⟨set, old, isBound⟩, stays⟩
    | bound _ _ _ _ _ _ binds => exact .inl binds
    | released _ _ _ _ unbound =>
        rw [LocalIndexSet.isBound, unbound] at isBound
        contradiction
    | stopped old _ source fault foundOld _ accepted ran _ stays =>
        obtain ⟨buffer, rfl⟩ := LocalIndexSet.exists_buffer_of_stoppedBy ran accepted
        exact .inr ⟨⟨old, foundOld, isBound⟩, stays⟩
  · intro either
    obtain ⟨old, foundOld⟩ : ∃ old, session.sets[u]? = some old :=
      either.elim BindsSet.exists_set (fun held => ⟨_, held.1.choose_spec.1⟩)
    obtain ⟨set, found⟩ := exists_set_after step foundOld
    refine ⟨set, found, ?_⟩
    cases setStep found with
    | created _ _ missing =>
        rw [missing] at foundOld
        contradiction
    | kept _ same notBinds _ =>
        obtain ⟨⟨other, foundOther, isBound⟩, -⟩ := either.resolve_left notBinds
        obtain rfl := Option.some.inj (same.symm.trans foundOther)
        exact isBound
    | bound _ _ source _ _ ran _ =>
        obtain ⟨isBound, -, -, element⟩ := LocalIndexSet.of_bind_eq_ok ran
        rw [LocalIndexSet.isBound, element]
        exact isBound
    | released _ _ _ _ _ notBinds releases =>
        exact absurd releases (either.resolve_left notBinds).2
    | stopped other _ source fault foundOther _ accepted ran notBinds _ =>
        obtain ⟨⟨same, foundSame, isBound⟩, -⟩ := either.resolve_left notBinds
        obtain rfl := Option.some.inj (foundOther.symm.trans foundSame)
        obtain ⟨buffer, rfl⟩ := LocalIndexSet.exists_buffer_of_stoppedBy ran accepted
        exact isBound

end Bound

section Guards

variable {session next : Session} {v u : Nat} {entity : Entity} {view bound : LocalView}
  {set boundSet : LocalIndexSet}

theorem after_bind_of_ok (found : session.views[v]? = some view)
    (ran : view.bind entity = .ok bound) :
    session.after (.bind v entity) = { session with views := session.views.set v bound } := by
  change (changeView v (fun old => old.bind entity)).after session = _
  rw [after_changeView, found, Option.map_some, ran]

theorem after_bindSet_of_ok (source : session.views[v]? = some view)
    (found : session.sets[u]? = some set) (ran : LocalIndexSet.bind view set = .ok () boundSet) :
    session.after (.bindSet u v) = { session with sets := session.sets.set u boundSet } := by
  rw [after_bindSet, source]
  change (changeSet u (LocalIndexSet.bind view)).after session = _
  rw [after_changeSet, found]
  simp only [Change.after, ran]

/-- In the scope of guards there is what binding the view and then the set gives, and
dropping the guards unbinds both. -/
theorem of_withScope_eq_ok
    (ran : session.withScope v u entity Prod.mk = .ok (.ok (bound, boundSet), next)) :
    (session.run [.bind v entity, .bindSet u v]).views[v]? = some bound ∧
    (session.run [.bind v entity, .bindSet u v]).sets[u]? = some boundSet ∧
    next = session.run [.bind v entity, .bindSet u v, .unbindSet u, .unbind v] := by
  cases isView : session.views[v]? with
  | none => simp [withScope, Index.entry, isView] at ran
  | some view =>
  cases isSet : session.sets[u]? with
  | none => simp [withScope, Index.entry, isView, isSet] at ran
  | some set =>
  cases ranView : view.bind entity with
  | error fault => simp [withScope, withBound, Index.entry, isView, isSet, ranView] at ran
  | ok viewThere =>
  cases ranSet : LocalIndexSet.bind viewThere set with
  | error fault left =>
      simp [withScope, withBound, Index.entry, isView, isSet, ranView, ranSet] at ran
  | ok _ setThere =>
      simp [withScope, withBound, Index.entry, isView, isSet, ranView, ranSet] at ran
      obtain ⟨⟨rfl, rfl⟩, rfl⟩ := ran
      have inViews := (List.getElem?_eq_some_iff.mp isView).1
      have inSets := (List.getElem?_eq_some_iff.mp isSet).1
      have both : session.run [.bind v entity, .bindSet u v] =
          { session with
            views := session.views.set v viewThere
            sets := session.sets.set u setThere } := by
        change (session.after (.bind v entity)).after (.bindSet u v) = _
        rw [after_bind_of_ok isView ranView]
        exact after_bindSet_of_ok (List.getElem?_set_self inViews) isSet ranSet
      refine ⟨by rw [both, List.getElem?_set_self inViews],
        by rw [both, List.getElem?_set_self inSets], ?_⟩
      change _ = (changeView v (fun old => .ok old.unbind)).after
        ((changeSet u (modify LocalIndexSet.unbind)).after
          (session.run [.bind v entity, .bindSet u v]))
      rw [both, after_changeSet]
      simp only [List.getElem?_set_self inSets]
      rw [after_changeView]
      simp only [List.getElem?_set_self inViews, Option.map_some, List.set_set]
      rfl

end Guards

section Runs

variable {grid : GridView} {bases : List Basis} {v s : Nat} {view : LocalView}
  {set : LocalIndexSet}

theorem not_hasBoundView_ofBases : ¬ HasBoundView v (ofBases bases) := by
  rintro ⟨view, found, -⟩
  simp [ofBases] at found

theorem not_hasBoundSet_ofBases : ¬ HasBoundSet s (ofBases bases) := by
  rintro ⟨set, found, -⟩
  simp [ofBases] at found

/-- A view is bound exactly if it has been bound since it was last released. -/
theorem isBound_view_iff_since {steps : List Step}
    (found : ((ofBases bases).run steps).views[v]? = some view) :
    view.isBound = true ↔ Since (BindsView v) (ReleasesView v) (ofBases bases) steps := by
  rw [since_iff (HasBoundView v) not_hasBoundView_ofBases (fun _ _ => hasBoundView_after)]
  constructor
  · intro isBound
    exact ⟨view, found, isBound⟩
  · rintro ⟨other, same, isBound⟩
    obtain rfl := Option.some.inj (found.symm.trans same)
    exact isBound

theorem isBound_set_iff_since {steps : List Step}
    (found : ((ofBases bases).run steps).sets[s]? = some set) :
    set.isBound = true ↔ Since (BindsSet s) (ReleasesSet s) (ofBases bases) steps := by
  rw [since_iff (HasBoundSet s) not_hasBoundSet_ofBases (fun _ _ => hasBoundSet_after)]
  constructor
  · intro isBound
    exact ⟨set, found, isBound⟩
  · rintro ⟨other, same, isBound⟩
    obtain rfl := Option.some.inj (found.symm.trans same)
    exact isBound

/-- All bases are built ones and told apart by their tags, and all views are like new ones. -/
structure Valid (grid : GridView) (session : Session) : Prop where
  built : ∀ basis ∈ session.bases, Built grid 0 basis
  distinct : ∀ basis ∈ session.bases, ∀ basis' ∈ session.bases, basis.tag = basis'.tag →
    basis = basis'
  views : ∀ view ∈ session.views, view.basis ∈ session.bases ∧ view.Current
  sets : ∀ set ∈ session.sets, set.basis ∈ session.bases

theorem valid_ofBases (built : ∀ basis ∈ bases, Built grid 0 basis) : (ofBases bases).Valid grid where
  built basis inBases := by
    obtain ⟨⟨origin, tag⟩, inOrigins, rfl⟩ := List.mem_map.mp inBases
    exact .tagged tag (built origin (List.fst_mem_of_mem_zipIdx inOrigins))
  distinct basis inBases basis' inBases' sameTag := by
    obtain ⟨⟨origin, tag⟩, inOrigins, rfl⟩ := List.mem_map.mp inBases
    obtain ⟨⟨origin', tag'⟩, inOrigins', rfl⟩ := List.mem_map.mp inBases'
    obtain rfl : tag = tag' := sameTag
    have found := List.mem_zipIdx_iff_getElem?.mp inOrigins
    have found' := List.mem_zipIdx_iff_getElem?.mp inOrigins'
    obtain rfl : origin = origin' := Option.some.inj (found.symm.trans found')
    rfl
  views _ inViews := nomatch inViews
  sets _ inSets := nomatch inSets

namespace Valid

/-- The views that sets can be bound to are like new ones. -/
theorem supplied (valid : session.Valid grid) (supplied : session.Supplies view) :
    view.basis ∈ session.bases ∧ view.Current := by
  rcases supplied with inViews | ⟨source, inViews, entity, ran⟩
  · exact valid.views view inViews
  · obtain ⟨inBases, current⟩ := valid.views source inViews
    obtain ⟨boundCurrent, same, -⟩ := current.bind (valid.built _ inBases).rebinds ran
    exact ⟨same ▸ inBases, boundCurrent⟩

theorem after (valid : session.Valid grid) : (session.after step).Valid grid := by
  have same := (extends_after session step).bases
  refine ⟨same ▸ valid.built, same ▸ valid.distinct, fun view inViews => ?_, fun set inSets => ?_⟩
  · rw [same]
    obtain ⟨v, found⟩ := List.mem_iff_getElem?.mp inViews
    cases viewStep found with
    | created owner inBases _ =>
        exact ⟨inBases, LocalView.current_create (valid.built owner inBases).rebinds⟩
    | kept _ old _ _ => exact valid.views view (List.mem_of_getElem? old)
    | bound old _ entity foundOld ran _ =>
        exact valid.supplied (.inr ⟨old, List.mem_of_getElem? foundOld, entity, ran⟩)
    | released old foundOld _ _ =>
        obtain ⟨inBases, current⟩ := valid.views old (List.mem_of_getElem? foundOld)
        exact ⟨inBases, current.unbind⟩
    | guarded old bound entity foundOld ran _ _ =>
        obtain ⟨inBases, current⟩ :=
          valid.supplied (.inr ⟨old, List.mem_of_getElem? foundOld, entity, ran⟩)
        exact ⟨inBases, current.unbind⟩
  · rw [same]
    obtain ⟨s, found⟩ := List.mem_iff_getElem?.mp inSets
    cases setStep found with
    | created owner inBases _ => exact inBases
    | kept _ old _ _ => exact valid.sets set (List.mem_of_getElem? old)
    | bound old _ source foundOld _ ran _ =>
        rw [(LocalIndexSet.of_bind_eq_ok ran).2.2.1]
        exact valid.sets old (List.mem_of_getElem? foundOld)
    | released old _ foundOld sameBasis _ _ _ =>
        rw [sameBasis]
        exact valid.sets old (List.mem_of_getElem? foundOld)
    | stopped old _ source fault foundOld _ accepted ran _ _ _ =>
        obtain ⟨buffer, rfl⟩ := LocalIndexSet.exists_buffer_of_stoppedBy ran accepted
        exact valid.sets old (List.mem_of_getElem? foundOld)

theorem run (valid : session.Valid grid) (steps : List Step) : (session.run steps).Valid grid := by
  induction steps using List.reverseRecOn with
  | nil => exact valid
  | append_singleton steps step ih =>
      rw [run_append]
      exact ih.after

/-- A set is like a new one if its numbers fit or no fault has written over it. -/
theorem set_current (valid : session.Valid grid) (noSets : session.sets = [])
    (triangles : ∀ basis, Built grid 0 basis → ∀ element < grid.size 0, grid.HasTriangle element)
    (steps : List Step) : ∀ {s : Nat} {set : LocalIndexSet},
      (session.run steps).sets[s]? = some set → set.Current
        (set.basis.Fits grid ∨ Since (BindsSet s) (DisturbsSet s) session steps) := by
  induction steps using List.reverseRecOn with
  | nil =>
      intro s set found
      rw [show (session.run []).sets = [] from noSets] at found
      contradiction
  | append_singleton steps step ih =>
      intro s set found
      have validBefore := valid.run steps
      rw [run_append] at found
      cases setStep found with
      | created owner => exact LocalIndexSet.current_of_unbound rfl
      | kept _ old notBinds _ =>
          refine (ih old).mono (Or.imp_right (fun since => ?_))
          exact ((since_append_iff.mp since).resolve_left notBinds).1
      | bound old _ source foundOld supplied ran _ =>
          obtain ⟨inBases, current⟩ := validBefore.supplied supplied
          have inBases' := validBefore.sets old (List.mem_of_getElem? foundOld)
          have owner := validBefore.distinct _ inBases _ inBases'
            (LocalIndexSet.of_bind_eq_ok ran).2.1
          exact (LocalIndexSet.current_of_bind current (validBefore.built _ inBases').rebinds owner
            ran).1
      | released _ _ _ _ unbound => exact LocalIndexSet.current_of_unbound unbound
      | stopped old _ source fault foundOld supplied accepted ran notBinds _ stops =>
          obtain ⟨buffer, rfl⟩ := LocalIndexSet.exists_buffer_of_stoppedBy ran accepted
          refine (ih foundOld).writtenOver buffer ?_
          rintro (fits | since)
          · replace fits : old.basis.Fits grid := fits
            obtain ⟨inBases, current⟩ := validBefore.supplied supplied
            have inBases' := validBefore.sets old (List.mem_of_getElem? foundOld)
            have owner := validBefore.distinct _ inBases _ inBases' accepted.2.1
            obtain ⟨entity, bound⟩ := Option.isSome_iff_exists.mp accepted.1
            obtain ⟨after, done⟩ :=
              fits.exists_bind (triangles _ (validBefore.built _ inBases')) current owner bound
            rw [ran] at done
            contradiction
          · exact ((since_append_iff.mp since).resolve_left notBinds).2 (.inr stops)

end Valid

end Runs

end Session

/-- After any steps of any number of views and sets of built bases on the view of a mesh,
each of them is bound exactly if it has been bound since it was last released.  A bound view is
like a new one that is bound to its element.  So is a bound set, except that its indices may
have been written over if a binding was stopped by a fault since; this does not happen to
bases with a dimension and a bound on the local sizes that are indices, also if exponents zero
are read as one.  Guards bind and unbind a view and a set like the steps for that. -/
theorem bindings_independent_of_history {R C : Type} [Cell C] {mesh : Mesh R C}
    {meshView : MeshView R C} {tag : Nat} {bases : List Basis}
    (polygons : ∀ cell : C, 3 ≤ (Cell.vertices cell).length →
      (Cell.faces cell).length = (Cell.vertices cell).length)
    (viewed : MeshView.ofMesh mesh = .ok meshView)
    (built : ∀ basis ∈ bases, Built (meshView.toGridView tag) 0 basis)
    (steps : List Session.Step) :
    (∀ (v : Nat) (view : LocalView), ((Session.ofBases bases).run steps).views[v]? = some view →
      (view.isBound = true ↔ Session.Since (Session.BindsView v) (Session.ReleasesView v)
        (Session.ofBases bases) steps) ∧
      ∀ entity, view.element = some entity → ∃ fresh,
        (LocalView.create view.basis).bind entity = .ok fresh ∧
        view.boundTree = fresh.boundTree ∧ view.size = fresh.size) ∧
    (∀ (s : Nat) (set : LocalIndexSet), ((Session.ofBases bases).run steps).sets[s]? = some set →
      (set.isBound = true ↔ Session.Since (Session.BindsSet s) (Session.ReleasesSet s)
        (Session.ofBases bases) steps) ∧
      ∀ entity, set.element = some entity → ∃ freshView fresh,
        bindFresh set.basis entity.index = .ok (freshView, fresh) ∧ fresh.element = some entity ∧
        set.boundSize = fresh.boundSize ∧
        (set.basis.Fits (meshView.toGridView tag) ∨ Session.Since (Session.BindsSet s)
            (Session.DisturbsSet s) (Session.ofBases bases) steps →
          (∀ position, set.index position = fresh.index position) ∧
            set.indices = fresh.indices)) ∧
    ∀ (v s : Nat) (entity : Entity) (bound : LocalView) (boundSet : LocalIndexSet)
      (next : Session), ((Session.ofBases bases).run steps).withScope v s entity Prod.mk =
        .ok (.ok (bound, boundSet), next) →
      ((Session.ofBases bases).run (steps ++ [.bind v entity, .bindSet s v])).views[v]? =
        some bound ∧
      ((Session.ofBases bases).run (steps ++ [.bind v entity, .bindSet s v])).sets[s]? =
        some boundSet ∧
      next = (Session.ofBases bases).run
        (steps ++ [.bind v entity, .bindSet s v, .unbindSet s, .unbind v]) := by
  have valid := Session.valid_ofBases built
  refine ⟨fun v view found => ?_, fun s set found => ?_, ?_⟩
  · obtain ⟨-, current⟩ := (valid.run steps).views view (List.mem_of_getElem? found)
    exact ⟨Session.isBound_view_iff_since found,
      fun entity bound => ⟨view, current.fresh entity bound, rfl, rfl⟩⟩
  · have current := valid.set_current rfl
      (fun basis built element => Built.hasTriangle polygons viewed built) steps found
    refine ⟨Session.isBound_set_iff_since found, fun entity bound => ?_⟩
    obtain ⟨freshView, fresh, ran, element, size, same⟩ := current entity bound
    exact ⟨freshView, fresh, ran, element, size,
      fun reliable => ⟨(same reliable).index, (same reliable).indices⟩⟩
  · intro v s entity bound boundSet next ran
    rw [Session.run_append_run, Session.run_append_run]
    exact Session.of_withScope_eq_ok ran

namespace Sample

/-- A set is bound to one element with a view that then goes on to another one. -/
def onward : List Session.Step :=
  [.createView 0, .createSet 0, .bind 0 (Entity.element 0), .bindSet 0 0, .bind 0 (Entity.element 1)]

end Sample

/-- The set keeps describing the first of two triangles. -/
theorem bindings_independent_of_history_square :
    ∃ set freshView fresh, ((Session.ofBases [Sample.pair.toBasis]).run Sample.onward).sets[0]? =
        some set ∧
      set.element = some (Entity.element 0) ∧
      bindFresh set.basis 0 = .ok (freshView, fresh) ∧ set.indices = fresh.indices := by
  have bound : (((Session.ofBases [Sample.pair.toBasis]).run Sample.onward).sets[0]?).map
      LocalIndexSet.element = some (some (Entity.element 0)) := by decide +kernel
  obtain ⟨set, found, element⟩ := Option.map_eq_some_iff.mp bound
  have built : ∀ basis ∈ [Sample.pair.toBasis],
      Built (Sample.squareView.toGridView 0) 0 basis := fun _ inBases =>
    List.mem_singleton.mp inBases ▸ Sample.pair_built.mono (Nat.zero_le 1)
  obtain ⟨-, sets, -⟩ := bindings_independent_of_history (fun _ _ => rfl) Sample.square_viewed
    built Sample.onward
  have owned := ((Session.valid_ofBases built).run Sample.onward).sets set
    (List.mem_of_getElem? found)
  rw [Session.bases_run] at owned
  have fits : set.basis.Fits (Sample.squareView.toGridView 0) := List.mem_singleton.mp owned ▸
    .inl ⟨17, 12, Sample.pair_built.tagged 0, rfl, rfl, by decide, by decide⟩
  obtain ⟨freshView, fresh, ran, -, -, same⟩ := (sets 0 set found).2 _ element
  exact ⟨set, freshView, fresh, found, element, ran, (same (.inl fits)).2⟩

/-- The binding to the second element stops at a fault when it has written three of the
indices, and leaves them to the set, which still shows the first element. -/
theorem stopped_binding_mixes_elements :
    Built (Sample.squareView.toGridView 0) 0 Sample.brink.toBasis ∧
    Sample.brink.toBasis.dimension = .ok 9 ∧ Sample.brink.toBasis.maxNodeSize = .ok 6 ∧
    ∃ set freshView fresh,
      ((Session.ofBases [Sample.brink.toBasis]).run (Sample.onward ++ [.bindSet 0 0])).sets[0]? =
        some set ∧
      set.element = some (Entity.element 0) ∧
      bindFresh Sample.brink.toBasis 0 = .ok (freshView, fresh) ∧ set.indices ≠ fresh.indices := by
  refine ⟨Sample.brink_built, by decide +kernel, by decide +kernel, ?_⟩
  have left : (((Session.ofBases [Sample.brink.toBasis]).run
      (Sample.onward ++ [.bindSet 0 0])).sets[0]?).map (fun set => (set.element, set.indices)) =
      some (some (Entity.element 0), .ok [[18446744073709551610], [18446744073709551612],
        [18446744073709551611], [7], [8], [5]]) := by decide +kernel
  have anew : (bindFresh Sample.brink.toBasis 0 >>= fun bound => bound.2.indices) =
      .ok [[18446744073709551609], [18446744073709551610], [18446744073709551611],
        [18446744073709551613], [18446744073709551614], [18446744073709551615]] := by decide +kernel
  obtain ⟨set, found, shown⟩ := Option.map_eq_some_iff.mp left
  obtain ⟨⟨freshView, fresh⟩, ran, indices⟩ := bind_eq_ok_iff.mp anew
  obtain ⟨element, mixed⟩ := Prod.mk.inj shown
  refine ⟨set, freshView, fresh, found, element, ran, ?_⟩
  rw [mixed, indices]
  decide

end DofNumbering
