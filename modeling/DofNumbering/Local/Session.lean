import DofNumbering.Local.IndexSet

namespace DofNumbering

/-! Several views and index sets of several bases, and the steps that change them. -/

structure Session where
  bases : List Basis
  views : List LocalView
  sets : List LocalIndexSet

/-- A step names bases, views and index sets by their numbers. -/
inductive Session.Step where
  | createView (basis : Nat)
  | createSet (basis : Nat)
  | bind (view : Nat) (entity : Entity)
  | unbind (view : Nat)
  | bindSet (set view : Nat)
  | unbindSet (set : Nat)
  /-- Binds both for the duration of a callback. -/
  | scoped (view set : Nat) (entity : Entity)
deriving DecidableEq, Repr

namespace Session

/-- A session without views and index sets; each basis is an instance of its own. -/
def ofBases (bases : List Basis) : Session :=
  ⟨bases.zipIdx.map (fun (basis, tag) => basis.withTag tag), [], []⟩

/-- Calls `inside` with a view and an index set bound to an entity. -/
def withScope {α : Type} (session : Session) (view set : Nat) (entity : Entity)
    (inside : LocalView → LocalIndexSet → α) : Except Fault (Except Fault α × Session) := do
  let oldView ← Index.entry session.views view
  let oldSet ← Index.entry session.sets set
  let (answer, newView, newSet) := withBound oldView oldSet entity inside
  .ok (answer, { session with
    views := session.views.set view newView
    sets := session.sets.set set newSet })

/-- Replaces a view or, at a fault, changes nothing. -/
def changeView (view : Nat) (change : LocalView → Except Fault LocalView) : Change Session Unit :=
  .replace (fun session => do
    let old ← Index.entry session.views view
    let new ← change old
    .ok { session with views := session.views.set view new })

/-- Changes an index set, which keeps what was changed before a fault. -/
def changeSet (set : Nat) (change : Change LocalIndexSet Unit) : Change Session Unit :=
  fun session =>
    match session.sets[set]? with
    | none => .error .outOfBounds session
    | some old =>
        match change old with
        | .ok _ new => .ok () { session with sets := session.sets.set set new }
        | .error fault left => .error fault { session with sets := session.sets.set set left }

/-- Takes a step.  All that a step can leave behind when it is stopped is an index
set that has been written over in part. -/
def take : Step → Change Session Unit
  | .createView basis => .replace (fun session => do
      let owner ← Index.entry session.bases basis
      .ok { session with views := session.views ++ [LocalView.create owner] })
  | .createSet basis => .replace (fun session => do
      let owner ← Index.entry session.bases basis
      .ok { session with sets := session.sets ++ [LocalIndexSet.create owner] })
  | .bind view entity => changeView view (fun old => old.bind entity)
  | .unbind view => changeView view (fun old => .ok old.unbind)
  | .bindSet set view => do
      let session ← get
      let source ← Index.entry session.views view
      changeSet set (LocalIndexSet.bind source)
  | .unbindSet set => changeSet set (modify LocalIndexSet.unbind)
  | .scoped view set entity => .replace (fun session => do
      let (_, next) ← session.withScope view set entity (fun _ _ => ())
      .ok next)

/-- The session after a step, also when the step was stopped. -/
def after (session : Session) (step : Step) : Session := (take step).after session

def run (session : Session) (steps : List Step) : Session := steps.foldl after session

end Session

end DofNumbering
