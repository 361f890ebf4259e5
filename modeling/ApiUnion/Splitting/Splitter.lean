import ApiUnion.Splitting.Groups

-- Grouping many classes at once. A change in the groups of a class can change those of classes that
-- looked it up, so these are grouped again until nothing changes or the budget is spent.

namespace ApiUnion

-- In which order those that depend on a changed class are queued. They are a set, so that may be
-- any order, and another one after each change. Changes are told apart by what is left of the
-- budget.
structure QueueOrder where
  arrange : Nat → List String → List String
  perm : ∀ budget names, (arrange budget names).Perm names

-- The order in which the dependents became known.
def QueueOrder.asNoted : QueueOrder where
  arrange _ names := names
  perm _ names := .refl names

structure Splitter where
  snapshots : Table (List ApiClass) := .empty
  groups : Groups := .empty
  -- For each class, those that looked it up. The order of these has no meaning.
  dependents : Table (List String) := .empty

namespace Splitter

def add (splitter : Splitter) (snapshot : ApiClass) : Splitter :=
  let earlier := (splitter.snapshots.get? snapshot.name).getD []
  { splitter with snapshots := splitter.snapshots.insert snapshot.name (earlier ++ [snapshot]) }

def snapshotsOf (splitter : Splitter) (name : String) : List ApiClass :=
  (splitter.snapshots.get? name).getD []

def groupsOf (splitter : Splitter) (name : String) : List Group :=
  (splitter.groups.get? name).getD []

-- The groups of a class as the present grouping has them, and the names looked up for it, in order.
def computeGroups (splitter : Splitter) (name : String) : List Group × List String :=
  let (found, noted) := (Splitting.divide splitter.groups (splitter.snapshotsOf name)).run []
  (found, noted.reverse)

def noteDependent (name : String) (dependents : Table (List String)) (target : String) :
    Table (List String) :=
  let known := (dependents.get? target).getD []
  if known.contains name then dependents else dependents.insert target (known ++ [name])

def noteDependents (splitter : Splitter) (name : String) (targets : List String) : Splitter :=
  { splitter with dependents := targets.foldl (noteDependent name) splitter.dependents }

def setGroups (splitter : Splitter) (name : String) (groups : List Group) : Splitter :=
  { splitter with groups := splitter.groups.insert name groups }

-- Names are not queued twice.
def enqueue (queue names : List String) : List String :=
  names.foldl (fun queue name => if queue.contains name then queue else queue ++ [name]) queue

-- Groups the classes of a queue up to the first one whose groups change, if there is one. It comes
-- with what is left of the queue.
def regroup (splitter : Splitter) : List String → Splitter × Option (String × List String)
  | [] => (splitter, none)
  | name :: queue =>
    let (groups, targets) := splitter.computeGroups name
    let splitter := splitter.noteDependents name targets
    if splitter.groups.get? name = some groups then splitter.regroup queue
    else (splitter.setGroups name groups, some (name, queue))

-- Groups the classes of a queue, and again those that depend on a class whose groups changed. Each
-- change takes one from the budget. Comes with the class that changed when nothing was left of it.
def settle (splitter : Splitter) (order : QueueOrder) (budget : Nat) (queue : List String) :
    Splitter × Option String :=
  match splitter.regroup queue with
  | (splitter, none) => (splitter, none)
  | (splitter, some (name, queue)) =>
    match budget with
    | 0 => (splitter, some name)
    | budget + 1 =>
      let dependents := (splitter.dependents.get? name).getD []
      splitter.settle order budget (enqueue queue (order.arrange budget dependents))

-- Classes times snapshots, neither counted as less than one.
def budget (splitter : Splitter) : Nat :=
  let snapshots := (splitter.snapshots.values.map List.length).foldl (· + ·) 0
  max snapshots 1 * max splitter.snapshots.size 1

def groupAll (splitter : Splitter) (order : QueueOrder) : Splitter :=
  (splitter.settle order splitter.budget splitter.snapshots.keys).1

-- The class that grouping stopped at because the budget was spent, which is warned about.
def unsettled? (splitter : Splitter) (order : QueueOrder) : Option String :=
  (splitter.settle order splitter.budget splitter.snapshots.keys).2

end Splitter

end ApiUnion
