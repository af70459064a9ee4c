namespace SystemDynamics.Dependency

/-- The nodes seen so far, and those that are done with all they lead to, the latest first. -/
structure Walk where
  seen : List Nat := []
  done : List Nat := []

variable (reads : Nat → List Nat)

/-- Walks on from a node. No path without repetition is longer than `depth`, the number of nodes. -/
def visit : (depth node : Nat) → Walk → Walk
  | 0, _, w => w
  | depth + 1, n, w =>
    if w.seen.contains n then w
    else
      let w := (reads n).foldl (fun w m ↦ visit depth m w) { w with seen := n :: w.seen }
      { w with done := n :: w.done }

def reached (count n : Nat) : List Nat :=
  (visit reads count n {}).seen

/-- All nodes below `count`, each after the nodes it leads to unless they lead back to it. -/
def walkAll (count : Nat) : List Nat :=
  ((List.range count).foldl (fun w n ↦ visit reads count n w) {}).done.reverse

def component (reach : Nat → List Nat) (count n : Nat) : List Nat :=
  (List.range count).filter fun m ↦ (reach n).contains m && (reach m).contains n

/-- The components in which some path returns to where it started, in the order of their first
nodes. -/
def cycles (count : Nat) : List (List Nat) :=
  let table := ((List.range count).map (reached reads count)).toArray
  let reach := fun n ↦ table.getD n []
  ((List.range count).map (component reach count)).zipIdx.filterMap fun (c, n) ↦
    if c.head? == some n && (c.length != 1 || (reads n).contains n) then some c else none

end SystemDynamics.Dependency
