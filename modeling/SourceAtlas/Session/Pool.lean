/-! # Pools of workers

The workers of a pool take up tasks in their order, and as many tasks are under way as there are
workers. Which of these is done first is up to the system. A pool says how it turns out; what is true
of all pools is true whatever the workers do.
-/

namespace SourceAtlas

/-- How many workers there are, unless a configuration says so, and how many of the tasks under way
are passed over for the next one that is done, from one to the next. In the end none is. -/
structure Pool where
  workers : Nat := 1
  picks : List Nat := []
deriving DecidableEq, Repr

namespace Pool

/-- Tasks in the order in which they are done by a number of workers. -/
def arrange {α : Type} (workers : Nat) : (picks : List Nat) → (tasks : List α) → List α
  | [], tasks => tasks
  | pick :: picks, tasks =>
    let place := min pick (workers - 1)
    tasks[place]?.toList ++ arrange workers picks (tasks.eraseIdx place)

def size (pool : Pool) (maxWorkers : Option Nat) : Nat :=
  maxWorkers.getD pool.workers

def order {α : Type} (pool : Pool) (maxWorkers : Option Nat) (tasks : List α) : List α :=
  arrange (pool.size maxWorkers) pool.picks tasks

/-- What came of tasks, in the order of the tasks; they were done in that of their places. -/
def collect {α : Type} (places : List Nat) (results : List α) : List α :=
  (List.range results.length).filterMap fun place => results[places.idxOf place]?

end Pool

end SourceAtlas
