import Mathlib.Data.List.Basic

namespace FpgaDatabase.Library.BoundedQueue

variable {α : Type*}

structure Queue (α : Type*) where
  contents : List α
  out : α

namespace Queue

variable (bound : ℕ) (q : Queue α)

def accepts (write : Bool) : Bool := write && q.contents.length < bound

def yields (read : Bool) : Bool := read && 0 < q.contents.length

/-- A read and a write at the same time; both look at the queue as it was before. -/
def step (write read : Bool) (x : α) : Queue α where
  contents := q.contents.drop (if q.yields read then 1 else 0) ++
    if q.accepts bound write then [x] else []
  out := if q.yields read then q.contents.headD q.out else q.out

end Queue

end FpgaDatabase.Library.BoundedQueue
