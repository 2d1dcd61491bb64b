/-!
# Mutexes

A mutex has at most one owner and a queue of those who wait for it, first come first. Whoever gives
it up hands it to the head of the queue, so a newcomer never overtakes one who waits.

## Main definitions

* `Mutex.claim`: the mutex after somebody asked for it
* `Mutex.leave`: the mutex after somebody gave it up, or stopped waiting for it
-/

namespace BlobStore

/-- One request for a lock. -/
abbrev TicketId := Nat

/-- The requests for one key: the one that has it, and those behind it in their order. -/
structure Mutex where
  owner : Option TicketId := none
  queue : List TicketId := []
deriving DecidableEq, Repr, Inhabited

namespace Mutex

/-- Asked for by `t`: a free mutex is taken, and for a taken one `t` queues, unless it owns it or
queues already. -/
def claim (m : Mutex) (t : TicketId) : Mutex :=
  match m.owner with
  | none => { m with owner := some t }
  | some owner =>
    if owner = t ∨ t ∈ m.queue then m else { m with queue := m.queue ++ [t] }

/-- Handed to the head of the queue. -/
def handOn (m : Mutex) : Mutex := ⟨m.queue.head?, m.queue.tail⟩

/-- Without `t`, which owns it or waits for it. -/
def leave (m : Mutex) (t : TicketId) : Mutex :=
  if m.owner = some t then m.handOn else { m with queue := m.queue.filter (· ≠ t) }

/-- Nobody owns it or waits for it. -/
def isIdle (m : Mutex) : Bool := m.owner.isNone && m.queue.isEmpty

end Mutex

end BlobStore
