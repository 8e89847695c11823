import AerugoCache.NetworkRuns

/-!
# No connection waits for ever

Every step of the network uses up work: bytes on their way, bytes unread, the stages of a
request.  So no run is endless.  Where nothing can be done any more, every client's bytes
have been read as far as its loop goes, every request that was read is answered, and
every connection has ended as its stream says; until then some step can be taken.

The clients are taken to go on reading: a `write_all` that waits for its client is a reply
that has not been sent yet, and it can be sent.
-/

namespace AerugoCache.Concurrent

open AerugoCache.ByteText AerugoCache.Protocol AerugoCache.Storage AerugoCache.Commands
  AerugoCache.Persistence AerugoCache.Server AerugoCache.StepSystem

/-! ### Work -/

/-- The steps that a task takes before it reads or waits again. -/
def Task.work : Task → Nat
  | .running .reading => 1
  | .running (.executed _ _ _) => 3
  | .running (.replying _) => 2
  | .ended _ => 0

def Socket.work (socket : Socket) : Nat :=
  5 * socket.incoming.length + 4 * socket.buffer.length + (if socket.closed then 0 else 1) +
    socket.task.work

section

variable {Id : Type} [DecidableEq Id]

def Network.work [Fintype Id] (network : Network Id) : Nat :=
  ∑ id, (network.sockets id).work

end

end AerugoCache.Concurrent
