import EventRelay.Store.View
/-!
# The store in memory

Events under ascending seqs, and the six index tables.  Every event is taken; a seq is never given
out twice, also not after a deletion.
-/

namespace EventRelay

structure MemoryStore where
  lastSeq : Nat
  events : SeqMap Event
  indices : Indices
  deriving DecidableEq

namespace MemoryStore

def empty : MemoryStore := ⟨0, .empty, .empty⟩

/-- Stores an event under the next seq. -/
def insert (s : MemoryStore) (e : Event) : MemoryStore where
  lastSeq := s.lastSeq + 1
  events := s.events.insert (s.lastSeq + 1) e
  indices := s.indices.add (s.lastSeq + 1) e.indexEntries

/-- Deletes what is stored under a seq; `none` if nothing is. -/
def delete? (s : MemoryStore) (seq : Nat) : Option MemoryStore :=
  (s.events.get? seq).map fun e =>
    { s with
      events := s.events.erase seq
      indices := s.indices.remove seq e.indexEntries }

def view (s : MemoryStore) : View := ⟨s.lastSeq, s.events.map .event, s.indices⟩

end MemoryStore

end EventRelay
