import EventRelay.Filter
import EventRelay.Index
/-!
# Plans

How a store is searched for the events of one filter: in which index, under which stems, and whether
an entry found there decides a match by itself.  The primary field of the filter chooses the index;
authors and kinds together are searched pair by pair while there are few pairs.
-/

namespace EventRelay

structure Plan where
  index : IndexKind
  stems : List Bytes
  /-- An entry under one of the stems within the times asked for is a match. -/
  indexOnly : Bool
  deriving DecidableEq

namespace Plan

/-- The largest number of pairs that is told apart from more. -/
def maxPairs : Nat := UInt64.size - 1

/-- The number of pairs of an author and a kind. -/
def pairs (authors : IdSet) (kinds : KindSet) : Nat := min (authors.size * kinds.size) maxPairs

/-- The plan of a filter that asks for authors. -/
def ofAuthors (f : Filter) (authors : IdSet) (authorKindCap : UInt64) : Plan :=
  match f.kinds with
  | none => ⟨.author, authors.toList.map Stem.ofAuthor, f.indexOnly⟩
  | some kinds =>
    if pairs authors kinds < authorKindCap.toNat then
      ⟨.authorKind, authors.toList.flatMap fun a => kinds.toList.map fun k => Stem.ofAuthorKind a k,
        f.indexOnly⟩
    else ⟨.author, authors.toList.map Stem.ofAuthor, false⟩

def ofFilter (f : Filter) (authorKindCap : UInt64) : Plan :=
  if f.neverMatch then ⟨.createdAt, [], f.indexOnly⟩
  else
    match f.primaryField with
    | .ids ids => ⟨.id, ids.toList.map Stem.ofId, f.indexOnly⟩
    | .tag name values => ⟨.tag, values.toList.map (Stem.ofTag name), f.indexOnly⟩
    | .authors authors => ofAuthors f authors authorKindCap
    | .kinds kinds => ⟨.kind, kinds.toList.map Stem.ofKind, f.indexOnly⟩
    | .none => ⟨.createdAt, [[]], f.indexOnly⟩

end Plan

end EventRelay
