import EventRelay.Event
import EventRelay.OrderedSet
/-!
# Filters

A filter accepts an event if every field that it names does: each field lists values, and the
event's value has to be among them; a tag field asks for some tag of that name with a listed value.
A group accepts what one of its filters accepts.

The *primary field* of a filter is the one that a store is searched by: identifiers first, then the
tag with the fewest values, then authors, then kinds.
-/

namespace EventRelay

open Std

abbrev IdSet := OrderedSet Id Id.cmp

abbrev KindSet := OrderedSet UInt64 compare

abbrev ValueSet := OrderedSet Bytes Bytes.cmp

structure Filter where
  ids : Option IdSet
  authors : Option IdSet
  kinds : Option KindSet
  /-- The values asked for by tag name, names ascending. -/
  tags : List (UInt8 × ValueSet)
  since : UInt64
  upTo : UInt64
  limit : UInt64
  /-- Some field lists no value at all. -/
  neverMatch : Bool
  /-- Membership in the index of the primary field, with the times, decides a match. -/
  indexOnly : Bool
  deriving DecidableEq

/-- The field that a store is searched by. -/
inductive PrimaryField where
  | ids (set : IdSet)
  | tag (name : UInt8) (values : ValueSet)
  | authors (set : IdSet)
  | kinds (set : KindSet)
  | none
  deriving DecidableEq

namespace Filter

/-- The largest word: the end of an open time range, and the limit of a filter without one. -/
def unbounded : UInt64 := 0xFFFFFFFFFFFFFFFF

/-- The tag with the fewest values, the first of several. -/
def fewestValues : List (UInt8 × ValueSet) → Option (UInt8 × ValueSet)
  | [] => none
  | t :: rest =>
    match fewestValues rest with
    | some u => if t.2.size ≤ u.2.size then some t else some u
    | none => some t

def primaryField (f : Filter) : PrimaryField :=
  match f.ids, fewestValues f.tags, f.authors, f.kinds with
  | some ids, _, _, _ => .ids ids
  | none, some (name, values), _, _ => .tag name values
  | none, none, some authors, _ => .authors authors
  | none, none, none, some kinds => .kinds kinds
  | none, none, none, none => .none

def matchesTime (f : Filter) (time : UInt64) : Bool := f.since ≤ time && time ≤ f.upTo

/-- Whether a filter accepts an event. -/
def accepts (f : Filter) (e : Event) : Bool :=
  !f.neverMatch && f.matchesTime e.createdAt
    && f.ids.all (·.contains e.id)
    && f.authors.all (·.contains e.author)
    && f.kinds.all (·.contains e.kind)
    && f.tags.all fun t => (e.tagValues t.1).any fun v => t.2.contains v

/-- Whether a filter asks for everything stored. -/
def asksForAll (f : Filter) : Bool :=
  f.ids.isNone && f.authors.isNone && f.kinds.isNone && f.tags.isEmpty && f.limit = unbounded

end Filter

/-- Filters of one subscription; an event that one of them accepts is accepted. -/
structure FilterGroup where
  filters : List Filter
  deriving DecidableEq

namespace FilterGroup

/-- Filters that can never match are left out. -/
def ofFilters (fs : List Filter) : FilterGroup := ⟨fs.filter fun f => !f.neverMatch⟩

def accepts (g : FilterGroup) (e : Event) : Bool := g.filters.any (·.accepts e)

def asksForAll (g : FilterGroup) : Bool :=
  match g.filters with
  | [f] => f.asksForAll
  | _ => false

end FilterGroup

end EventRelay
