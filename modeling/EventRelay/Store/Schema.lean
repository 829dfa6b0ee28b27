import EventRelay.Store.Rows
/-!
# The schema of a store

A store in tables is opened by running its schema on the file: statement by statement, whatever is
missing of its tables is made.  So opening turns a file without tables into an empty store, and a store
that is there is what it was.

Main statements: `RowStore.opened_eq` and, made of it, `RowStore.reopen_eq`.
-/

namespace EventRelay

/-- The tables of a file, as far as they have been made. -/
structure Tables where
  /-- The table of the last seq, with its only row if it has been written. -/
  lastSeq : Option (Option Nat)
  rows : Option (SeqMap Row)
  index : IndexKind → Option Table

/-- The statements of the schema. -/
inductive Statement where
  /-- `CREATE TABLE IF NOT EXISTS meta` -/
  | createLastSeq
  /-- `INSERT OR IGNORE INTO meta` -/
  | insertLastSeq
  /-- `CREATE TABLE IF NOT EXISTS events` -/
  | createRows
  /-- `CREATE TABLE IF NOT EXISTS` for the table of an index -/
  | createIndex (k : IndexKind)

namespace Tables

/-- The tables of a new file. -/
def none : Tables := ⟨.none, .none, fun _ => .none⟩

/-- Runs a statement: what is there already stays as it is. -/
def run (t : Tables) : Statement → Tables
  | .createLastSeq => { t with lastSeq := some (t.lastSeq.getD .none) }
  | .insertLastSeq => { t with lastSeq := t.lastSeq.map fun row => some (row.getD 0) }
  | .createRows => { t with rows := some (t.rows.getD .empty) }
  | .createIndex k =>
    { t with index := fun j => if j = k then some ((t.index j).getD .empty) else t.index j }

end Tables

/-- The schema: the last seq and its row, the events, an index after the other. -/
def schema : List Statement :=
  [.createLastSeq, .insertLastSeq, .createRows] ++ IndexKind.all.map .createIndex

namespace Tables

/-- The tables after the schema. -/
def initialise (t : Tables) : Tables := schema.foldl run t

/-- The store that the tables hold; `none` if one of them or the last seq is missing. -/
def store? (t : Tables) : Option RowStore := do
  let lastSeq ← t.lastSeq.join
  let rows ← t.rows
  return ⟨lastSeq, rows, ⟨← t.index .id, ← t.index .author, ← t.index .kind, ← t.index .authorKind,
    ← t.index .tag, ← t.index .createdAt⟩⟩

variable {t : Tables}

/-- After the schema nothing is missing, and what has been there is there. -/
theorem initialise_eq : t.initialise =
    { lastSeq := some (some (t.lastSeq.join.getD 0))
      rows := some (t.rows.getD .empty)
      index := fun k => some ((t.index k).getD .empty) } := by
  obtain ⟨lastSeq, rows, index⟩ := t
  simp only [initialise, schema, IndexKind.all, List.map_cons, List.map_nil, List.cons_append,
    List.nil_append, List.foldl_cons, List.foldl_nil, run, mk.injEq, true_and]
  constructor
  · rcases lastSeq with _ | _ | n <;> rfl
  · funext k
    cases k <;> rfl

theorem isSome_store?_initialise : t.initialise.store?.isSome := by
  rw [initialise_eq]
  rfl

end Tables

namespace RowStore

/-- Opens the store of a file with these tables. -/
def opened (t : Tables) : RowStore := t.initialise.store?.get Tables.isSome_store?_initialise

/-- The tables of a store. -/
def tables (s : RowStore) : Tables := ⟨some (some s.lastSeq), some s.rows, fun k => some (s.indices.get k)⟩

/-- Opens a store again. -/
def reopen (s : RowStore) : RowStore := opened s.tables

theorem opened_eq {t : Tables} : opened t =
    { lastSeq := t.lastSeq.join.getD 0
      rows := t.rows.getD .empty
      indices := ⟨(t.index .id).getD .empty, (t.index .author).getD .empty, (t.index .kind).getD .empty,
        (t.index .authorKind).getD .empty, (t.index .tag).getD .empty,
        (t.index .createdAt).getD .empty⟩ } :=
  Option.get_of_eq_some _ (congrArg Tables.store? Tables.initialise_eq)

/-- A new file becomes an empty store. -/
theorem opened_none : opened .none = .empty := opened_eq

/-- A store that is opened again is what it was. -/
@[simp] theorem reopen_eq {s : RowStore} : s.reopen = s := opened_eq

end RowStore

end EventRelay
