import FreelanceBoard.Store
import FreelanceBoard.Store.Table
import FreelanceBoard.Text.Relevance

/-! A store in memory: its collections, and how it answers the calls. -/
namespace FreelanceBoard

/-- The collections by name; one that is not there has no records. -/
structure Memory where
  tables : List (String × Table)

namespace Memory

def empty : Memory := ⟨[]⟩

/-- The store that holds the given entries. -/
def holding (collections : List (String × Entries)) : Memory :=
  ⟨collections.map fun (name, es) => (name, .ofEntries es)⟩

def table (m : Memory) (name : String) : Table := (m.tables.lookup name).getD .empty

def entries (m : Memory) (name : String) : Entries := (m.table name).entries

def putTable (tables : List (String × Table)) (name : String) (t : Table) :
    List (String × Table) :=
  match tables with
  | [] => [(name, t)]
  | (n, u) :: rest => if n = name then (n, t) :: rest else (n, u) :: putTable rest name t

def setTable (m : Memory) (name : String) (t : Table) : Memory := ⟨putTable m.tables name t⟩

@[simp] theorem entries_empty (name : String) : empty.entries name = [] := rfl

theorem lookup_putTable_self (tables : List (String × Table)) (name : String) (t : Table) :
    (putTable tables name t).lookup name = some t := by
  induction tables with
  | nil => simp [putTable]
  | cons entry rest ih =>
    obtain ⟨n, u⟩ := entry
    by_cases h : n = name
    · simp [putTable, h]
    · have hn : (name == n) = false := by simpa using fun e => h e.symm
      simp [putTable, h, List.lookup_cons, hn, ih]

theorem lookup_putTable_of_ne (tables : List (String × Table)) {name other : String} (t : Table)
    (h : other ≠ name) : (putTable tables name t).lookup other = tables.lookup other := by
  have ho : (other == name) = false := by simpa using h
  induction tables with
  | nil => simp [putTable, List.lookup_cons, ho]
  | cons entry rest ih =>
    obtain ⟨n, u⟩ := entry
    by_cases hn : n = name
    · subst hn
      simp [putTable, List.lookup_cons, ho]
    · simp [putTable, hn, List.lookup_cons, ih]

@[simp] theorem table_setTable_self (m : Memory) (name : String) (t : Table) :
    (m.setTable name t).table name = t := by
  simp [table, setTable, lookup_putTable_self]

theorem table_setTable_of_ne (m : Memory) {name other : String} (t : Table) (h : other ≠ name) :
    (m.setTable name t).table other = m.table other := by
  simp [table, setTable, lookup_putTable_of_ne _ _ h]

@[simp] theorem entries_setTable_self (m : Memory) (name : String) (t : Table) :
    (m.setTable name t).entries name = t.entries := by
  rw [entries, table_setTable_self]

theorem entries_setTable_of_ne (m : Memory) {name other : String} (t : Table) (h : other ≠ name) :
    (m.setTable name t).entries other = m.entries other := by
  rw [entries, table_setTable_of_ne m t h, entries]

/-- The records of a collection in order. -/
def contents (m : Memory) (name : String) : List Value := (m.entries name).records

/-- A record as it is stored first, under an id that can be a key. -/
def add (m : Memory) (name : String) (record : Value) : Except Fault Memory :=
  match record with
  | .object fields => match fields.lookup "id" with
    | none => .error .noSuchKey
    | some id =>
      if id.isKey then .ok (m.setTable name ((m.table name).put id fields)) else .error .wrongKind
  | _ => .error .wrongKind

def addAll (m : Memory) (name : String) (records : List Value) : Except Fault Memory :=
  records.foldlM (fun m r => m.add name r) m

/-- The store that holds the given collections. -/
def ofCollections (collections : Fields) : Except Fault Memory :=
  collections.foldlM (fun m (name, records) => do m.addAll name (← records.elements)) empty

/-- The records that a predicate admits, in order, unless it fails on one of them. -/
def select (predicate : Option Predicate) (records : List Value) : Except Fault (List Value) :=
  match predicate with
  | none => .ok records
  | some p => Value.keepIf p.admits records

/-- How well the text under the field of a stage answers its query. -/
def relevance (stage : SearchStage) (record : Fields) : Nat :=
  match record.lookup stage.field with
  | some (.text t) => Text.fuzzyScore stage.query t stage.edits
  | _ => 0

/-- The records that answer a search, the best first, equally good ones in order. -/
def ranked (stage : SearchStage) (es : Entries) : List Value :=
  let scored := (es.map fun e => (relevance stage e.record, e.record)).filter fun s => 0 < s.1
  (scored.mergeSort fun a b => decide (b.1 ≤ a.1)).map fun s => .object s.2

/-- A lookup by what cannot be a key fails. -/
def lookup (m : Memory) (name : String) (id : Value) : Except Failure (Option Entry) :=
  if id.isKey then .ok ((m.entries name).slotOf? id) else .error (.fault .wrongKind)

def insert (m : Memory) (name : String) (record : Fields) : Except Failure Value × Memory :=
  match record.lookup "id" with
  | none => (.error .recordWithoutId, m)
  | some id =>
    if id.isKey then
      (.ok (.object record), m.setTable name ((m.table name).put id record))
    else (.error (.fault .wrongKind), m)

def update (m : Memory) (name : String) (id : Value) (changes : Fields) :
    Except Failure (Option Value) × Memory :=
  match m.lookup name id with
  | .error e => (.error e, m)
  | .ok none => (.ok none, m)
  | .ok (some entry) =>
    let record := entry.record.putAll changes
    (.ok (some (.object record)), m.setTable name ((m.table name).put id record))

/-- From an empty collection anything can be deleted. -/
def delete (m : Memory) (name : String) (id : Value) : Except Failure Bool × Memory :=
  if (m.entries name).isEmpty then (.ok false, m)
  else match m.lookup name id with
    | .error e => (.error e, m)
    | .ok none => (.ok false, m)
    | .ok (some _) => (.ok true, m.setTable name ((m.table name).erase id))

def handle : Handler Store Failure Memory
  | .findById name id, m =>
    ((m.lookup name id).map fun e => e.map fun e => Value.object e.record, m)
  | .find name predicate, m => (Fault.lift (select predicate (m.contents name)), m)
  | .insert name record, m => m.insert name record
  | .update name id changes, m => m.update name id changes
  | .delete name id, m => m.delete name id
  | .search stage, m => (.ok (ranked stage (m.entries Collection.projects)), m)
  | .narrow stage candidates, m =>
    (Fault.lift (Value.keepIf stage.predicate.admits (candidates.getD (m.contents Collection.projects))), m)

end Memory

end FreelanceBoard
