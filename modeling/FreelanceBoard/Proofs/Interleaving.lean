import FreelanceBoard.Proofs.CatalogReads
import FreelanceBoard.Proofs.MemoryRuns

/-! Two operations of the catalog at the same time, on one store in memory. Each call of the store is
made in one go; between two calls of the one operation there may be any calls of the other. -/
namespace FreelanceBoard

namespace Board

variable {α β σ : Type} {id : String}

/-- What is left of a program on the board if whoever asks for an id is issued a given one: its calls
of the store. -/
def issuing (id : String) : BoardProgram α → StoreProgram α
  | .done a => .done a
  | .failed e => .failed e
  | .call (.store c) next => .call c fun r => issuing id (next r)
  | .call .freshId next => issuing id (next id)

theorem issuing_bind (p : BoardProgram α) (f : α → BoardProgram β) :
    issuing id (p.bind f) = (issuing id p).bind fun a => issuing id (f a) := by
  induction p with
  | done a => rfl
  | failed e => rfl
  | call c next ih =>
    cases c with
    | store c => simp only [Program.call_bind, issuing, ih]
    | freshId => exact ih id

theorem issuing_onStore (p : StoreProgram α) : issuing id (onStore p) = p := by
  induction p with
  | done a => rfl
  | failed e => rfl
  | call c next ih => simp only [onStore, issuing, ih]

theorem run_issuing (handle : Handler Store Failure σ) (p : BoardProgram α) (s : σ) (n : Nat) :
    ∃ k, p.run (withIds (fun _ => id) handle) (s, n) =
      (((issuing id p).run handle s).1, (((issuing id p).run handle s).2, k)) := by
  induction p generalizing s n with
  | done a => exact ⟨n, rfl⟩
  | failed e => exact ⟨n, rfl⟩
  | call c next ih =>
    cases c with
    | store c =>
      simp only [issuing, Program.run_call, withIds]
      rcases handle c s with ⟨r | r, t⟩
      · exact ⟨n, rfl⟩
      · exact ih r t n
    | freshId => exact ih id s (n + 1)

end Board

namespace Operation

def calls (o : Operation) (id : String) : StoreProgram Value := Board.issuing id o.program

def after (o : Operation) (id : String) (m : Memory) : Memory :=
  ((o.calls id).run Memory.handle m).2

def Spares (id : String) : Operation → Prop
  | .deleteProject _ project => project ≠ .text id
  | _ => True

end Operation

/-- A call of a store, and the store to which it is made. -/
structure Event where
  call : StoreCall
  before : Memory

/-- The calls of two programs mixed with each other until both have succeeded, with the events of
either program. -/
inductive Interleaving {α β : Type} :
    StoreProgram α → StoreProgram β → Memory → List Event → List Event → Memory → Prop
  | done (a : α) (b : β) (m : Memory) : Interleaving (.done a) (.done b) m [] [] m
  | first {c : StoreCall} {next : c.Reply → StoreProgram α} {q : StoreProgram β} {m m' t : Memory}
      {r : c.Reply} {es fs : List Event} (h : Memory.handle c m = (.ok r, m'))
      (rest : Interleaving (next r) q m' es fs t) :
      Interleaving (.call c next) q m (⟨c, m⟩ :: es) fs t
  | second {p : StoreProgram α} {c : StoreCall} {next : c.Reply → StoreProgram β} {m m' t : Memory}
      {r : c.Reply} {es fs : List Event} (h : Memory.handle c m = (.ok r, m'))
      (rest : Interleaving p (next r) m' es fs t) :
      Interleaving p (.call c next) m es (⟨c, m⟩ :: fs) t

/-- The fields that hold what several operations add to or take from. -/
def sharedLists : List String := ["projects", "proposals", "proposers", "freelancers"]

namespace StoreCall

def Finds (name : String) (id : Value) : StoreCall → Prop
  | .findById n k => n = name ∧ k = id
  | .update n k _ => n = name ∧ k = id
  | _ => False

def Sets (name : String) (id : Value) (field : String) : StoreCall → Prop
  | .insert n record => n = name ∧ record.lookup "id" = some id ∧ field ∈ Fields.keys record
  | .update n k changes => n = name ∧ k = id ∧ field ∈ Fields.keys changes
  | _ => False

end StoreCall

namespace Memory

def listAt (m : Memory) (name : String) (id : Value) (field : String) : Value :=
  match m.record? name id with
  | some r => Fields.get r field
  | none => .list []

def Vacant (m : Memory) (id : String) : Prop :=
  m.record? Collection.projects (.text id) = none ∧
    m.record? Collection.proposals (.text id) = none

/-- The same records in every collection, in whatever order. -/
def SameRecords (m m' : Memory) : Prop :=
  ∀ name ∈ Collection.known, (m.contents name).Perm (m'.contents name)

end Memory

/-- Where the later call sets a shared list of a stored record, the list is still as the earlier call
has found it. -/
def Event.Undisturbed (earlier later : Event) : Prop :=
  ∀ name id, ∀ field ∈ sharedLists, earlier.call.Finds name id → later.call.Sets name id field →
    (later.before.record? name id).isSome →
      later.before.listAt name id field = earlier.before.listAt name id field

namespace Event.Undisturbed

variable {e e' : Event} {name : String} {id : Value} {m : Memory}

theorem of_before_eq (h : e'.before = e.before) : e.Undisturbed e' := by
  intro name id field _ _ _ _
  rw [h]

theorem findById : e.Undisturbed ⟨.findById name id, m⟩ := fun _ _ _ _ _ hsets => hsets.elim

theorem delete : e.Undisturbed ⟨.delete name id, m⟩ := fun _ _ _ _ _ hsets => hsets.elim

theorem of_insert {record : Fields} : Undisturbed ⟨.insert name record, m⟩ e :=
  fun _ _ _ _ hfinds => hfinds.elim

theorem update_of_ne {name' : String} {id' : Value} {changes : Fields} {m' : Memory}
    (h : name ≠ name') : Undisturbed ⟨.findById name id, m⟩ ⟨.update name' id' changes, m'⟩ :=
  fun _ _ _ _ hfinds hsets => absurd (hfinds.1.trans hsets.1.symm) h

end Event.Undisturbed

end FreelanceBoard
