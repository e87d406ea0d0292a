import FreelanceBoard.Proofs.CatalogReads
import FreelanceBoard.Proofs.CatalogRun
import FreelanceBoard.Proofs.MemoryStore

/-! Runs of the catalog on a store in memory that was empty at first, whatever the operations and
their arguments are. -/
namespace FreelanceBoard

/-- Ids of which each is longer than the one before. -/
def longerIds (n : Nat) : String := String.ofList ('p' :: List.replicate n '0')

theorem longerIds_injective : Function.Injective longerIds := by
  intro a b hab
  have hlength := congrArg (fun t => t.toList.length) hab
  simpa [longerIds] using hlength

namespace Memory

variable {ids : Nat → String} {m : Memory} {L : Ledger}

/-- A list in the record of a user, empty where there is no record. -/
def listed (m : Memory) (field user : String) : Value :=
  match (m.entries Collection.users).slotOf? (.text user) with
  | some e => Fields.get e.record field
  | none => .list []

theorem Holds.listed_eq (h : m.Holds L.contents) {field : String} {items : Account → List String}
    (hitems : ∀ u : Account, Fields.get u.fields field = .texts (items u))
    (hnone : ∀ name, items ⟨name, [], []⟩ = []) (user : String) :
    m.listed field user = .texts (items (L.user (.text user))) := by
  have hslot : Entries.slotOf? ((L.contents Collection.users).map Fields.entry) (.text user) =
      _ := Entries.slotOf?_value (L.contents Collection.users) (.text user)
  rw [Gives.find?_users] at hslot
  rw [listed, (h _ Gives.users_mem_known).1, hslot, Ledger.user]
  cases L.user? (.text user) with
  | none => simp [hnone, Value.texts]
  | some u => exact hitems u

theorem handle_of_isRead {c : BoardCall} (hc : c.IsRead) (s : Memory × Nat) :
    (Board.withIds ids handle c s).2 = s := by
  obtain ⟨m, n⟩ := s
  cases c with
  | freshId => cases hc
  | store c => cases c <;> first | rfl | cases hc

theorem allows_all (o : Operation) : o.Allows fun _ => True := by
  cases o with
  | hireFreelancer project proposal freelancer => exact ⟨trivial, trivial⟩
  | addProposal actor project letter budget => exact ⟨trivial, fun _ _ _ => trivial⟩
  | addProject actor title scope budget skills => exact fun _ _ _ => trivial
  | _ => exact trivial

/-- From one ledger an operation leads to another, in one of the ways there are. -/
theorem run_operation (h : m.Holds L.contents) (n : Nat) (o : Operation) :
    ∃ m' L' n', (o.program.run (Board.withIds ids handle) (m, n)).2 = (m', n') ∧
      m'.Holds L'.contents ∧ Effect ids o (L, n) (L', n') := by
  by_cases hreads : o.OnlyReads
  · have hstate : (o.program.run (Board.withIds ids handle) (m, n)).2 = (m, n) :=
      hreads.reads.run_state (fun c hc s => handle_of_isRead hc s) (m, n)
    exact ⟨m, L, n, hstate, h, .nothing (Nat.le_refl n)⟩
  · obtain ⟨outcome, after, heffect, hgives⟩ :=
      o.gives_effect (fun _ => trivial) ids L n (allows_all o) hreads
    obtain ⟨_, m', hrun, hholds, -⟩ := hgives serves m h
    exact ⟨m', after.1, after.2, by rw [hrun], hholds, heffect⟩

/-- What the effects of allowed operations preserve holds at the end of a run of them, if it held at its
start. -/
theorem run_allowed_operations (Allowed : Operation → Prop) (Kept : Ledger × Nat → Prop)
    (hstep : ∀ o a b, Allowed o → Effect ids o a b → Kept a → Kept b) (ops : List Operation)
    (hallowed : ∀ o ∈ ops, Allowed o) (h : m.Holds L.contents) {n : Nat} (hkept : Kept (L, n)) :
    ∃ m' L' n', (Operation.runAll (Board.withIds ids handle) ops (m, n)).2 = (m', n') ∧
      m'.Holds L'.contents ∧ Kept (L', n') := by
  induction ops generalizing m L n with
  | nil => exact ⟨m, L, n, rfl, h, hkept⟩
  | cons o rest ih =>
    have ho := hallowed o List.mem_cons_self
    have hrest : ∀ o ∈ rest, Allowed o := fun o ho => hallowed o (List.mem_cons_of_mem _ ho)
    obtain ⟨m', L', n', hrun, hholds, heffect⟩ := run_operation h n o
    rw [Operation.runAll_cons, hrun]
    exact ih hrest hholds (hstep o _ _ ho heffect hkept)

/-- What every effect preserves holds at the end of a run, if it held at its start. -/
theorem run_operations (Kept : Ledger × Nat → Prop)
    (hstep : ∀ o a b, Effect ids o a b → Kept a → Kept b) (ops : List Operation)
    (h : m.Holds L.contents) {n : Nat} (hkept : Kept (L, n)) :
    ∃ m' L' n', (Operation.runAll (Board.withIds ids handle) ops (m, n)).2 = (m', n') ∧
      m'.Holds L'.contents ∧ Kept (L', n') :=
  run_allowed_operations (fun _ => True) Kept (fun o a b _ => hstep o a b) ops (fun _ _ => trivial) h hkept

end Memory

end FreelanceBoard
