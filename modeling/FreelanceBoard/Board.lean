import FreelanceBoard.Store

/-! What the operations of the board work with: a record store and a supply of fresh ids. -/
namespace FreelanceBoard

inductive BoardCall where
  | store (c : StoreCall)
  | freshId

namespace BoardCall

@[reducible] def Reply : BoardCall → Type
  | .store c => c.Reply
  | .freshId => String

end BoardCall

abbrev Board : Interface := ⟨BoardCall, BoardCall.Reply⟩

abbrev BoardProgram (α : Type) := Program Board Failure α

namespace Board

/-- A program on the store, as part of one on the board. -/
def onStore {α : Type} : StoreProgram α → BoardProgram α
  | .done a => .done a
  | .failed e => .failed e
  | .call c next => .call (.store c) fun r => onStore (next r)

def freshId : BoardProgram String := .call .freshId .done

def attempt {α : Type} (x : Except Fault α) : BoardProgram α := .ofExcept (Fault.lift x)

/-- Issues the ids of a sequence one by one, and leaves all else to the handler of a store. -/
def withIds {σ : Type} (ids : Nat → String) (handle : Handler Store Failure σ) :
    Handler Board Failure (σ × Nat)
  | .store c, (s, issued) =>
    let (outcome, t) := handle c s
    (outcome, (t, issued))
  | .freshId, (s, issued) => (.ok (ids issued), (s, issued + 1))

@[simp] theorem onStore_done {α : Type} (a : α) :
    onStore (.done a : StoreProgram α) = .done a := rfl

@[simp] theorem onStore_failed {α : Type} (e : Failure) :
    onStore (.failed e : StoreProgram α) = .failed e := rfl

/-- A program on the store issues no ids. -/
theorem run_onStore {α σ : Type} (ids : Nat → String) (handle : Handler Store Failure σ)
    (p : StoreProgram α) (s : σ) (issued : Nat) :
    (onStore p).run (withIds ids handle) (s, issued) =
      ((p.run handle s).1, ((p.run handle s).2, issued)) := by
  induction p generalizing s with
  | done a => rfl
  | failed e => rfl
  | call c next ih =>
    simp only [onStore, Program.run_call, withIds]
    rcases handle c s with ⟨r | r, t⟩
    · rfl
    · exact ih r t

end Board

end FreelanceBoard
