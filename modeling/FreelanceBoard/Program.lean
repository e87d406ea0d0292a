/-! Programs that work through calls whose replies they cannot foresee: trees that branch on each
reply. A program is run by a handler, which answers calls on a state of its own and may refuse one,
and then the program ends there. -/
namespace FreelanceBoard

/-- What can be called, and the type of the reply to each call. -/
structure Interface where
  Call : Type
  Reply : Call → Type

inductive Program (I : Interface) (ε α : Type) where
  | done (a : α)
  | failed (e : ε)
  | call (c : I.Call) (next : I.Reply c → Program I ε α)

/-- Answers a call on the state `σ`. -/
abbrev Handler (I : Interface) (ε σ : Type) := (c : I.Call) → σ → Except ε (I.Reply c) × σ

namespace Program

variable {I : Interface} {ε σ α β γ : Type}

def bind : Program I ε α → (α → Program I ε β) → Program I ε β
  | .done a, f => f a
  | .failed e, _ => .failed e
  | .call c next, f => .call c fun r => (next r).bind f

instance : Monad (Program I ε) where
  pure := .done
  bind := bind

/-- The program of a single call. -/
def ask (c : I.Call) : Program I ε (I.Reply c) := .call c .done

def ofExcept : Except ε α → Program I ε α
  | .ok a => .done a
  | .error e => .failed e

def run (handle : Handler I ε σ) : Program I ε α → σ → Except ε α × σ
  | .done a, s => (.ok a, s)
  | .failed e, s => (.error e, s)
  | .call c next, s =>
    match handle c s with
    | (.ok r, t) => (next r).run handle t
    | (.error e, t) => (.error e, t)

@[simp] theorem pure_eq (a : α) : (pure a : Program I ε α) = .done a := rfl

@[simp] theorem bind_eq (p : Program I ε α) (f : α → Program I ε β) : p >>= f = p.bind f := rfl

@[simp] theorem done_bind (a : α) (f : α → Program I ε β) : (done a).bind f = f a := rfl

@[simp] theorem failed_bind (e : ε) (f : α → Program I ε β) : (failed e).bind f = failed e := rfl

@[simp] theorem call_bind (c : I.Call) (next : I.Reply c → Program I ε α)
    (f : α → Program I ε β) : (call c next).bind f = call c fun r => (next r).bind f := rfl

theorem bind_done (p : Program I ε α) : p.bind done = p := by
  induction p with
  | done a => rfl
  | failed e => rfl
  | call c next ih => simp only [call_bind, ih]

theorem bind_assoc (p : Program I ε α) (f : α → Program I ε β) (g : β → Program I ε γ) :
    (p.bind f).bind g = p.bind fun a => (f a).bind g := by
  induction p with
  | done a => rfl
  | failed e => rfl
  | call c next ih => simp only [call_bind, ih]

@[simp] theorem run_done (handle : Handler I ε σ) (a : α) (s : σ) :
    (done a).run handle s = (.ok a, s) := rfl

@[simp] theorem run_failed (handle : Handler I ε σ) (e : ε) (s : σ) :
    (failed e : Program I ε α).run handle s = (.error e, s) := rfl

theorem run_call (handle : Handler I ε σ) (c : I.Call) (next : I.Reply c → Program I ε α) (s : σ) :
    (call c next).run handle s = match handle c s with
      | (.ok r, t) => (next r).run handle t
      | (.error e, t) => (.error e, t) := by
  rw [run]

theorem run_bind (handle : Handler I ε σ) (p : Program I ε α) (f : α → Program I ε β) (s : σ) :
    (p.bind f).run handle s = match p.run handle s with
      | (.ok a, t) => (f a).run handle t
      | (.error e, t) => (.error e, t) := by
  induction p generalizing s with
  | done a => rfl
  | failed e => rfl
  | call c next ih =>
    simp only [call_bind, run_call]
    rcases handle c s with ⟨r | r, t⟩
    · rfl
    · exact ih r t

end Program

end FreelanceBoard
