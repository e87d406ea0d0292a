import FreelanceBoard.Proofs.FailFast

/-! Runs that are cut off: after some calls each further request fails, and has no effect. A program
that ends with the first request that fails does nothing then that it would not have done anyway. -/
namespace FreelanceBoard

namespace Program

variable {I : Interface} {ε σ α β : Type} {handle : Handler I ε σ} {P : I.Call → σ → Prop}

/-- Each call of a run is made in a state that it fits. -/
def Fits (handle : Handler I ε σ) (P : I.Call → σ → Prop) : Program I ε α → σ → Prop
  | .done _, _ => True
  | .failed _, _ => True
  | .call c next, s => P c s ∧ ∀ r t, handle c s = (.ok r, t) → (next r).Fits handle P t

/-- Each call of a run is made in a state that it fits and is answered, and the run succeeds as
described. -/
def Reaches (handle : Handler I ε σ) (P : I.Call → σ → Prop) :
    Program I ε α → σ → (α → σ → Prop) → Prop
  | .done a, s, Q => Q a s
  | .failed _, _, _ => False
  | .call c next, s, Q => P c s ∧ ∃ r t, handle c s = (.ok r, t) ∧ (next r).Reaches handle P t Q

theorem Fits.mono {P' : I.Call → σ → Prop} {p : Program I ε α} {s : σ} (h : p.Fits handle P s)
    (hP : ∀ c s, P c s → P' c s) : p.Fits handle P' s := by
  induction p generalizing s with
  | done a => trivial
  | failed e => trivial
  | call c next ih => exact ⟨hP c s h.1, fun r t hcall => ih r (h.2 r t hcall)⟩

namespace Reaches

variable {p : Program I ε α} {f : α → Program I ε β} {s : σ} {Q : α → σ → Prop} {R : β → σ → Prop}

theorem bind (h : p.Reaches handle P s fun a t => (f a).Reaches handle P t R) :
    (p.bind f).Reaches handle P s R := by
  induction p generalizing s with
  | done a => exact h
  | failed e => exact h
  | call c next ih =>
    obtain ⟨hfits, r, t, hcall, hrest⟩ := h
    exact ⟨hfits, r, t, hcall, ih r hrest⟩

theorem mono {Q' : α → σ → Prop} (h : p.Reaches handle P s Q) (hQ : ∀ a t, Q a t → Q' a t) :
    p.Reaches handle P s Q' := by
  induction p generalizing s with
  | done a => exact hQ a s h
  | failed e => exact h
  | call c next ih =>
    obtain ⟨hfits, r, t, hcall, hrest⟩ := h
    exact ⟨hfits, r, t, hcall, ih r hrest⟩

theorem fits (h : p.Reaches handle P s Q) : p.Fits handle P s := by
  induction p generalizing s with
  | done a => trivial
  | failed e => trivial
  | call c next ih =>
    obtain ⟨hfits, r, t, hcall, hrest⟩ := h
    refine ⟨hfits, fun r' t' hcall' => ?_⟩
    cases hcall.symm.trans hcall'
    exact ih r hrest

theorem exists_run (h : p.Reaches handle P s Q) : ∃ a t, p.run handle s = (.ok a, t) ∧ Q a t := by
  induction p generalizing s with
  | done a => exact ⟨a, s, rfl, h⟩
  | failed e => exact h.elim
  | call c next ih =>
    obtain ⟨-, r, t, hcall, hrest⟩ := h
    rw [run_call, hcall]
    exact ih r hrest

end Reaches

end Program

open Program

variable {α σ : Type} {handle : Handler Server Failure σ} {P : ServerCall → σ → Prop}

/-- Where a run is cut off, and how the requests fail from there on. -/
structure Cut where
  calls : Nat
  failure : ClientFailure

/-- So many calls more are answered; then each request fails, without effect. -/
def cutting (handle : Handler Server Failure σ) (c : ClientFailure) :
    Handler Server Failure (σ × Nat)
  | .request _, (s, 0) => (.ok (.error c), (s, 0))
  | made, (s, left) => ((handle made s).1, ((handle made s).2, left - 1))

/-- A program runs until it is cut off. -/
def Cut.run (handle : Handler Server Failure σ) (cut : Cut) (p : ServerProgram α) (s : σ) : σ :=
  (Program.run (cutting handle cut.failure) p (s, cut.calls)).2.1

/-- The calls of a run from a state fit, whether it is cut off or not. -/
def AlwaysFits (handle : Handler Server Failure σ) (P : ServerCall → σ → Prop) (p : ServerProgram α)
    (s : σ) : Prop :=
  p.Fits handle P s ∧
    ∀ cut : Cut, p.Fits (cutting handle cut.failure) (fun call x => P call x.1) (s, cut.calls)

theorem AlwaysFits.mono {P' : ServerCall → σ → Prop} {p : ServerProgram α} {s : σ}
    (h : AlwaysFits handle P p s) (hP : ∀ made s, P made s → P' made s) : AlwaysFits handle P' p s :=
  ⟨h.1.mono hP, fun cut => (h.2 cut).mono fun made x => hP made x.1⟩

section FailFast

variable {R : Request → Prop} {p : ServerProgram α} {s : σ} {Q : α → σ → Prop}

/-- A request is cut off, or a call is answered as if the run were not. -/
theorem cutting_cases (handle : Handler Server Failure σ) (c : ClientFailure) (made : ServerCall)
    (s : σ) (left : Nat) :
    (∃ r, made = .request r ∧ left = 0) ∨
      cutting handle c made (s, left) = ((handle made s).1, ((handle made s).2, left - 1)) := by
  cases made with
  | request r =>
    cases left with
    | zero => exact .inl ⟨r, rfl, rfl⟩
    | succ n => exact .inr rfl
  | pause seconds => exact .inr rfl
  | report line => exact .inr rfl

theorem Program.Reaches.fits_cutting (hp : Server.FailFast R p) (h : p.Reaches handle P s Q)
    (c : ClientFailure) (left : Nat) :
    p.Fits (cutting handle c) (fun made x => P made x.1) (s, left) := by
  induction p generalizing s left with
  | done a => trivial
  | failed e => trivial
  | call made next ih =>
    obtain ⟨hfits, r, t, hcall, hrest⟩ := h
    refine ⟨hfits, fun r' t' hcall' => ?_⟩
    rcases cutting_cases handle c made s left with ⟨request, rfl, rfl⟩ | hgoes
    · cases hcall'
      rw [hp.2.1 c]
      trivial
    · rw [hgoes, hcall] at hcall'
      cases hcall'
      exact ih r (hp.next r) hrest _

/-- What a run leaves that is cut off is what some call was to be made in, or what the whole run
leaves. -/
theorem Program.Reaches.run_cutting (hp : Server.FailFast R p) (h : p.Reaches handle P s Q)
    (c : ClientFailure) (left : Nat) :
    (∃ made, P made (p.run (cutting handle c) (s, left)).2.1) ∨
      ∃ a, Q a (p.run (cutting handle c) (s, left)).2.1 := by
  induction p generalizing s left with
  | done a => exact .inr ⟨a, h⟩
  | failed e => exact h.elim
  | call made next ih =>
    obtain ⟨hfits, r, t, hcall, hrest⟩ := h
    rw [run_call]
    rcases cutting_cases handle c made s left with ⟨request, rfl, rfl⟩ | hgoes
    · -- The request that is cut off was to be made in the state that is left.
      refine .inl ⟨.request request, ?_⟩
      change P _ (Program.run (cutting handle c) (next (.error c)) (s, 0)).2.1
      rw [hp.2.1 c]
      exact hfits
    · rw [hgoes, hcall]
      exact ih r (hp.next r) hrest _

theorem Program.Reaches.alwaysFits (hp : Server.FailFast R p) (h : p.Reaches handle P s Q) :
    AlwaysFits handle P p s :=
  ⟨h.fits, fun cut => h.fits_cutting hp cut.failure cut.calls⟩

end FailFast

end FreelanceBoard
