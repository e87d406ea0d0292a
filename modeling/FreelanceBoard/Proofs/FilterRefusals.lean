import FreelanceBoard.Proofs.FilterPlan
import FreelanceBoard.Proofs.Rounding
import FreelanceBoard.Search
import FreelanceBoard.Store.Memory

/-! How a project search fails before it reaches a store. A raw filter is refused or has a plan,
with one exception: an active budget may have a bound that no double stands for, and what is wrong
then is said of the bound and not of the filter. -/
namespace FreelanceBoard

/-- The failures that refuse a filter. -/
def Failure.RefusesFilter : Failure → Prop
  | .filterNotObject _ => True
  | .filterInvalid _ => True
  | _ => False

namespace Program

variable {I : Interface} {ε σ α β : Type}

/-- The calls of a run, in order; a call that is refused is the last one. -/
def calls (handle : Handler I ε σ) : Program I ε α → σ → List I.Call
  | .done _, _ => []
  | .failed _, _ => []
  | .call c next, s =>
    match handle c s with
    | (.ok r, t) => c :: (next r).calls handle t
    | (.error _, _) => [c]

/-- A program that does not fail unless one of its calls does. -/
def Unfailing : Program I ε α → Prop
  | .done _ => True
  | .failed _ => False
  | .call _ next => ∀ r, (next r).Unfailing

theorem Unfailing.bind {p : Program I ε α} (hp : p.Unfailing) {f : α → Program I ε β}
    (hf : ∀ a, (f a).Unfailing) : (p.bind f).Unfailing := by
  induction p with
  | done a => exact hf a
  | failed e => exact hp.elim
  | call c next ih => exact fun r => ih r (hp r)

theorem Unfailing.error {p : Program I ε α} (hp : p.Unfailing) {handle : Handler I ε σ} {s : σ}
    {e : ε} (h : (p.run handle s).1 = .error e) : ∃ c t, (handle c t).1 = .error e := by
  induction p generalizing s with
  | done a => simp at h
  | failed e' => exact hp.elim
  | call c next ih =>
    rw [run_call] at h
    cases hc : handle c s with
    | mk outcome t =>
      rw [hc] at h
      cases outcome with
      | ok r => exact ih r (hp r) h
      | error e' => exact ⟨c, s, by simpa [hc] using h⟩

end Program

/-- A number that is too large to be rounded to a double. -/
def Number.Oversized : Number → Prop
  | .int n => (2 ^ 54 - 1) * 2 ^ 970 ≤ n.natAbs
  | .float _ => False

instance Number.decidableOversized : DecidablePred Number.Oversized
  | .int n => inferInstanceAs (Decidable ((2 ^ 54 - 1) * 2 ^ 970 ≤ n.natAbs))
  | .float _ => inferInstanceAs (Decidable False)

@[simp] theorem Number.not_oversized_float (x : Double) : ¬ (float x).Oversized := id

theorem Number.toDouble?_eq_none_iff {n : Number} : n.toDouble? = none ↔ n.Oversized := by
  cases n with
  | int n => exact Double.ofInt?_eq_none_iff
  | float x => simp [toDouble?, Oversized]

/-- The bounds that are given. -/
def BudgetFilter.bounds (b : BudgetFilter) : List Number := b.min.toList ++ b.max.toList

theorem BudgetFilter.fits_iff {b : BudgetFilter} : b.Fits ↔ ∀ n ∈ b.bounds, ¬ n.Oversized := by
  simp only [Fits, bounds, List.mem_append, Option.mem_toList, Option.mem_def, or_imp, forall_and,
    ← Number.toDouble?_eq_none_iff, ne_eq]

/-- A filter with an oversized bound in an active budget. -/
def ProjectFilter.Oversized (f : ProjectFilter) : Prop :=
  ∃ p b, f.budgetFor p = some b ∧ b.isActive = true ∧ ∃ n ∈ b.bounds, n.Oversized

theorem ProjectFilter.not_oversized_iff {f : ProjectFilter} : ¬ f.Oversized ↔ f.Fits := by
  simp only [Oversized, Fits, BudgetFilter.fits_iff]
  push Not
  rfl

/-- An issue with a bound of a budget, which is not said to be part of a filter. -/
def Issue.AtBound (i : Issue) : Prop :=
  i.cause = .notNumber ∧ (i.place = ["min"] ∨ i.place = ["max"])

namespace Conditions

theorem atBound_of_budgetClause {p : Pricing} {b : BudgetFilter} {issues : List Issue}
    (h : budgetClause p b = .invalid issues) : issues ≠ [] ∧ ∀ i ∈ issues, i.AtBound := by
  have hbound : ∀ key bound, (∃ x, boundToDouble key bound = .valid x) ∨
      boundToDouble key bound = .invalid [⟨.notNumber, [key]⟩] := by
    intro key bound
    cases bound with
    | none => exact .inl ⟨_, rfl⟩
    | some n => cases hn : n.toDouble? <;> simp [boundToDouble, hn]
  rw [budgetClause] at h
  rcases hbound "min" b.min with ⟨x, hmin⟩ | hmin <;>
    rcases hbound "max" b.max with ⟨y, hmax⟩ | hmax <;>
    simp only [hmin, hmax, Checked.map_eq, Checked.map, Checked.seq_eq, Checked.apply, reduceCtorEq,
      Checked.invalid.injEq] at h <;> subst h <;> simp [Issue.AtBound]

theorem atBound_of_budgetClauses {f : ProjectFilter} {ps : List Pricing} {e : Failure}
    (h : budgetClauses f ps = .error e) :
    ∃ issues, e = .invalid issues ∧ issues ≠ [] ∧ ∀ i ∈ issues, i.AtBound := by
  induction ps with
  | nil => simp [budgetClauses] at h
  | cons p ps ih =>
    rw [budgetClauses] at h
    cases hb : f.budgetFor p with
    | none => exact ih (by simpa [hb] using h)
    | some b =>
      cases hactive : b.isActive with
      | false => exact ih (by simpa [hb, hactive] using h)
      | true =>
        cases hc : budgetClause p b with
        | invalid issues =>
          simp only [hb, hactive, hc, if_true, Except.error.injEq] at h
          exact ⟨issues, h.symm, atBound_of_budgetClause hc⟩
        | valid c =>
          simp only [hb, hactive, hc, if_true] at h
          cases hps : budgetClauses f ps with
          | ok cs => simp [hps, Except.map] at h
          | error e' =>
            rw [hps] at h
            exact ih (hps.trans h)

end Conditions

namespace Plan

theorem unfailing_runStages (stages : List Stage) (candidates : Option (List Value)) :
    (runStages stages candidates).Unfailing := by
  induction stages generalizing candidates with
  | nil => exact trivial
  | cons stage rest ih =>
    cases stage with
    | search s => exact fun found => ih (some found)
    | keep m => exact fun kept => ih (some kept)

theorem unfailing_execute (p : Plan) : p.execute.Unfailing := by
  refine (unfailing_runStages _ _).bind fun found => ?_
  cases found with
  | some records => exact trivial
  | none => exact fun r => trivial

/-- A filter with an oversized bound is read, but has no plan. -/
theorem ofFilter_of_oversized {raw : Value} {f : ProjectFilter}
    (hraw : ProjectFilter.validate raw = .ok (some f)) (hover : f.Oversized) {actor : String}
    (hactor : actor ≠ "") :
    ∃ issues, ofFilter raw (.text actor) = .error (.invalid issues) ∧ issues ≠ [] ∧
      ∀ i ∈ issues, i.AtBound := by
  have hnofit : ¬ f.Fits := fun h => ProjectFilter.not_oversized_iff.2 h hover
  have htruthy : (Value.text actor).truthy = true := by simpa using hactor
  cases hbudgets : Conditions.budgetClauses f Pricing.all with
  | ok cs =>
    have hclauses := (Conditions.filterClauses_eq_ok_iff (f := f)).1
      (by rw [Conditions.filterClauses, hbudgets])
    exact absurd hclauses.1 hnofit
  | error e =>
    obtain ⟨issues, rfl, hissues⟩ := Conditions.atBound_of_budgetClauses hbudgets
    refine ⟨issues, ?_, hissues⟩
    simp [ofFilter, hraw, Conditions.ofFilter, htruthy, Conditions.filterClauses, hbudgets]

end Plan

theorem ProjectFilter.refusesFilter_of_validate {raw : Value} {e : Failure}
    (h : validate raw = .error e) : e.RefusesFilter := by
  cases raw with
  | null => cases h
  | object fields =>
    cases hf : readFields fields with
    | valid f => simp [validate, hf] at h
    | invalid issues =>
      simp only [validate, hf, Except.error.injEq] at h
      exact h ▸ trivial
  | _ => simp only [validate, Except.error.injEq] at h; exact h ▸ trivial

namespace Memory

theorem lookup_error {m : Memory} {name : String} {id : Value} {e : Failure}
    (h : m.lookup name id = .error e) : e = .fault .wrongKind := by
  rw [lookup] at h
  split_ifs at h
  cases h
  rfl

/-- What a call to a store in memory can fail with. -/
theorem handle_error {c : StoreCall} {m : Memory} {e : Failure} (h : (handle c m).1 = .error e) :
    e = .recordWithoutId ∨ ∃ f, e = .fault f := by
  have hlift : ∀ {α : Type} {x : Except Fault α}, Fault.lift x = .error e → ∃ f, e = .fault f := by
    intro α x hx
    cases x with
    | ok a => cases hx
    | error f => exact ⟨f, by cases hx; rfl⟩
  cases c with
  | findById name id =>
    cases hid : m.lookup name id with
    | ok entry => simp [handle, hid, Except.map] at h
    | error e' =>
      simp only [handle, hid, Except.map, Except.error.injEq] at h
      exact .inr ⟨_, h ▸ lookup_error hid⟩
  | find name predicate => exact .inr (hlift h)
  | insert name record =>
    simp only [handle, insert] at h
    split at h
    · cases h
      exact .inl rfl
    · split_ifs at h
      cases h
      exact .inr ⟨_, rfl⟩
  | update name id changes =>
    simp only [handle, update] at h
    split at h
    · rename_i e' hid
      simp only [Except.error.injEq] at h
      exact .inr ⟨_, h ▸ lookup_error hid⟩
    · cases h
    · cases h
  | delete name id =>
    simp only [handle, delete] at h
    split_ifs at h
    split at h
    · rename_i e' hid
      simp only [Except.error.injEq] at h
      exact .inr ⟨_, h ▸ lookup_error hid⟩
    · cases h
    · cases h
  | search stage => cases h
  | narrow stage candidates => exact .inr (hlift h)

theorem handle_not_refusesFilter (c : StoreCall) (m : Memory) (e : Failure)
    (h : (handle c m).1 = .error e) : ¬ e.RefusesFilter := by
  obtain rfl | ⟨f, rfl⟩ := handle_error h <;> simp [Failure.RefusesFilter]

end Memory

/-- A search fails with a refused filter only where nothing was asked of a store. -/
theorem calls_searchProjects_eq_nil {σ : Type} {handle : Handler Store Failure σ}
    (hstore : ∀ c s e, (handle c s).1 = .error e → ¬ e.RefusesFilter) {raw actor : Value} {s : σ}
    {e : Failure} (h : ((searchProjects raw actor).run handle s).1 = .error e)
    (hrefuses : e.RefusesFilter) : (searchProjects raw actor).calls handle s = [] := by
  cases hplan : Plan.ofFilter raw actor with
  | error e' =>
    rw [searchProjects, hplan]
    rfl
  | ok plan =>
    rw [searchProjects, hplan] at h
    obtain ⟨c, t, hc⟩ := plan.unfailing_execute.error h
    exact absurd hrefuses (hstore c t e hc)

/-- With a named actor, a raw filter that cannot be read is refused, and one that is read has
conditions and a plan unless one of its active budgets has an oversized bound; then the failure
names bounds alone. A search that refuses its filter has asked nothing of its store. -/
theorem plan_or_refusal (raw : Value) {actor : String} (hactor : actor ≠ "") :
    (∀ e, ProjectFilter.validate raw = .error e →
      e.RefusesFilter ∧ Plan.ofFilter raw (.text actor) = .error e) ∧
    (∀ filter, ProjectFilter.validate raw = .ok filter → ¬ (filter.getD .blank).Oversized →
      ∃ c plan, Conditions.ofFilter filter (.text actor) = .ok c ∧
        Plan.ofConditions c = .ok plan ∧ Plan.ofFilter raw (.text actor) = .ok plan) ∧
    (∀ filter, ProjectFilter.validate raw = .ok filter → (filter.getD .blank).Oversized →
      ∃ issues, Plan.ofFilter raw (.text actor) = .error (.invalid issues) ∧ issues ≠ [] ∧
        ∀ i ∈ issues, i.AtBound) ∧
    ∀ {σ : Type} (handle : Handler Store Failure σ),
      (∀ c s e, (handle c s).1 = .error e → ¬ e.RefusesFilter) →
      ∀ s e, ((searchProjects raw (.text actor)).run handle s).1 = .error e → e.RefusesFilter →
        (searchProjects raw (.text actor)).calls handle s = [] := by
  refine ⟨?_, ?_, ?_, fun handle hstore s e h he => calls_searchProjects_eq_nil hstore h he⟩
  · intro e hraw
    exact ⟨ProjectFilter.refusesFilter_of_validate hraw, by rw [Plan.ofFilter, hraw]⟩
  · intro filter hraw hnot
    have hfits := ProjectFilter.not_oversized_iff.1 hnot
    exact ⟨_, _, Conditions.ofFilter_eq_ok_iff.2 ⟨actor, .inl rfl, hactor, hfits, rfl⟩,
      Plan.ofConditions_asking _ actor,
      Plan.ofFilter_eq_ok_iff.2 ⟨filter, actor, hraw, .inl rfl, hactor, hfits, rfl⟩⟩
  · intro filter hraw hover
    cases filter with
    | none => exact absurd hover (ProjectFilter.not_oversized_iff.2 ProjectFilter.fits_blank)
    | some f => exact Plan.ofFilter_of_oversized hraw hover hactor

/-- A filter for fixed-rate projects in dollars from an amount on. -/
def filterFrom (n : Int) : ProjectFilter :=
  ⟨none, none, some ⟨true, some "USD", some (.int n), none⟩, none⟩

theorem validate_filterFrom (n : Int) :
    ProjectFilter.validate (.object [("fixed", .object [("checked", .bool true),
      ("currency", .text "USD"), ("min", .int n)])]) = .ok (some (filterFrom n)) := rfl

theorem oversized_filterFrom {n : Int} (h : (Number.int n).Oversized) : (filterFrom n).Oversized :=
  ⟨.fixed, _, rfl, rfl, .int n, by simp [BudgetFilter.bounds], h⟩

theorem oversized_tenTo400 : (Number.int (10 ^ 400)).Oversized := by
  decide +kernel

/-- A number is no filter, no filter at all has a plan, and a bound of 401 digits has none. -/
theorem plan_or_refusal_kinds :
    "U1" ≠ "" ∧
      (Plan.ofFilter (.int 1) (.text "U1") = .error (.filterNotObject "int") ∧
        (searchProjects (.int 1) (.text "U1")).calls Memory.handle .empty = []) ∧
      (∃ plan, Plan.ofFilter .null (.text "U1") = .ok plan) ∧
      ∃ issues, Plan.ofFilter (.object [("fixed", .object [("checked", .bool true),
        ("currency", .text "USD"), ("min", .int (10 ^ 400))])]) (.text "U1") =
          .error (.invalid issues) ∧ issues ≠ [] ∧ ∀ i ∈ issues, i.AtBound := by
  have hactor : "U1" ≠ "" := by decide
  have hnumber : ProjectFilter.validate (.int 1) = .error (.filterNotObject "int") := rfl
  obtain ⟨hrefused, -, -, hcalls⟩ := plan_or_refusal (.int 1) hactor
  obtain ⟨-, hplan, -, -⟩ := plan_or_refusal .null hactor
  obtain ⟨-, -, hover, -⟩ := plan_or_refusal _ hactor
  obtain ⟨_, plan, -, -, hnone⟩ :=
    hplan none rfl (ProjectFilter.not_oversized_iff.2 ProjectFilter.fits_blank)
  exact ⟨hactor, ⟨(hrefused _ hnumber).2,
    hcalls Memory.handle Memory.handle_not_refusesFilter _ _ rfl trivial⟩, ⟨plan, hnone⟩,
    hover _ (validate_filterFrom (10 ^ 400)) (oversized_filterFrom oversized_tenTo400)⟩

/-- A filter that is read may have neither a plan nor be refused. -/
theorem oversized_bound_not_refused :
    let raw : Value := .object [("fixed", .object [("checked", .bool true),
      ("currency", .text "USD"), ("min", .int (10 ^ 400))])]
    (∃ f, ProjectFilter.validate raw = .ok (some f)) ∧
      ¬ ((∃ plan, Plan.ofFilter raw (.text "U1") = .ok plan) ∨
        ∃ e, Plan.ofFilter raw (.text "U1") = .error e ∧ e.RefusesFilter) := by
  intro raw
  have hraw : ProjectFilter.validate raw = .ok (some (filterFrom (10 ^ 400))) :=
    validate_filterFrom (10 ^ 400)
  have hactor : "U1" ≠ "" := by decide
  obtain ⟨issues, hplan, -⟩ :=
    Plan.ofFilter_of_oversized hraw (oversized_filterFrom oversized_tenTo400) hactor
  refine ⟨⟨_, hraw⟩, ?_⟩
  rintro (⟨plan, hok⟩ | ⟨e, herror, hrefuses⟩)
  · rw [hplan] at hok
    cases hok
  · rw [hplan] at herror
    cases herror
    exact hrefuses

end FreelanceBoard
