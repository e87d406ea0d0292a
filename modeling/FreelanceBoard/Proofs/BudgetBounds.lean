import FreelanceBoard.Proofs.Admission
import FreelanceBoard.Proofs.FilterRefusals

/-! Whether the bounds of a budget hold strictly. A bound is compared as the double it is rounded
to; that decides the same as the bound itself where rounding keeps the bound, and for all amounts of
less than 53 binary digits. -/
namespace FreelanceBoard

namespace Number

def point? (n : Number) : Option Extended := n.toValue.point?

def doublePoint? (n : Number) : Option Extended := n.toDouble?.bind Double.point?

def Exact (n : Number) : Prop := n.doublePoint? = n.point?

theorem doublePoint?_int {n : Int} (h : ¬ (int n).Oversized) :
    (int n).doublePoint? = some (.rat (Double.rounded n)) := by
  rw [← toDouble?_eq_none_iff, toDouble?, Option.eq_none_iff_forall_ne_some] at h
  push Not at h
  obtain ⟨x, hx⟩ := h
  rw [doublePoint?, toDouble?, hx, Option.bind_some, Double.point?_of_ofInt? hx]

theorem exact_int {n : Int} (h : n.natAbs ≤ 2 ^ 53) : (int n).Exact := by
  have hnot : ¬ (int n).Oversized := by
    simp only [Oversized]
    omega
  rw [Exact, doublePoint?_int hnot, Double.rounded_intCast_of_le h]
  rfl

/-- Rounding a bound moves it neither onto nor past an amount. -/
theorem doublePoint?_apart {n : Number} {a : Int} (hn : ¬ n.Oversized)
    (h : n.Exact ∨ a.natAbs < 2 ^ 53) :
    ((∃ p ∈ n.doublePoint?, p.lt (.ofInt a) = true) ↔ ∃ p ∈ n.point?, p.lt (.ofInt a) = true) ∧
      ((∃ p ∈ n.doublePoint?, (Extended.ofInt a).lt p = true) ↔
        ∃ p ∈ n.point?, (Extended.ofInt a).lt p = true) := by
  rcases h with hexact | ha
  · rw [hexact]
    exact ⟨Iff.rfl, Iff.rfl⟩
  · cases n with
    | float x => exact ⟨Iff.rfl, Iff.rfl⟩
    | int n =>
      have hpoint : (int n).point? = some (.ofInt n) := rfl
      rw [doublePoint?_int hn, hpoint]
      simp [Extended.ofInt, Double.rounded_lt_iff ha, Double.lt_rounded_iff ha]

end Number

namespace BudgetFilter

/-- An amount lies strictly between the points of the bounds that are given. -/
def Between (pointOf? : Number → Option Extended) (b : BudgetFilter) (amount : Int) : Prop :=
  (∀ n ∈ b.min, ∃ p ∈ pointOf? n, p.lt (.ofInt amount) = true) ∧
    ∀ n ∈ b.max, ∃ p ∈ pointOf? n, (Extended.ofInt amount).lt p = true

theorem between_congr {b : BudgetFilter} {a : Int} (hbounds : ∀ n ∈ b.bounds, ¬ n.Oversized)
    (h : ∀ n ∈ b.bounds, n.Exact ∨ a.natAbs < 2 ^ 53) :
    b.Between Number.doublePoint? a ↔ b.Between Number.point? a := by
  have hmin : ∀ n ∈ b.min, n ∈ b.bounds := fun n hn => by simp_all [bounds]
  have hmax : ∀ n ∈ b.max, n ∈ b.bounds := fun n hn => by simp_all [bounds]
  refine and_congr (forall₂_congr fun n hn => ?_) (forall₂_congr fun n hn => ?_)
  · exact (Number.doublePoint?_apart (hbounds n (hmin n hn)) (h n (hmin n hn))).1
  · exact (Number.doublePoint?_apart (hbounds n (hmax n hn)) (h n (hmax n hn))).2

theorem forall_bound_iff {bound : Option Number} (hfits : ∀ n ∈ bound, n.toDouble? ≠ none) {a : Int}
    (R : Extended → Extended → Prop) :
    (∀ x ∈ bound.bind Number.toDouble?, ∃ p q, x.point? = some p ∧ (Value.int a).point? = some q ∧
      R p q) ↔ ∀ n ∈ bound, ∃ p ∈ n.doublePoint?, R p (.ofInt a) := by
  cases bound with
  | none => simp
  | some n =>
    cases hx : n.toDouble? with
    | none => exact absurd hx (hfits n rfl)
    | some x => simp [Number.doublePoint?, hx, Value.point?]

/-- The range of a filter holds an amount that lies between the doubles of its bounds. -/
theorem strictlyBetween_toRange_iff {p : Pricing} {b : BudgetFilter} {a : Int} (hfits : b.Fits) :
    (Value.int a).StrictlyBetween (b.toRange p).min (b.toRange p).max ↔
      b.Between Number.doublePoint? a := by
  have hmin := forall_bound_iff hfits.1 (a := a) fun p q => p.lt q = true
  have hmax := forall_bound_iff hfits.2 (a := a) fun p q => q.lt p = true
  constructor
  · rintro ⟨-, habove, hbelow⟩
    exact ⟨hmin.1 habove, hmax.1 hbelow⟩
  · rintro ⟨habove, hbelow⟩
    exact ⟨rfl, hmin.2 habove, hmax.2 hbelow⟩

end BudgetFilter

structure ProjectFilter.OnlyBudget (f : ProjectFilter) (p : Pricing) (b : BudgetFilter)
    (currency : String) : Prop where
  budget : f.budgetFor p = some b
  active : b.Active currency
  others : ∀ q other, f.budgetFor q = some other → other.isActive = true → q = p

theorem ProjectFilter.OnlyBudget.ranges {f : ProjectFilter} {p : Pricing} {b : BudgetFilter}
    {currency : String} (h : f.OnlyBudget p b currency) : f.ranges = [b.toRange p] := by
  have hp : f.range? p = some (b.toRange p) := by
    simp [range?, h.budget, Option.filter, BudgetFilter.isActive_iff.2 ⟨_, h.active⟩]
  have hother : ∀ q, q ≠ p → f.range? q = none := by
    intro q hq
    simp only [range?, Option.map_eq_none_iff, Option.filter_eq_none_iff]
    exact fun other hother hactive => hq (h.others q other hother hactive)
  cases p with
  | fixed => simp [ProjectFilter.ranges, Pricing.all, hp, hother .hourly]
  | hourly => simp [ProjectFilter.ranges, Pricing.all, hp, hother .fixed]

theorem ProjectFilter.OnlyBudget.fits {f : ProjectFilter} {p : Pricing} {b : BudgetFilter}
    {currency : String} (h : f.OnlyBudget p b currency) (hfits : b.Fits) : f.Fits := by
  intro q other hother hactive
  obtain rfl := h.others q other hother hactive
  rw [h.budget] at hother
  exact Option.some.inj hother ▸ hfits

theorem ProjectFilter.OnlyBudget.budgetStages {f : ProjectFilter} {p : Pricing} {b : BudgetFilter}
    {currency : String} (h : f.OnlyBudget p b currency) (actor : String) :
    (f.matchStages actor).filter (fun s => s.name == "budget") =
      [⟨"budget", (b.toRange p).predicate⟩] := by
  rw [ProjectFilter.matchStages, h.ranges]
  by_cases hskills : f.required = [] <;> simp [hskills]

structure Value.HasBudget (r : Value) (p : Pricing) (currency : String) (amount : Int) : Prop where
  pricing : (r.child "budget").child "type" = .text p.name
  currency : (r.child "budget").child "currency" = .text currency
  amount : (r.child "budget").child "amount" = .int amount

theorem BudgetFilter.decides_toRange {p : Pricing} {b : BudgetFilter} {currency : String}
    (hactive : b.Active currency) (hfits : b.Fits) {r : Value} {a : Int}
    (hr : r.HasBudget p currency a) :
    Decides ((b.toRange p).predicate.admits r) (b.Between Number.doublePoint? a) := by
  refine (BudgetRange.decides_predicate _ r).congr ?_
  rw [← strictlyBetween_toRange_iff hfits, ← hr.amount]
  constructor
  · exact fun h => h.amount
  · intro h
    refine ⟨hr.pricing, h, ?_⟩
    rw [hr.currency, toRange, hactive.inCurrency]
    rfl

/-- With one active budget, whose bounds have doubles, the budget stage of the plan decides of every
record of that pricing and currency whether its amount lies strictly between these doubles. Where
every bound is kept by rounding, or the amount has less than 53 binary digits, this is whether the
amount lies strictly between the bounds themselves. -/
theorem budgetStage_decides_between {raw : Value} {f : ProjectFilter} {actor : String}
    {p : Pricing} {b : BudgetFilter} {currency : String} {r : Value} {a : Int}
    (hraw : ProjectFilter.validate raw = .ok (some f)) (hactor : actor ≠ "")
    (honly : f.OnlyBudget p b currency) (hbounds : ∀ n ∈ b.bounds, ¬ n.Oversized)
    (hr : r.HasBudget p currency a) :
    ∃ plan stage, Plan.ofFilter raw (.text actor) = .ok plan ∧
      plan.matchStages.filter (fun s => s.name == "budget") = [stage] ∧
      Decides (stage.predicate.admits r) (b.Between Number.doublePoint? a) ∧
      ((∀ n ∈ b.bounds, n.Exact ∨ a.natAbs < 2 ^ 53) →
        Decides (stage.predicate.admits r) (b.Between Number.point? a)) := by
  have hfits : b.Fits := BudgetFilter.fits_iff.2 hbounds
  have hplan := Plan.ofFilter_eq_ok_iff.2
    ⟨some f, actor, hraw, .inl rfl, hactor, honly.fits hfits, rfl⟩
  have hrounded := b.decides_toRange honly.active hfits hr
  refine ⟨_, ⟨"budget", (b.toRange p).predicate⟩, hplan, ?_, hrounded, fun hexact =>
    hrounded.congr (BudgetFilter.between_congr hbounds hexact)⟩
  rw [Plan.matchStages_asking]
  exact honly.budgetStages actor

def paying (amount : Int) : Value :=
  .object [("budget", .object [("type", .text "fixed rate"), ("currency", .text "USD"),
    ("amount", .int amount)])]

theorem hasBudget_paying (amount : Int) : (paying amount).HasBudget .fixed "USD" amount :=
  ⟨rfl, rfl, rfl⟩

/-- An amount of 100 does not lie between 100 and 250.5. -/
theorem budgetStage_decides_between_lower :
    let b : BudgetFilter := ⟨true, some "USD", some (.int 100), some (.float (.finite (501 / 2)))⟩
    let f : ProjectFilter := ⟨none, none, some b, none⟩
    ProjectFilter.validate f.toValue = .ok (some f) ∧ "U1" ≠ "" ∧ f.OnlyBudget .fixed b "USD" ∧
      (∀ n ∈ b.bounds, ¬ n.Oversized) ∧ (paying 100).HasBudget .fixed "USD" 100 ∧
      ∃ plan stage, Plan.ofFilter f.toValue (.text "U1") = .ok plan ∧
        plan.matchStages.filter (fun s => s.name == "budget") = [stage] ∧
        Decides (stage.predicate.admits (paying 100)) (b.Between Number.point? 100) := by
  intro b f
  have hraw : ProjectFilter.validate f.toValue = .ok (some f) := rfl
  have hactor : "U1" ≠ "" := by decide
  have honly : f.OnlyBudget .fixed b "USD" := by
    refine ⟨rfl, ⟨rfl, rfl, by decide, .inl (by simp [b])⟩, ?_⟩
    rintro (_ | _) other hother -
    · rfl
    · cases hother
  have hbounds : ∀ n ∈ b.bounds, ¬ n.Oversized := by
    have hlower : ¬ (Number.int 100).Oversized := by decide +kernel
    simp [b, BudgetFilter.bounds, hlower]
  have hr := hasBudget_paying 100
  obtain ⟨plan, stage, hplan, hstage, -, hdecides⟩ :=
    budgetStage_decides_between hraw hactor honly hbounds hr
  exact ⟨hraw, hactor, honly, hbounds, hr, plan, stage, hplan, hstage,
    hdecides fun _ _ => .inr (by decide)⟩

/-- The least bound that no double is equal to is rounded down, and an amount equal to it is
admitted. -/
theorem budgetStage_admits_bound :
    let n : Int := 2 ^ 53 + 1
    let raw : Value := .object [("fixed", .object [("checked", .bool true),
      ("currency", .text "USD"), ("min", .int n)])]
    ∃ b, ProjectFilter.validate raw = .ok (some ⟨none, none, some b, none⟩) ∧
      ProjectFilter.OnlyBudget ⟨none, none, some b, none⟩ .fixed b "USD" ∧
      (∀ n ∈ b.bounds, ¬ n.Oversized) ∧ (paying n).HasBudget .fixed "USD" n ∧
      (∃ plan stage, Plan.ofFilter raw (.text "U1") = .ok plan ∧ stage ∈ plan.matchStages ∧
        stage.name = "budget" ∧ stage.predicate.admits (paying n) = .ok true) ∧
      ¬ b.Between Number.point? n := by
  intro n raw
  obtain ⟨b, hb⟩ : ∃ b : BudgetFilter, b = ⟨true, some "USD", some (.int n), none⟩ := ⟨_, rfl⟩
  have hraw : ProjectFilter.validate raw = .ok (some ⟨none, none, some b, none⟩) := hb ▸ rfl
  have hactive : b.Active "USD" := hb ▸ ⟨rfl, rfl, by decide, .inl (by simp)⟩
  have honly : ProjectFilter.OnlyBudget ⟨none, none, some b, none⟩ .fixed b "USD" := by
    refine ⟨rfl, hactive, ?_⟩
    rintro (_ | _) other hother -
    · rfl
    · cases hother
  have hbounds : ∀ n ∈ b.bounds, ¬ n.Oversized := by
    have hlower : ¬ (Number.int n).Oversized := by decide +kernel
    simp [hb, BudgetFilter.bounds, hlower]
  have hfits := BudgetFilter.fits_iff.2 hbounds
  have hbetween : b.Between Number.doublePoint? n := by
    have hdouble : Double.ofInt? (2 ^ 53 + 1) = some (.finite (2 ^ 53)) := by decide +kernel
    rw [hb]
    constructor
    · rintro _ ⟨⟩
      refine ⟨.rat (2 ^ 53), ?_, by decide +kernel⟩
      rw [Number.doublePoint?, Number.toDouble?, hdouble]
      rfl
    · rintro _ ⟨⟩
  have hadmits : (b.toRange .fixed).predicate.admits (paying n) = .ok true := by
    obtain ⟨hyes, -⟩ | ⟨-, hno⟩ := b.decides_toRange hactive hfits (hasBudget_paying n)
    · exact hyes
    · exact absurd hbetween hno
  refine ⟨b, hraw, honly, hbounds, hasBudget_paying n, ⟨_, ⟨"budget", (b.toRange .fixed).predicate⟩,
    Plan.ofFilter_eq_ok_iff.2 ⟨_, _, hraw, .inl rfl, by decide, honly.fits hfits, rfl⟩, ?_, rfl,
    hadmits⟩, ?_⟩
  · have hstage := honly.budgetStages "U1"
    rw [Plan.matchStages_asking]
    exact List.mem_of_mem_filter (hstage ▸ List.mem_singleton_self _)
  · rintro ⟨habove, -⟩
    obtain ⟨p, hp, hlt⟩ := habove (.int n) (by rw [hb]; rfl)
    cases hp
    exact absurd hlt (by decide +kernel)

end FreelanceBoard
