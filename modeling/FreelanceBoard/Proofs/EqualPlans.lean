import FreelanceBoard.Proofs.FilterPlan
import FreelanceBoard.Proofs.PlanLikeness
import Mathlib.Data.List.Sort
import Mathlib.Data.String.Basic

/-! When two filters have the same plan. It forgets how often, in which order and with which blanks
around them skills are listed, whether a title is missing or blank, and all of a budget that is not
active; nothing else is lost. -/
namespace FreelanceBoard

variable {E : Double → Double → Prop}

namespace BudgetFilter

/-- No budget filter at all, or one that says nothing. -/
def Inactive (x : Option BudgetFilter) : Prop := ∀ b ∈ x, ∀ currency, ¬ b.Active currency

/-- Two active filters for amounts in one currency, with bounds that `E` compares as doubles. -/
structure Alike (E : Double → Double → Prop) (b b' : BudgetFilter) : Prop where
  currency : ∃ currency, b.Active currency ∧ b'.Active currency
  min : Option.Rel E (b.min.bind Number.toDouble?) (b'.min.bind Number.toDouble?)
  max : Option.Rel E (b.max.bind Number.toDouble?) (b'.max.bind Number.toDouble?)

def AskSame (E : Double → Double → Prop) (x y : Option BudgetFilter) : Prop :=
  Inactive x ∧ Inactive y ∨ ∃ b ∈ x, ∃ b' ∈ y, b.Alike E b'

theorem filter_isActive_eq_none_iff {x : Option BudgetFilter} :
    x.filter isActive = none ↔ Inactive x := by
  simp only [Option.filter_eq_none_iff, isActive_iff, Inactive, not_exists, Option.mem_def]

theorem like_toRange_iff {p : Pricing} {b b' : BudgetFilter} (hb : b.isActive = true)
    (hb' : b'.isActive = true) : (b.toRange p).Like E (b'.toRange p) ↔ b.Alike E b' := by
  obtain ⟨c, hc⟩ := isActive_iff.1 hb
  obtain ⟨c', hc'⟩ := isActive_iff.1 hb'
  constructor
  · rintro ⟨-, hcurrency, hmin, hmax⟩
    simp only [toRange, hc.inCurrency, hc'.inCurrency, Option.getD_some] at hcurrency
    exact ⟨⟨c, hc, hcurrency ▸ hc'⟩, hmin, hmax⟩
  · rintro ⟨⟨d, hd, hd'⟩, hmin, hmax⟩
    exact ⟨rfl, by simp only [toRange, hd.inCurrency, hd'.inCurrency], hmin, hmax⟩

theorem Alike.isActive {b b' : BudgetFilter} (h : b.Alike E b') :
    b.isActive = true ∧ b'.isActive = true := by
  obtain ⟨c, hc, hc'⟩ := h.currency
  exact ⟨isActive_iff.2 ⟨c, hc⟩, isActive_iff.2 ⟨c, hc'⟩⟩

theorem rel_toRange_iff {p : Pricing} {x y : Option BudgetFilter} :
    Option.Rel (BudgetRange.Like E) ((x.filter isActive).map (toRange p))
      ((y.filter isActive).map (toRange p)) ↔ AskSame E x y := by
  constructor
  · intro h
    cases hx : x.filter isActive with
    | none =>
      cases hy : y.filter isActive with
      | none => exact .inl ⟨filter_isActive_eq_none_iff.1 hx, filter_isActive_eq_none_iff.1 hy⟩
      | some b' =>
        rw [hx, hy] at h
        cases h
    | some b =>
      cases hy : y.filter isActive with
      | none =>
        rw [hx, hy] at h
        cases h
      | some b' =>
        rw [hx, hy] at h
        obtain ⟨hb, hactive⟩ := Option.filter_eq_some_iff.1 hx
        obtain ⟨hb', hactive'⟩ := Option.filter_eq_some_iff.1 hy
        exact .inr ⟨b, hb, b', hb', (like_toRange_iff hactive hactive').1 (Option.rel_some_some.1 h)⟩
  · rintro (⟨hx, hy⟩ | ⟨b, hb, b', hb', halike⟩)
    · rw [filter_isActive_eq_none_iff.2 hx, filter_isActive_eq_none_iff.2 hy]
      exact .none
    · obtain ⟨hactive, hactive'⟩ := halike.isActive
      rw [Option.filter_eq_some_iff.2 ⟨hb, hactive⟩, Option.filter_eq_some_iff.2 ⟨hb', hactive'⟩]
      exact .some ((like_toRange_iff hactive hactive').2 halike)

end BudgetFilter

namespace ProjectFilter

def Untitled (f : ProjectFilter) : Prop := ∀ t ∈ f.title, Text.strip t = ""

/-- Whether a text is left of a listed skill that is not blank. -/
def AsksFor (f : ProjectFilter) (t : String) : Prop :=
  ∃ s ∈ f.skills.getD [], Text.strip s ≠ "" ∧ Text.strip s = t

/-- Two filters that ask for the same, with bounds compared by `E`. -/
structure AskSame (E : Double → Double → Prop) (f g : ProjectFilter) : Prop where
  title : f.title = g.title ∨ f.Untitled ∧ g.Untitled
  skills : ∀ t, f.AsksFor t ↔ g.AsksFor t
  budgets : ∀ p, BudgetFilter.AskSame E (f.budgetFor p) (g.budgetFor p)

variable {f g : ProjectFilter}

theorem query?_eq_none_iff : f.query? = none ↔ f.Untitled := by
  simp [query?, Untitled, Option.filter_eq_none_iff]

theorem query?_eq_iff : f.query? = g.query? ↔ f.title = g.title ∨ f.Untitled ∧ g.Untitled := by
  constructor
  · intro h
    cases hf : f.query? with
    | none => exact .inr ⟨query?_eq_none_iff.1 hf, query?_eq_none_iff.1 (h ▸ hf)⟩
    | some t =>
      have hg : g.query? = some t := h ▸ hf
      exact .inl ((query?_eq_some_iff.1 hf).1.trans (query?_eq_some_iff.1 hg).1.symm)
  · rintro (h | ⟨hf, hg⟩)
    · rw [query?, query?, h]
    · rw [query?_eq_none_iff.2 hf, query?_eq_none_iff.2 hg]

theorem nodup_distinctTexts (texts : List String) : (distinctTexts texts).Nodup := by
  suffices h : ∀ kept : List String, kept.Nodup →
      (texts.foldl (fun kept t => if t ∈ kept then kept else kept ++ [t]) kept).Nodup from
    h [] List.nodup_nil
  induction texts with
  | nil => exact fun _ hkept => hkept
  | cons t rest ih =>
    intro kept hkept
    rw [List.foldl_cons]
    by_cases ht : t ∈ kept
    · rw [if_pos ht]
      exact ih kept hkept
    · rw [if_neg ht]
      exact ih _ (List.nodup_append_comm.1 (List.nodup_cons.2 ⟨ht, hkept⟩))

theorem sortedTexts_required_eq_iff :
    Plan.sortedTexts f.required = Plan.sortedTexts g.required ↔ ∀ t, f.AsksFor t ↔ g.AsksFor t := by
  have hmem : ∀ (h : ProjectFilter) (t : String),
      t ∈ Plan.sortedTexts h.required ↔ h.AsksFor t := by
    intro h t
    rw [Plan.sortedTexts, List.mem_mergeSort, mem_required_iff, AsksFor]
  constructor
  · intro h t
    rw [← hmem f, ← hmem g, h]
  · intro h
    have hnodup : ∀ h : ProjectFilter, h.required.Nodup := fun _ => nodup_distinctTexts _
    have hperm : f.required.Perm g.required := by
      refine (List.perm_ext_iff_of_nodup (hnodup f) (hnodup g)).2 fun t => ?_
      rw [mem_required_iff, mem_required_iff]
      exact h t
    exact List.Perm.eq_of_sortedLE List.sortedLE_mergeSort List.sortedLE_mergeSort
      ((List.mergeSort_perm _ _).trans (hperm.trans (List.mergeSort_perm _ _).symm))

theorem forall₂_ranges_iff :
    List.Forall₂ (BudgetRange.Like E) f.ranges g.ranges ↔
      ∀ p, BudgetFilter.AskSame E (f.budgetFor p) (g.budgetFor p) := by
  have hparts : ∀ h : ProjectFilter,
      h.ranges = (h.range? .fixed).toList ++ (h.range? .hourly).toList := by
    intro h
    rw [ranges, Pricing.all]
    cases hf : h.range? .fixed <;> cases hh : h.range? .hourly <;> simp [hf, hh]
  have hpricing : ∀ (h : ProjectFilter) (p : Pricing), ∀ r ∈ (h.range? p).toList, r.pricing = p := by
    intro h p r hr
    obtain ⟨b, -, rfl⟩ := Option.map_eq_some_iff.1 (Option.mem_toList.1 hr)
    rfl
  have hhourly : ∀ (h : ProjectFilter), ∀ r ∈ (h.range? .hourly).toList, r.pricing ≠ .fixed := by
    intro h r hr
    simp [hpricing h .hourly r hr]
  have hkey : ∀ r s : BudgetRange, r.Like E s → r.pricing = s.pricing := fun _ _ h => h.pricing
  rw [hparts f, hparts g, forall₂_append_iff_of_key hkey
    (hpricing f .fixed) (hpricing g .fixed) (hhourly f) (hhourly g), forall₂_toList_iff,
    forall₂_toList_iff, range?, range?, range?, range?, BudgetFilter.rel_toRange_iff,
    BudgetFilter.rel_toRange_iff]
  constructor
  · rintro ⟨hfixed, hhourly⟩ (_ | _)
    · exact hfixed
    · exact hhourly
  · intro h
    exact ⟨h .fixed, h .hourly⟩

end ProjectFilter

namespace Plan

/-- Plans of filters are alike exactly if the same actor asks for the same. -/
theorem like_asking_iff {P : Predicate → Predicate → Prop} (hP : Predicate.Comparison P E)
    {f g : ProjectFilter} {actor other : String} :
    (asking f actor).Like P (asking g other) ↔ actor = other ∧ f.AskSame E g := by
  have htitle : (Conditions.asking f actor).textSearch? = (Conditions.asking g other).textSearch? ↔
      f.title = g.title ∨ f.Untitled ∧ g.Untitled := by
    have hinj : Function.Injective fun t => TextSearch.mk "title" t titleEdits :=
      fun _ _ h => (TextSearch.mk.inj h).2.1
    rw [Conditions.textSearch?_asking, Conditions.textSearch?_asking, (Option.map_injective hinj).eq_iff,
      ProjectFilter.query?_eq_iff]
  have hskills : (Conditions.asking f actor).skills?.map sortedTexts =
      (Conditions.asking g other).skills?.map sortedTexts ↔ ∀ t, f.AsksFor t ↔ g.AsksFor t := by
    rw [← ProjectFilter.sortedTexts_required_eq_iff, Conditions.skills?_asking,
      Conditions.skills?_asking]
    have hnil : ∀ ts, sortedTexts ts = [] ↔ ts = [] := by
      intro ts
      rw [← List.length_eq_zero_iff, sortedTexts, List.length_mergeSort, List.length_eq_zero_iff]
    by_cases hf : f.required = [] <;> by_cases hg : g.required = [] <;>
      simp [hf, hg, hnil, (hnil []).2 rfl, @eq_comm _ []]
  rw [← compiled_asking, ← compiled_asking, like_compiled_iff hP, htitle, hskills,
    Conditions.budgetRanges_asking, Conditions.budgetRanges_asking,
    ProjectFilter.forall₂_ranges_iff]
  constructor
  · rintro ⟨htitle, hactor, hbudgets, hskills⟩
    exact ⟨hactor, htitle, hskills, hbudgets⟩
  · rintro ⟨hactor, htitle, hskills, hbudgets⟩
    exact ⟨htitle, hactor, hbudgets, hskills⟩

end Plan

/-- Plans of two filters are equal exactly if one actor asks for the same with both: with bounds that
are equal as doubles, and for the very same plan with bounds of the same sign where they are zero. -/
theorem equal_plans_iff_askSame {raw raw' : Value} {filter filter' : Option ProjectFilter}
    {actor actor' : String} {p p' : Plan}
    (hraw : ProjectFilter.validate raw = .ok filter)
    (hraw' : ProjectFilter.validate raw' = .ok filter')
    (hp : Plan.ofFilter raw (.text actor) = .ok p)
    (hp' : Plan.ofFilter raw' (.text actor') = .ok p') :
    (p.Same p' ↔
      actor = actor' ∧ (filter.getD .blank).AskSame Double.Same (filter'.getD .blank)) ∧
    (p = p' ↔ actor = actor' ∧ (filter.getD .blank).AskSame (· = ·) (filter'.getD .blank)) := by
  have hasking : ∀ {raw : Value} {filter : Option ProjectFilter} {actor : String} {p : Plan},
      ProjectFilter.validate raw = .ok filter → Plan.ofFilter raw (.text actor) = .ok p →
        p = Plan.asking (filter.getD .blank) actor := by
    intro raw filter actor p hraw hp
    obtain ⟨read, a, hread, ha, -, -, rfl⟩ := Plan.ofFilter_eq_ok_iff.1 hp
    obtain rfl := Except.ok.inj (hread.symm.trans hraw)
    rw [Value.text_spells_iff.1 ha]
  obtain rfl := hasking hraw hp
  obtain rfl := hasking hraw' hp'
  exact ⟨Plan.like_same_iff.symm.trans (Plan.like_asking_iff Predicate.comparison_same),
    Plan.like_eq_iff.symm.trans (Plan.like_asking_iff Predicate.comparison_eq)⟩

/-- Blanks, repetitions and another order of skills, a blank title, an unchecked budget and a zero with
a sign give an equal plan; it is not the very same one, for the sign. -/
theorem equal_plans_iff_askSame_padded :
    let f : ProjectFilter := ⟨none, some [" sql ", "go", "", "sql"],
      some ⟨true, some "USD", some (.int 0), none⟩, some ⟨false, some "EUR", none, some (.int 9)⟩⟩
    let g : ProjectFilter := ⟨some "  ", some ["go", "sql"],
      some ⟨true, some "USD", some (.float .negativeZero), none⟩, none⟩
    ProjectFilter.validate f.toValue = .ok (some f) ∧
      ProjectFilter.validate g.toValue = .ok (some g) ∧
      ∃ p p', Plan.ofFilter f.toValue (.text "U1") = .ok p ∧
        Plan.ofFilter g.toValue (.text "U1") = .ok p' ∧ p.Same p' ∧ p ≠ p' := by
  intro f g
  have hf : ProjectFilter.validate f.toValue = .ok (some f) := rfl
  have hg : ProjectFilter.validate g.toValue = .ok (some g) := rfl
  have hzero : Number.toDouble? (.int 0) = some (.finite 0) := by decide +kernel
  have hsigned : Number.toDouble? (.float .negativeZero) = some .negativeZero := rfl
  have hfitsF : f.Fits := by
    rintro (_ | _) b hb hactive
    · cases hb
      refine ⟨?_, by rintro n ⟨⟩⟩
      rintro n ⟨⟩
      simp [hzero]
    · cases hb
      cases hactive
  have hfitsG : g.Fits := by
    rintro (_ | _) b hb -
    · cases hb
      refine ⟨?_, by rintro n ⟨⟩⟩
      rintro n ⟨⟩
      simp [hsigned]
    · cases hb
  have hp : Plan.ofFilter f.toValue (.text "U1") = .ok (Plan.asking f "U1") :=
    Plan.ofFilter_eq_ok_iff.2 ⟨some f, "U1", hf, .inl rfl, by decide, hfitsF, rfl⟩
  have hp' : Plan.ofFilter g.toValue (.text "U1") = .ok (Plan.asking g "U1") :=
    Plan.ofFilter_eq_ok_iff.2 ⟨some g, "U1", hg, .inl rfl, by decide, hfitsG, rfl⟩
  obtain ⟨hsame, heq⟩ := equal_plans_iff_askSame hf hg hp hp'
  have hactive : ∀ n : Number, (⟨true, some "USD", some n, none⟩ : BudgetFilter).Active "USD" :=
    fun n => ⟨rfl, rfl, by decide, .inl (by simp)⟩
  refine ⟨hf, hg, _, _, hp, hp', hsame.2 ⟨rfl, .inr ⟨by rintro t ⟨⟩, ?_⟩, ?_, ?_⟩, fun h => ?_⟩
  · rintro t ⟨⟩
    decide +kernel
  · have hstrip : Text.strip " sql " = "sql" ∧ Text.strip "sql" = "sql" ∧ Text.strip "go" = "go" ∧
        Text.strip "" = "" := by decide +kernel
    intro t
    simp only [ProjectFilter.AsksFor, Option.getD_some, f, g]
    simpa [hstrip] using fun h => .inr h
  · rintro (_ | _)
    · refine .inr ⟨_, rfl, _, rfl, ⟨"USD", hactive _, hactive _⟩, ?_, .none⟩
      simp only [Option.bind_some, hzero, hsigned, Option.rel_some_some]
      exact ⟨.rat 0, rfl, rfl⟩
    · refine .inl ⟨?_, by rintro b ⟨⟩⟩
      rintro b ⟨⟩ currency h
      cases h.checked
  · obtain ⟨-, -, -, hbudgets⟩ := heq.1 h
    obtain ⟨hno, -⟩ | ⟨b, hb, b', hb', halike⟩ := hbudgets .fixed
    · exact hno _ rfl _ (hactive _)
    · cases hb
      cases hb'
      have hmin := halike.min
      simp only [Option.bind_some, hzero, hsigned, Option.rel_some_some] at hmin
      cases hmin

end FreelanceBoard
