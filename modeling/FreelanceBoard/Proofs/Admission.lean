import FreelanceBoard.Proofs.FilterPlan
import FreelanceBoard.Proofs.Values

/-! What the predicates of a plan say of a record. Asking a predicate can fail; `Decides` says that
it does not, and that its answer is the truth of a proposition. -/
namespace FreelanceBoard

/-- The outcome of a test is the truth of `P`. -/
def Decides (outcome : Except Fault Bool) (P : Prop) : Prop :=
  outcome = .ok true ∧ P ∨ outcome = .ok false ∧ ¬ P

namespace Decides

variable {outcome : Except Fault Bool} {P Q : Prop}

theorem of_iff {b : Bool} (h : b = true ↔ P) : Decides (.ok b) P := by
  cases b
  · exact .inr ⟨rfl, by simpa using h⟩
  · exact .inl ⟨rfl, h.1 rfl⟩

theorem congr (h : Decides outcome P) (hPQ : P ↔ Q) : Decides outcome Q := by
  obtain ⟨ho, hP⟩ | ⟨ho, hP⟩ := h
  · exact .inl ⟨ho, hPQ.1 hP⟩
  · exact .inr ⟨ho, fun hQ => hP (hPQ.2 hQ)⟩

theorem eq_ok (h : Decides outcome P) : outcome = .ok (outcome.toOption.getD false) := by
  obtain ⟨rfl, -⟩ | ⟨rfl, -⟩ := h <;> rfl

theorem getD_eq_true_iff (h : Decides outcome P) : outcome.toOption.getD false = true ↔ P := by
  obtain ⟨rfl, hP⟩ | ⟨rfl, hP⟩ := h <;> simp [Except.toOption, hP]

end Decides

/-- A number, which a truth value is not, strictly between two bounds; a bound that is missing
leaves its side open. -/
structure Value.StrictlyBetween (v : Value) (min max : Option Double) : Prop where
  number : v.isNumber = true
  above : ∀ x ∈ min, ∃ p q, x.point? = some p ∧ v.point? = some q ∧ p.lt q = true
  below : ∀ x ∈ max, ∃ p q, x.point? = some p ∧ v.point? = some q ∧ q.lt p = true

namespace Limit

theorem admitsOption_strict_iff {upper : Bool} {x : Option Double} {p : Option Extended} :
    admitsOption upper (x.map (⟨true, ·⟩)) p = true ↔
      ∀ y ∈ x, ∃ q r, y.point? = some q ∧ p = some r ∧
        (if upper then r.lt q else q.lt r) = true := by
  cases x with
  | none => simp [admitsOption]
  | some y => cases p <;> cases hy : y.point? <;> cases upper <;> simp [admitsOption, admits, hy]

end Limit

namespace Predicate

theorem admits_all (ps : List Predicate) (r : Value) : (all ps).admits r = admitsAll ps r := by
  match ps with
  | [] => rfl
  | [p] =>
    rw [all_singleton, admitsAll]
    cases p.admits r with
    | error f => rfl
    | ok b => cases b <;> rfl
  | p :: q :: rest => rfl

theorem admits_any (ps : List Predicate) (r : Value) : (any ps).admits r = admitsAny ps r := by
  match ps with
  | [] => rfl
  | [p] =>
    rw [any_singleton, admitsAny]
    cases p.admits r with
    | error f => rfl
    | ok b => cases b <;> rfl
  | p :: q :: rest => rfl

section

variable {p : Predicate} {ps : List Predicate} {r : Value} {P Q : Prop}

theorem decides_admitsAll_cons (hp : Decides (p.admits r) P) (hps : Decides (admitsAll ps r) Q) :
    Decides (admitsAll (p :: ps) r) (P ∧ Q) := by
  rw [admitsAll]
  obtain ⟨ho, hP⟩ | ⟨ho, hP⟩ := hp
  · rw [ho]
    exact hps.congr (by simp [hP])
  · rw [ho]
    exact .inr ⟨rfl, fun h => hP h.1⟩

theorem decides_admitsAny_cons (hp : Decides (p.admits r) P) (hps : Decides (admitsAny ps r) Q) :
    Decides (admitsAny (p :: ps) r) (P ∨ Q) := by
  rw [admitsAny]
  obtain ⟨ho, hP⟩ | ⟨ho, hP⟩ := hp
  · rw [ho]
    exact .inl ⟨rfl, .inl hP⟩
  · rw [ho]
    exact hps.congr (by simp [hP])

theorem decides_admitsAll_nil : Decides (admitsAll [] r) True := .inl ⟨rfl, trivial⟩

theorem decides_admitsAll_append {qs : List Predicate} (hps : Decides (admitsAll ps r) P)
    (hqs : Decides (admitsAll qs r) Q) : Decides (admitsAll (ps ++ qs) r) (P ∧ Q) := by
  induction ps with
  | nil =>
    obtain ⟨-, hP⟩ | ⟨ho, -⟩ := hps
    · exact hqs.congr (by simp [hP])
    · cases ho
  | cons p ps ih =>
    rw [admitsAll] at hps
    rw [List.cons_append, admitsAll]
    cases hp : p.admits r with
    | error f =>
      rw [hp] at hps
      obtain ⟨ho, -⟩ | ⟨ho, -⟩ := hps <;> cases ho
    | ok b =>
      rw [hp] at hps
      cases b with
      | true => exact ih hps
      | false =>
        obtain ⟨ho, -⟩ | ⟨-, hP⟩ := hps
        · cases ho
        · exact .inr ⟨rfl, fun h => hP h.1⟩

theorem decides_admitsAny_map {α : Type} {f : α → Predicate} {P : α → Prop} {as : List α}
    (h : ∀ a ∈ as, Decides ((f a).admits r) (P a)) :
    Decides (admitsAny (as.map f) r) (∃ a ∈ as, P a) := by
  induction as with
  | nil => exact .inr ⟨rfl, by simp⟩
  | cons a as ih =>
    have htail := ih fun b hb => h b (by simp [hb])
    exact (decides_admitsAny_cons (h a (by simp)) htail).congr (by simp)

theorem decides_eq_text {path s : String} :
    Decides ((Predicate.eq path (.text s)).admits r) (r.resolve path = .text s) :=
  Decides.of_iff Value.same_text_iff

theorem decides_ne_text {path s : String} :
    Decides ((Predicate.ne path (.text s)).admits r) (r.resolve path ≠ .text s) := by
  refine Decides.of_iff ?_
  rw [Bool.not_eq_true', ← Bool.not_eq_true, Value.same_text_iff]

theorem decides_range {path : String} {min max : Option Double} :
    Decides ((Predicate.range path (min.map (⟨true, ·⟩)) (max.map (⟨true, ·⟩))).admits r)
      ((r.resolve path).StrictlyBetween min max) := by
  refine Decides.of_iff ?_
  simp only [inRange, Bool.and_eq_true, Limit.admitsOption_strict_iff]
  constructor
  · rintro ⟨⟨hnumber, hmin⟩, hmax⟩
    exact ⟨hnumber, by simpa using hmin, by simpa using hmax⟩
  · rintro ⟨hnumber, hmin, hmax⟩
    exact ⟨⟨hnumber, by simpa using hmin⟩, by simpa using hmax⟩

end

end Predicate

/-- The skills of a record as a document has them: where they are a collection they are a list, and
one of texts. -/
def Value.PlainSkills (r : Value) : Prop :=
  match r.child "skills" with
  | .list items => ∀ v ∈ items, ∃ s, v = .text s
  | .tuple _ => False
  | .set _ => False
  | _ => True

/-- A record whose budget is of the pricing and currency of a range, with its amount inside. -/
structure BudgetRange.Covers (range : BudgetRange) (r : Value) : Prop where
  pricing : (r.child "budget").child "type" = .text range.pricing.name
  amount : ((r.child "budget").child "amount").StrictlyBetween range.min range.max
  currency : (r.child "budget").child "currency" = .text range.currency

/-- A record that lists all of some skills. -/
def Value.HasSkills (r : Value) (skills : List String) : Prop :=
  ∃ items, r.child "skills" = .list items ∧ ∀ s ∈ skills, .text s ∈ items

theorem BudgetRange.decides_predicate (range : BudgetRange) (r : Value) :
    Decides (range.predicate.admits r) (range.Covers r) := by
  rw [BudgetRange.predicate, Predicate.admits_all]
  refine (Predicate.decides_admitsAll_cons Predicate.decides_eq_text
    (Predicate.decides_admitsAll_cons Predicate.decides_range
      (Predicate.decides_admitsAll_cons Predicate.decides_eq_text
        Predicate.decides_admitsAll_nil))).congr ?_
  constructor
  · rintro ⟨hpricing, hamount, hcurrency, -⟩
    exact ⟨hpricing, hamount, hcurrency⟩
  · rintro ⟨hpricing, hamount, hcurrency⟩
    exact ⟨hpricing, hamount, hcurrency, trivial⟩

theorem Predicate.decides_containsAll {r : Value} (hr : r.PlainSkills) (skills : List String) :
    Decides ((Predicate.containsAll "skills" skills).admits r) (r.HasSkills skills) := by
  have hpath : r.resolve "skills" = r.child "skills" := rfl
  simp only [Predicate.admits, hpath]
  rw [Value.PlainSkills] at hr
  cases hskills : r.child "skills" with
  | list items =>
    rw [hskills] at hr
    rw [Predicate.containsTexts, Predicate.holdsAll, if_pos (Value.areKeys_of_texts hr)]
    refine Decides.of_iff ?_
    simp [Value.HasSkills, hskills, Value.text_memberOf_iff]
  | tuple items => simp [hskills] at hr
  | set items => simp [hskills] at hr
  | _ => exact .inr ⟨rfl, by simp [Value.HasSkills, hskills]⟩

theorem mem_sortedTexts {t : String} {texts : List String} :
    t ∈ Plan.sortedTexts texts ↔ t ∈ texts := by
  simp [Plan.sortedTexts]

theorem Plan.matchStages_compiled (c : Conditions) (actor : String) :
    (compiled c actor).matchStages =
      ⟨"exclude_owner", .ne "owner" (.text actor)⟩ ::
        ((if c.budgetRanges = [] then []
          else [⟨"budget", .any (c.budgetRanges.map BudgetRange.predicate)⟩]) ++
        c.skills?.toList.map fun required =>
          ⟨"skills", .containsAll "skills" (sortedTexts required)⟩) := by
  rw [matchStages, stages_compiled, searchStages, budgetStages, skillStages, ownerStage]
  cases c.textSearch? <;> cases c.budgetRanges <;> cases c.skills? <;> rfl

/-- What the match stages of a plan say of a record together. -/
theorem Plan.decides_compiled (c : Conditions) (actor : String) {r : Value} (hr : r.PlainSkills) :
    Decides ((compiled c actor).admits r)
      (r.child "owner" ≠ .text actor ∧
        (c.budgetRanges ≠ [] → ∃ range ∈ c.budgetRanges, range.Covers r) ∧
        ∀ required ∈ c.skills?, r.HasSkills required) := by
  have hnil := @Predicate.decides_admitsAll_nil r
  have howner : Decides ((Predicate.ne "owner" (.text actor)).admits r)
      (r.child "owner" ≠ .text actor) := Predicate.decides_ne_text
  have hbudget : Decides
      (Predicate.admitsAll (((if c.budgetRanges = [] then []
        else [⟨"budget", .any (c.budgetRanges.map BudgetRange.predicate)⟩]) :
          List MatchStage).map MatchStage.predicate) r)
      (c.budgetRanges ≠ [] → ∃ range ∈ c.budgetRanges, range.Covers r) := by
    by_cases hb : c.budgetRanges = []
    · rw [if_pos hb]
      exact hnil.congr (by simp [hb])
    · rw [if_neg hb]
      have hany : Decides ((Predicate.any (c.budgetRanges.map BudgetRange.predicate)).admits r)
          (∃ range ∈ c.budgetRanges, range.Covers r) := by
        rw [Predicate.admits_any]
        exact Predicate.decides_admitsAny_map fun range _ => range.decides_predicate r
      exact (Predicate.decides_admitsAll_cons hany hnil).congr (by simp [hb])
  have hskills : Decides
      (Predicate.admitsAll ((c.skills?.toList.map fun required =>
        (⟨"skills", .containsAll "skills" (sortedTexts required)⟩ : MatchStage)).map
          MatchStage.predicate) r)
      (∀ required ∈ c.skills?, r.HasSkills required) := by
    cases c.skills? with
    | none => exact hnil.congr (by simp)
    | some required =>
      have hall := Predicate.decides_containsAll hr (sortedTexts required)
      exact (Predicate.decides_admitsAll_cons hall hnil).congr
        (by simp [Value.HasSkills, mem_sortedTexts])
  rw [admits, matchStages_compiled, List.map_cons, List.map_append]
  exact Predicate.decides_admitsAll_cons howner (Predicate.decides_admitsAll_append hbudget hskills)

/-- What the match stages of the plan of a filter say of a record together. -/
theorem ProjectFilter.decides_matchStages (f : ProjectFilter) (actor : String) {r : Value}
    (hr : r.PlainSkills) :
    Decides (Predicate.admitsAll ((f.matchStages actor).map MatchStage.predicate) r)
      (r.child "owner" ≠ .text actor ∧ (f.ranges ≠ [] → ∃ range ∈ f.ranges, range.Covers r) ∧
        (f.required ≠ [] → r.HasSkills f.required)) := by
  have hdecides := Plan.decides_compiled (Conditions.asking f actor) actor hr
  rw [Plan.compiled_asking, Plan.admits, Plan.matchStages_asking, Conditions.budgetRanges_asking,
    Conditions.skills?, Conditions.skillSets_asking] at hdecides
  refine hdecides.congr ?_
  by_cases hs : f.required = [] <;> simp [hs]

end FreelanceBoard
