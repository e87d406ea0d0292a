import FreelanceBoard.Proofs.CompiledStages
import FreelanceBoard.Proofs.Values
import Mathlib.Data.List.Forall2
import Mathlib.Data.Option.Basic

/-! When two plans are alike. The bounds of ranges may be compared as numbers or to the last sign,
and all else is compared part by part; either way two plans of conditions are alike only if the
conditions say the same of each kind. -/
namespace FreelanceBoard

/-- Doubles that mark one point, which a nan does not. -/
def Double.Same (x y : Double) : Prop := ∃ p, x.point? = some p ∧ y.point? = some p

namespace Value

theorem same_float_iff {x y : Double} :
    (Value.float x).same (.float y) = true ↔ x.Same y := by
  cases hx : x.point? with
  | none => simp [same, Double.Same, hx]
  | some p =>
    rw [same_iff_of_point? (v := .float x) hx]
    simp [point?, Double.Same, hx]

theorem same_int_iff {m n : Int} : (Value.int m).same (.int n) = true ↔ m = n := by
  rw [same_iff_of_point? (v := .int m) rfl]
  simp [point?, eq_comm]

theorem sameItems_iff {vs ws : List Value} :
    sameItems vs ws = true ↔ List.Forall₂ (fun v w => v.same w = true) vs ws := by
  induction vs generalizing ws with
  | nil => cases ws <;> simp [sameItems]
  | cons v vs ih => cases ws <;> simp [sameItems, ih]

theorem sameItems_texts_iff {ts us : List String} :
    sameItems (ts.map .text) (us.map .text) = true ↔ ts = us := by
  rw [sameItems_iff, List.forall₂_map_left_iff, List.forall₂_map_right_iff]
  simp

theorem same_ofOption_float_iff {x y : Option Double} :
    (ofOption .float x).same (ofOption .float y) = true ↔ Option.Rel Double.Same x y := by
  cases x with
  | none => cases y <;> simp [ofOption, same]
  | some x =>
    cases y with
    | none => cases h : x.point? <;> simp [ofOption, same, point?, h]
    | some y => simp [ofOption, same_float_iff]

end Value

/-- Lists in two parts that differ in a key are related part by part, if what is related has the same
key. -/
theorem forall₂_append_iff_of_key {α β : Type} {R : α → α → Prop} {f : α → β} {k : β}
    (hR : ∀ a b, R a b → f a = f b) {as bs cs ds : List α} (has : ∀ a ∈ as, f a = k)
    (hcs : ∀ c ∈ cs, f c = k) (hbs : ∀ b ∈ bs, f b ≠ k) (hds : ∀ d ∈ ds, f d ≠ k) :
    List.Forall₂ R (as ++ bs) (cs ++ ds) ↔ List.Forall₂ R as cs ∧ List.Forall₂ R bs ds := by
  induction as generalizing cs with
  | nil =>
    cases cs with
    | nil => simp
    | cons c cs =>
      cases bs with
      | nil => simp
      | cons b bs =>
        have hbc : ¬ R b c := fun h =>
          hbs b List.mem_cons_self ((hR b c h).trans (hcs c List.mem_cons_self))
        simp [hbc]
  | cons a as ih =>
    cases cs with
    | nil =>
      cases ds with
      | nil => simp
      | cons d ds =>
        have had : ¬ R a d := fun h =>
          hds d List.mem_cons_self ((hR a d h).symm.trans (has a List.mem_cons_self))
        simp [had]
    | cons c cs =>
      rw [List.forall_mem_cons] at has hcs
      simp [ih has.2 hcs.2, and_assoc]

theorem forall₂_toList_iff {α : Type} {R : α → α → Prop} {a b : Option α} :
    List.Forall₂ R a.toList b.toList ↔ Option.Rel R a b := by
  cases a <;> cases b <;> simp

theorem rel_eq_iff {α : Type} {a b : Option α} : Option.Rel (· = ·) a b ↔ a = b := by
  cases a <;> cases b <;> simp

namespace Predicate

/-- A comparison of predicates part by part, with bounds as `E` has it. -/
structure Comparison (P : Predicate → Predicate → Prop) (E : Double → Double → Prop) : Prop where
  eq_iff : ∀ path s t, P (.eq path (.text s)) (.eq path (.text t)) ↔ s = t
  ne_iff : ∀ path s t, P (.ne path (.text s)) (.ne path (.text t)) ↔ s = t
  range_iff : ∀ path low low' high high',
    P (.range path (low.map (⟨true, ·⟩)) (high.map (⟨true, ·⟩)))
      (.range path (low'.map (⟨true, ·⟩)) (high'.map (⟨true, ·⟩))) ↔
      Option.Rel E low low' ∧ Option.Rel E high high'
  containsAll_iff : ∀ path ts us, P (.containsAll path ts) (.containsAll path us) ↔ ts = us
  allOf_iff : ∀ ps qs, P (.allOf ps) (.allOf qs) ↔ List.Forall₂ P ps qs
  anyOf_iff : ∀ ps qs, P (.anyOf ps) (.anyOf qs) ↔ List.Forall₂ P ps qs
  allOf_not_anyOf : ∀ ps qs, ¬ P (.allOf ps) (.anyOf qs)
  anyOf_not_allOf : ∀ ps qs, ¬ P (.anyOf ps) (.allOf qs)

/-- Predicates whose written forms are loosely equal. -/
def Same (p q : Predicate) : Prop := p.toValue.same q.toValue = true

theorem comparison_eq : Comparison (· = ·) (· = ·) where
  eq_iff := by simp
  ne_iff := by simp
  range_iff := by
    have hinj : Function.Injective (Option.map (Limit.mk true)) :=
      Option.map_injective fun _ _ h => (Limit.mk.inj h).2
    intro path low low' high high'
    rw [rel_eq_iff, rel_eq_iff, Predicate.range.injEq, hinj.eq_iff, hinj.eq_iff]
    simp
  containsAll_iff := by simp
  allOf_iff := by simp
  anyOf_iff := by simp
  allOf_not_anyOf := by simp
  anyOf_not_allOf := by simp

theorem any_cases (ps : List Predicate) :
    (∃ p, ps = [p]) ∨ ps.length ≠ 1 ∧ any ps = .anyOf ps := by
  match ps with
  | [] => exact .inr ⟨by simp, rfl⟩
  | [p] => exact .inl ⟨p, rfl⟩
  | _ :: _ :: _ => exact .inr ⟨by simp, rfl⟩

/-- Alternatives are compared one by one, also where a single one stands for itself: a part that joins
others is never like a list of alternatives. -/
theorem Comparison.any_iff {P : Predicate → Predicate → Prop} {E : Double → Double → Prop}
    (hP : Comparison P E) {ps qs : List Predicate} (hps : ∀ p ∈ ps, ∃ parts, p = .allOf parts)
    (hqs : ∀ q ∈ qs, ∃ parts, q = .allOf parts) : P (any ps) (any qs) ↔ List.Forall₂ P ps qs := by
  obtain ⟨p, rfl⟩ | ⟨hlen, hany⟩ := any_cases ps
  · obtain ⟨q, rfl⟩ | ⟨hlen', hany'⟩ := any_cases qs
    · simp
    · obtain ⟨parts, rfl⟩ := hps p List.mem_cons_self
      rw [any_singleton, hany']
      exact iff_of_false (hP.allOf_not_anyOf _ _) fun h => hlen' h.length_eq.symm
  · obtain ⟨q, rfl⟩ | ⟨-, hany'⟩ := any_cases qs
    · obtain ⟨parts, rfl⟩ := hqs q List.mem_cons_self
      rw [any_singleton, hany]
      exact iff_of_false (hP.anyOf_not_allOf _ _) fun h => hlen h.length_eq
    · rw [hany, hany']
      exact hP.anyOf_iff _ _

theorem toValues_eq_map (ps : List Predicate) : toValues ps = ps.map toValue := by
  induction ps with
  | nil => rfl
  | cons p ps ih => rw [toValues, ih, List.map_cons]

theorem sameItems_toValues_iff {ps qs : List Predicate} :
    Value.sameItems (toValues ps) (toValues qs) = true ↔ List.Forall₂ Same ps qs := by
  rw [toValues_eq_map, toValues_eq_map, Value.sameItems_iff, List.forall₂_map_left_iff,
    List.forall₂_map_right_iff]
  rfl

theorem comparison_same : Comparison Same Double.Same where
  eq_iff := by simp [Same, toValue, Value.same, Value.sameFields, List.lookup_cons]
  ne_iff := by simp [Same, toValue, Value.same, Value.sameFields, List.lookup_cons]
  range_iff := by
    have hstrict : ∀ x : Option Double, boundOf true (x.map (⟨true, ·⟩)) = .ofOption .float x ∧
        boundOf false (x.map (⟨true, ·⟩)) = .null := by
      intro x
      cases x <;> simp [boundOf, Value.ofOption, Option.filter]
    simp [Same, toValue, Value.same, Value.sameFields, List.lookup_cons, hstrict,
      Value.same_ofOption_float_iff]
  containsAll_iff := by
    simp [Same, toValue, Value.same, Value.sameFields, List.lookup_cons, Value.sameItems_texts_iff]
  allOf_iff := by
    simp [Same, toValue, Value.same, Value.sameFields, List.lookup_cons, sameItems_toValues_iff]
  anyOf_iff := by
    simp [Same, toValue, Value.same, Value.sameFields, List.lookup_cons, sameItems_toValues_iff]
  allOf_not_anyOf := by simp [Same, toValue, Value.same, Value.sameFields, List.lookup_cons]
  anyOf_not_allOf := by simp [Same, toValue, Value.same, Value.sameFields, List.lookup_cons]

end Predicate

/-- Ranges for one pricing and currency, with bounds as `E` has it. -/
structure BudgetRange.Like (E : Double → Double → Prop) (r s : BudgetRange) : Prop where
  pricing : r.pricing = s.pricing
  currency : r.currency = s.currency
  min : Option.Rel E r.min s.min
  max : Option.Rel E r.max s.max

def Stage.Like (P : Predicate → Predicate → Prop) : Stage → Stage → Prop
  | .search s, .search t => s = t
  | .keep m, .keep n => m.name = n.name ∧ P m.predicate n.predicate
  | _, _ => False

namespace Plan

/-- Stage by stage alike. -/
def Like (P : Predicate → Predicate → Prop) (p q : Plan) : Prop :=
  List.Forall₂ (Stage.Like P) p.stages q.stages

/-- Equality of plans as it is asked for: their written forms are loosely equal. -/
def Same (p q : Plan) : Prop := p.toValue.same q.toValue = true

end Plan

variable {P : Predicate → Predicate → Prop} {E : Double → Double → Prop} {c d : Conditions}
  {p q : Plan}

theorem Stage.Like.name_eq {s t : Stage} (h : s.Like P t) : s.name = t.name := by
  cases s <;> cases t <;> simp_all [Stage.Like, Stage.name]

theorem SearchStage.same_toValue_iff {s t : SearchStage} :
    s.toValue.same t.toValue = true ↔ s = t := by
  cases s
  cases t
  rw [toValue, toValue, Value.same]
  simp [Value.sameFields, List.lookup_cons, Value.same_int_iff]

theorem MatchStage.same_toValue_iff {m n : MatchStage} :
    m.toValue.same n.toValue = true ↔ m.name = n.name ∧ m.predicate.Same n.predicate := by
  simp [toValue, Value.same, Value.sameFields, List.lookup_cons, Predicate.Same]

theorem Stage.same_toValue_iff {s t : Stage} :
    s.toValue.same t.toValue = true ↔ s.Like Predicate.Same t := by
  cases s with
  | search s =>
    cases t with
    | search t => exact SearchStage.same_toValue_iff
    | keep n => simp [Like, toValue, SearchStage.toValue, MatchStage.toValue, Value.same,
        Value.sameFields, List.lookup_cons]
  | keep m =>
    cases t with
    | search t => simp [Like, toValue, SearchStage.toValue, MatchStage.toValue, Value.same,
        Value.sameFields, List.lookup_cons]
    | keep n => exact MatchStage.same_toValue_iff

theorem Stage.like_eq : Stage.Like (· = ·) = (· = ·) := by
  funext s t
  cases s with
  | search s => cases t <;> simp [Like]
  | keep m =>
    cases t with
    | search t => simp [Like]
    | keep n =>
      cases m
      cases n
      simp [Like]

namespace Plan

theorem like_same_iff : p.Like Predicate.Same q ↔ p.Same q := by
  have hsame : p.Same q ↔ Value.sameItems (p.stages.map Stage.toValue)
      (q.stages.map Stage.toValue) = true := by
    simp [Same, toValue, Value.same, Value.sameFields]
  rw [hsame, Value.sameItems_iff, List.forall₂_map_left_iff, List.forall₂_map_right_iff, Like]
  simp only [Stage.same_toValue_iff]

theorem like_eq_iff : p.Like (· = ·) q ↔ p = q := by
  cases p
  cases q
  rw [Like, Stage.like_eq, List.forall₂_eq_eq_eq, Plan.mk.injEq]

variable {actor other : String}

theorem name_of_mem_searchStages {s : Stage} (h : s ∈ searchStages c) : s.name = "search" := by
  rw [searchStages] at h
  cases ht : c.textSearch? <;> simp_all [Stage.name]

theorem name_of_mem_budgetStages {s : Stage} (h : s ∈ budgetStages c) : s.name = "budget" := by
  rw [budgetStages] at h
  cases hr : c.budgetRanges <;> simp_all [Stage.name]

theorem name_of_mem_skillStages {s : Stage} (h : s ∈ skillStages c) : s.name = "skills" := by
  rw [skillStages] at h
  cases hs : c.skills? <;> simp_all [Stage.name]

theorem like_searchStages_iff :
    List.Forall₂ (Stage.Like P) (searchStages c) (searchStages d) ↔
      c.textSearch? = d.textSearch? := by
  rw [searchStages, searchStages]
  cases c.textSearch? with
  | none => cases d.textSearch? <;> simp
  | some s =>
    cases d.textSearch? with
    | none => simp
    | some t =>
      cases s
      cases t
      simp [Stage.Like]

theorem like_predicate_iff (hP : Predicate.Comparison P E) {r s : BudgetRange} :
    P r.predicate s.predicate ↔ r.Like E s := by
  have hall : ∀ r : BudgetRange, r.predicate = .allOf [.eq "budget.type" r.pricing.toValue,
      .range "budget.amount" (r.min.map (⟨true, ·⟩)) (r.max.map (⟨true, ·⟩)),
      .eq "budget.currency" (.text r.currency)] := fun _ => rfl
  rw [hall, hall, hP.allOf_iff]
  simp only [List.forall₂_cons, Pricing.toValue, hP.eq_iff, hP.range_iff, Pricing.name_inj]
  constructor
  · rintro ⟨hpricing, ⟨hmin, hmax⟩, hcurrency, -⟩
    exact ⟨hpricing, hcurrency, hmin, hmax⟩
  · intro h
    exact ⟨h.pricing, ⟨h.min, h.max⟩, h.currency, .nil⟩

theorem like_any_iff (hP : Predicate.Comparison P E) (rs ss : List BudgetRange) :
    P (.any (rs.map BudgetRange.predicate)) (.any (ss.map BudgetRange.predicate)) ↔
      List.Forall₂ (BudgetRange.Like E) rs ss := by
  have hjoined : ∀ rs : List BudgetRange, ∀ p ∈ rs.map BudgetRange.predicate,
      ∃ parts, p = .allOf parts := by
    intro rs p hp
    obtain ⟨r, -, rfl⟩ := List.mem_map.1 hp
    exact ⟨_, rfl⟩
  rw [hP.any_iff (hjoined rs) (hjoined ss), List.forall₂_map_left_iff, List.forall₂_map_right_iff]
  simp only [like_predicate_iff hP]

theorem like_budgetStages_iff (hP : Predicate.Comparison P E) :
    List.Forall₂ (Stage.Like P) (budgetStages c) (budgetStages d) ↔
      List.Forall₂ (BudgetRange.Like E) c.budgetRanges d.budgetRanges := by
  rw [budgetStages, budgetStages]
  cases c.budgetRanges with
  | nil => cases d.budgetRanges <;> simp
  | cons r rs =>
    cases d.budgetRanges with
    | nil => simp
    | cons s ss =>
      have hany := like_any_iff hP (r :: rs) (s :: ss)
      simpa [Stage.Like] using hany

theorem like_skillStages_iff (hP : Predicate.Comparison P E) :
    List.Forall₂ (Stage.Like P) (skillStages c) (skillStages d) ↔
      c.skills?.map sortedTexts = d.skills?.map sortedTexts := by
  rw [skillStages, skillStages]
  cases c.skills? <;> cases d.skills? <;> simp [Stage.Like, hP.containsAll_iff]

/-- Plans of conditions are alike exactly if they search for the same, leave out the same owner and
ask for like ranges in the same order and for the same skills. -/
theorem like_compiled_iff (hP : Predicate.Comparison P E) :
    (compiled c actor).Like P (compiled d other) ↔
      c.textSearch? = d.textSearch? ∧ actor = other ∧
        List.Forall₂ (BudgetRange.Like E) c.budgetRanges d.budgetRanges ∧
        c.skills?.map sortedTexts = d.skills?.map sortedTexts := by
  have hparts : ∀ (c : Conditions) (actor : String),
      ∀ s ∈ ownerStage actor :: (budgetStages c ++ skillStages c), s.name ≠ "search" := by
    intro c actor s hs
    obtain rfl | hs := List.mem_cons.1 hs
    · simp [ownerStage, Stage.name]
    · obtain hs | hs := List.mem_append.1 hs
      · simp [name_of_mem_budgetStages hs]
      · simp [name_of_mem_skillStages hs]
  have hskills : ∀ (c : Conditions), ∀ s ∈ skillStages c, s.name ≠ "budget" := by
    intro c s hs
    simp [name_of_mem_skillStages hs]
  have hname : ∀ s t : Stage, s.Like P t → s.name = t.name := fun _ _ => Stage.Like.name_eq
  rw [Like, stages_compiled, stages_compiled,
    forall₂_append_iff_of_key hname (fun _ => name_of_mem_searchStages)
      (fun _ => name_of_mem_searchStages) (hparts c actor) (hparts d other),
    List.forall₂_cons,
    forall₂_append_iff_of_key hname (fun _ => name_of_mem_budgetStages)
      (fun _ => name_of_mem_budgetStages) (hskills c) (hskills d),
    like_searchStages_iff, like_budgetStages_iff hP, like_skillStages_iff hP]
  simp [ownerStage, Stage.Like, hP.ne_iff]

end Plan

end FreelanceBoard
