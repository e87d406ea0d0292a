import FreelanceBoard.Proofs.Admission

/-! What conditions say of a record, told clause by clause, and that their plan says the same. -/
namespace FreelanceBoard

/-- The meaning of a list of clauses: of the owners and of the skill sets the first counts, and one
budget of those that there are is to hold the amount of the record. -/
structure Conditions.Accept (c : Conditions) (r : Value) : Prop where
  owner : ∀ actor, c.First (.excludeOwner actor) → r.child "owner" ≠ .text actor
  budget : c.HasKind .budgetRange → ∃ range, .budgetRange range ∈ c.clauses ∧ range.Covers r
  skills : ∀ required, c.First (.skills required) → r.HasSkills required

theorem Conditions.accept_iff {c : Conditions} {actor : String} (howner : c.owner? = some actor)
    {r : Value} :
    c.Accept r ↔ r.child "owner" ≠ .text actor ∧
      (c.budgetRanges ≠ [] → ∃ range ∈ c.budgetRanges, range.Covers r) ∧
      ∀ required ∈ c.skills?, r.HasSkills required := by
  constructor
  · rintro ⟨hown, hbudget, hskills⟩
    refine ⟨hown actor (first_excludeOwner_iff.2 howner), fun hne => ?_, fun required hrequired =>
      hskills required (first_skills_iff.2 hrequired)⟩
    obtain ⟨range, hrange, hcovers⟩ := hbudget (hasKind_budgetRange_iff.2 hne)
    exact ⟨range, budgetRange_mem_iff.1 hrange, hcovers⟩
  · rintro ⟨hown, hbudget, hskills⟩
    refine ⟨fun other hother => ?_, fun hkind => ?_, fun required hrequired =>
      hskills required (first_skills_iff.1 hrequired)⟩
    · have hsame := howner.symm.trans (first_excludeOwner_iff.1 hother)
      exact Option.some.inj hsame ▸ hown
    · obtain ⟨range, hrange, hcovers⟩ := hbudget (hasKind_budgetRange_iff.1 hkind)
      exact ⟨range, budgetRange_mem_iff.2 hrange, hcovers⟩

/-- Conditions that leave out an owner have a plan, and it decides of every record whether it is as
their clauses say. -/
theorem compiledPlan_decides_accept {c : Conditions} {r : Value}
    (howner : c.HasKind .excludeOwner) (hskills : r.PlainSkills) :
    ∃ p, Plan.ofConditions c = .ok p ∧ Decides (p.admits r) (c.Accept r) := by
  obtain ⟨actor, hactor⟩ := Option.ne_none_iff_exists'.1
    (Conditions.hasKind_excludeOwner_iff.1 howner)
  refine ⟨Plan.compiled c actor, Plan.ofConditions_eq_ok_iff.2 ⟨actor, hactor, rfl⟩, ?_⟩
  exact (Plan.decides_compiled c actor hskills).congr (Conditions.accept_iff hactor).symm

/-- Of two budgets one has a bound that is no number and holds nothing, the other is open above; an
empty set of skills asks for a list all the same, and the second owner does not count. -/
theorem compiledPlan_decides_accept_open :
    let fixed : BudgetRange := ⟨.fixed, "USD", some (.finite 100), none⟩
    let c : Conditions := ⟨[.budgetRange ⟨.hourly, "EUR", some .nan, none⟩, .excludeOwner "U1",
      .skills [], .budgetRange fixed, .excludeOwner "U2", .skills ["css"]]⟩
    let r : Value := .object [("owner", .text "U2"), ("skills", .list []),
      ("budget", .object [("type", .text "fixed rate"), ("currency", .text "USD"),
        ("amount", .int 300)])]
    c.HasKind .excludeOwner ∧ r.PlainSkills ∧ c.Accept r ∧
      ∃ p, Plan.ofConditions c = .ok p ∧ p.admits r = .ok true := by
  intro fixed c r
  have howner : c.HasKind .excludeOwner := ⟨.excludeOwner "U1", by simp [c], rfl⟩
  have hskills : r.PlainSkills := by
    intro v hv
    cases hv
  have hfirst : c.owner? = some "U1" := rfl
  have hcovers : fixed.Covers r := by
    refine ⟨rfl, ⟨rfl, ?_, ?_⟩, rfl⟩
    · rintro x ⟨⟩
      exact ⟨.rat 100, .rat 300, rfl, rfl, by decide⟩
    · rintro x ⟨⟩
  have haccept : c.Accept r := by
    refine (Conditions.accept_iff hfirst).2 ⟨?_, fun _ => ⟨fixed, ?_, hcovers⟩, ?_⟩
    · exact fun h => absurd (Value.text.inj h) (by decide)
    · exact Conditions.budgetRange_mem_iff.1 (by simp [c])
    · rintro required ⟨⟩
      exact ⟨[], rfl, by simp⟩
  obtain ⟨p, hp, ⟨hyes, -⟩ | ⟨-, hno⟩⟩ := compiledPlan_decides_accept howner hskills
  · exact ⟨howner, hskills, haccept, p, hp, hyes⟩
  · exact absurd haccept hno

end FreelanceBoard
