import FreelanceBoard.Proofs.BudgetBounds
import FreelanceBoard.Proofs.Deeds
import FreelanceBoard.Proofs.FiledRecords
import FreelanceBoard.Proofs.FilterGrammar
import FreelanceBoard.Proofs.OwnWords
import FreelanceBoard.Proofs.WantedProjects

/-! Filters that say what a project says of itself, and whether they find it once it has been added.
Title and budget always do. A skill is asked for without the blanks around it but stored with them, so
that it is found if the project lists it without them. -/
namespace FreelanceBoard

open Collection

/-- A budget filter around the amount of a budget, in its currency. -/
structure BudgetFilter.Surrounds (b : BudgetFilter) (own : Budget) : Prop where
  checked : b.checked = true
  currency : b.currency = some own.currency
  min : ∀ n ∈ b.min, ∃ k : Int, n = .int k ∧ k.natAbs ≤ 2 ^ 53 ∧ k < own.amount
  max : ∀ n ∈ b.max, ∃ k : Int, n = .int k ∧ k.natAbs ≤ 2 ^ 53 ∧ own.amount < k

/-- A filter made of what a project says of itself. -/
structure Project.Describes (p : Project) (f : ProjectFilter) : Prop where
  title : ∀ t, f.title = some t → p.title = some t ∧ ∃ c ∈ t.toList, Text.isWordChar c = true
  skills : ∀ s ∈ f.skills.getD [], s ∈ p.skills
  budget : ∀ q b, f.budgetFor q = some b →
    ∃ own, p.budget = some own ∧ own.pricing = q ∧ b.Surrounds own

/-- A project that says what it was added with, with the texts that this is read as. -/
structure Project.AddedWith (p : Project) (actor title budget skills : Value) : Prop where
  owner : actor.Spells p.owner
  title : title = .null ∧ p.title = none ∨ ∃ t, p.title = some t ∧ title.Spells t
  skills : skills.truthy = false ∧ p.skills = [] ∨
    ∃ items, skills.items? = some items ∧ List.Forall₂ Value.Spells items p.skills
  budget : Reader.nullable Budget.read budget = .valid p.budget

namespace BudgetFilter.Surrounds

variable {b : BudgetFilter} {own : Budget}

theorem whole (h : b.Surrounds own) : ∀ n ∈ b.bounds, ∃ k : Int, n = .int k ∧ k.natAbs ≤ 2 ^ 53 := by
  intro n hn
  rcases List.mem_append.1 hn with hn | hn
  · obtain ⟨k, hk, hle, -⟩ := h.min n (Option.mem_toList.1 hn)
    exact ⟨k, hk, hle⟩
  · obtain ⟨k, hk, hle, -⟩ := h.max n (Option.mem_toList.1 hn)
    exact ⟨k, hk, hle⟩

theorem finite (h : b.Surrounds own) : b.Finite := by
  constructor
  · intro n hn
    obtain ⟨k, rfl, -⟩ := h.min n hn
    trivial
  · intro n hn
    obtain ⟨k, rfl, -⟩ := h.max n hn
    trivial

theorem exact (h : b.Surrounds own) : ∀ n ∈ b.bounds, n.Exact := by
  intro n hn
  obtain ⟨k, rfl, hle⟩ := h.whole n hn
  exact Number.exact_int hle

theorem not_oversized (h : b.Surrounds own) : ∀ n ∈ b.bounds, ¬ n.Oversized := by
  intro n hn
  obtain ⟨k, rfl, hle⟩ := h.whole n hn
  simp only [Number.Oversized]
  omega

theorem fits (h : b.Surrounds own) : b.Fits := BudgetFilter.fits_iff.2 h.not_oversized

theorem between (h : b.Surrounds own) : b.Between Number.point? own.amount := by
  constructor
  · intro n hn
    obtain ⟨k, rfl, -, hlt⟩ := h.min n hn
    exact ⟨.ofInt k, rfl, by simpa [Extended.ofInt, Extended.lt] using hlt⟩
  · intro n hn
    obtain ⟨k, rfl, -, hlt⟩ := h.max n hn
    exact ⟨.ofInt k, rfl, by simpa [Extended.ofInt, Extended.lt] using hlt⟩

theorem strictlyBetween (h : b.Surrounds own) (p : Pricing) :
    (Value.int own.amount).StrictlyBetween (b.toRange p).min (b.toRange p).max := by
  rw [strictlyBetween_toRange_iff h.fits]
  exact (between_congr h.not_oversized fun n hn => .inl (h.exact n hn)).2 h.between

end BudgetFilter.Surrounds

theorem Reader.listOf_laxText_eq_valid {v : Value} {ts : List String}
    (h : listOf laxText v = .valid ts) :
    ∃ items, v.items? = some items ∧ List.Forall₂ Value.Spells items ts := by
  cases v with
  | list items => exact ⟨items, rfl, itemsFrom_laxText_eq_valid_iff.1 h⟩
  | tuple items => exact ⟨items, rfl, itemsFrom_laxText_eq_valid_iff.1 h⟩
  | set items => exact ⟨items, rfl, itemsFrom_laxText_eq_valid_iff.1 h⟩
  | _ => cases h

namespace Project

variable {p : Project} {f : ProjectFilter}

theorem toDocument_injective : Function.Injective toDocument := by
  intro p q h
  have hread := congrArg read h
  rw [p.read_toDocument, q.read_toDocument] at hread
  exact Checked.valid.inj hread

theorem plainSkills_toDocument (p : Project) : p.toDocument.PlainSkills := by
  intro v hv
  obtain ⟨s, -, rfl⟩ := List.mem_map.1 hv
  exact ⟨s, rfl⟩

theorem Describes.fits (h : p.Describes f) : f.Fits := by
  intro q b hb _
  obtain ⟨own, -, -, hsurrounds⟩ := h.budget q b hb
  exact hsurrounds.fits

theorem Describes.titled (h : p.Describes f) {t : String} (ht : f.title = some t) :
    ∃ s, p.toDocument.child "title" = .text s ∧ 0 < Text.fuzzyScore t s 1 := by
  obtain ⟨htitle, hword⟩ := h.title t ht
  exact ⟨t, congrArg (Value.ofOption .text) htitle, Text.fuzzyScore_self_pos hword 1⟩

theorem Describes.affordable (h : p.Describes f) {q : Pricing} {b : BudgetFilter} {c : String}
    (hb : f.budgetFor q = some b) (hactive : b.Active c) :
    ∃ amount, p.toDocument.HasBudget q c amount ∧
      (Value.int amount).StrictlyBetween (b.min.bind Number.toDouble?) (b.max.bind Number.toDouble?) := by
  obtain ⟨own, hown, rfl, hsurrounds⟩ := h.budget q b hb
  have hc : own.currency = c := Option.some.inj (hsurrounds.currency.symm.trans hactive.inCurrency)
  have hbudget : p.toDocument.child "budget" = own.toDocument :=
    congrArg (Value.ofOption Budget.toDocument) hown
  refine ⟨own.amount, ?_, hsurrounds.strictlyBetween own.pricing⟩
  constructor <;> rw [hbudget]
  · rfl
  · rw [← hc]
    rfl
  · rfl

/-- Of a filter that describes a project nothing but the skills can miss it. -/
theorem Describes.wants_iff (h : p.Describes f) {actor : String} (hactor : actor ≠ p.owner) :
    f.Wants actor p.toDocument ↔
      ∀ s ∈ f.skills.getD [], Text.strip s ≠ "" → Text.strip s ∈ p.skills := by
  constructor
  · intro hwants s hs hne
    cases hf : f.skills with
    | none => simp [hf] at hs
    | some skills =>
      rw [hf, Option.getD_some] at hs
      obtain ⟨items, hitems, hall⟩ := hwants.skilled skills hf ⟨s, hs, hne⟩
      cases hitems
      simpa using hall s hs hne
  · intro hall
    refine ⟨fun hown => hactor (Value.text.inj hown).symm, fun t ht _ => h.titled ht, ?_, ?_⟩
    · rintro ⟨q, b, c, hb, hactive⟩
      obtain ⟨amount, hbudget, hbetween⟩ := h.affordable hb hactive
      refine ⟨q, b, c, hb, hactive, hbudget.pricing, hbudget.currency, ?_⟩
      rwa [hbudget.amount]
    · intro skills hf _
      rw [hf] at hall
      exact ⟨p.skills.map .text, rfl, fun s hs hne => List.mem_map_of_mem (hall s hs hne)⟩

theorem addedWith_of_readFields {id : String} {actor title scope budget skills : Value}
    (h : readFields (Catalog.newProject id actor title scope budget skills) = .valid p) :
    p.AddedWith actor title budget skills := by
  obtain ⟨-, howner, -⟩ := readFields_new h
  obtain ⟨-, -, htitle, -, hskills, -, hbudget, -⟩ := readFields_eq_valid_iff.1 h
  rw [Fields.optionalTexts, Fields.optional_eq_valid_iff rfl] at hskills
  refine ⟨howner, ?_, ?_, (Fields.optional_eq_valid_iff rfl).1 hbudget⟩
  · rcases Fields.optional_nullable_eq_valid htitle with ⟨hnone, hnull⟩ | ⟨t, hsome, hread⟩
    · exact .inl ⟨hnull, hnone⟩
    · exact .inr ⟨t, hsome, Reader.laxText_eq_valid_iff.1 hread⟩
  · cases htruthy : skills.truthy with
    | true =>
      rw [htruthy] at hskills
      exact .inr (Reader.listOf_laxText_eq_valid hskills)
    | false =>
      rw [htruthy] at hskills
      exact .inl ⟨rfl, (Checked.valid.inj hskills).symm⟩

end Project

namespace ProjectFilter

theorem mem_inOrder {f : ProjectFilter} {records : List Value} {r : Value} :
    r ∈ f.inOrder records ↔ r ∈ records := by
  rw [inOrder]
  cases f.query? with
  | none => rfl
  | some query => exact List.mem_mergeSort

end ProjectFilter

/-- A search on a store in memory finds those of its projects that the filter wants. -/
theorem searchProjects_finds {m : Memory} {raw : Value} {filter : Option ProjectFilter}
    {actor : String} (hskills : ∀ r ∈ m.contents projects, r.PlainSkills)
    (hraw : ProjectFilter.validate raw = .ok filter) (hfits : (filter.getD .blank).Fits)
    (hactor : actor ≠ "") :
    ∃ found, (searchProjects raw (.text actor)).run Memory.handle m = (.ok found, m) ∧
      ∀ r, r ∈ found ↔ r ∈ m.contents projects ∧ (filter.getD .blank).Wants actor r := by
  have hplan := Plan.ofFilter_eq_ok_iff.2 ⟨filter, actor, hraw, .inl rfl, hactor, hfits, rfl⟩
  have hdecides := fun r hr => (filter.getD .blank).decides_matchStages actor (hskills r hr)
  have hrun := Plan.run_execute_asking (m := m) fun r hr => (hdecides r hr).eq_ok
  refine ⟨_, by rw [searchProjects, hplan]; exact hrun, fun r => ?_⟩
  rw [ProjectFilter.mem_inOrder, List.mem_filter]
  refine and_congr_right fun hr => ?_
  rw [Bool.and_eq_true, (hdecides r hr).getD_eq_true_iff, ProjectFilter.wants_iff]
  simp [Option.all_eq_true]

theorem Entries.exists_mem_put {key : Value} (hkey : key.isKey = true) (es : Entries) (r : Fields) :
    ∃ e ∈ es.put key r, e.record = r := by
  induction es with
  | nil => exact ⟨⟨key, r⟩, by simp [hkey], rfl⟩
  | cons e rest ih =>
    rw [put]
    by_cases he : e.key.same key = true
    · rw [if_pos he]
      exact ⟨_, List.mem_cons_self, rfl⟩
    · rw [if_neg he]
      obtain ⟨f, hf, hrecord⟩ := ih
      exact ⟨f, List.mem_cons_of_mem _ hf, hrecord⟩

namespace Memory

variable {m : Memory} {name : String} {key : Value} {r : Fields}

theorem mem_contents_write_self (m : Memory) (name : String) (hkey : key.isKey = true) (r : Fields) :
    .object r ∈ (m.write name key r).contents name := by
  obtain ⟨e, he, rfl⟩ := Entries.exists_mem_put hkey (m.entries name) r
  rw [contents, entries_write_self]
  exact List.mem_map_of_mem he

theorem mem_contents_of_write {v : Value} (h : v ∈ (m.write name key r).contents name) :
    v ∈ m.contents name ∨ v = .object r := by
  rw [contents, entries_write_self] at h
  obtain ⟨e, he, rfl⟩ := List.mem_map.1 h
  rcases Entries.mem_put he with he | ⟨f, -, -, rfl⟩ | ⟨-, rfl⟩
  · exact .inl (List.mem_map_of_mem he)
  · exact .inr rfl
  · exact .inr rfl

theorem contents_listing_of_ne (m : Memory) {name : String} (user : Value) (field : String)
    (items : List Value) (id : String) (first : Fields) (h : name ≠ users) :
    (m.listing user field items id first).contents name = m.contents name := by
  rw [contents, entries_listing_of_ne m user field items id first h, contents]

/-- A project that has been added is there, and all others were there before. -/
theorem contents_of_addProject {ids : Nat → String} {n : Nat} {s : Memory × Nat}
    {actor title scope budget skills created : Value}
    (h : (Catalog.addProject actor title scope budget skills).run (Board.withIds ids handle) (m, n) =
      (.ok created, s)) :
    ∃ p : Project, created = p.toDocument ∧ p.AddedWith actor title budget skills ∧
      created ∈ s.1.contents projects ∧
      ∀ r ∈ s.1.contents projects, r ∈ m.contents projects ∨ r = created := by
  obtain ⟨outcome, t, hends, hdeed⟩ := Ends.addProject ids m n actor title scope budget skills
  rw [Ends, h, Prod.mk.injEq] at hends
  obtain ⟨rfl, rfl⟩ := hends
  cases hdeed with
  | read hreads => cases hreads
  | @projectAdded m n actor title scope budget skills p items hactor hread hitems =>
    refine ⟨p, rfl, Project.addedWith_of_readFields hread, ?_, ?_⟩
    · rw [contents_listing_of_ne _ _ _ _ _ _ (by decide : projects ≠ users)]
      exact mem_contents_write_self m projects (Value.isKey_text _) p.fields
    · intro r hr
      rw [contents_listing_of_ne _ _ _ _ _ _ (by decide : projects ≠ users)] at hr
      exact mem_contents_of_write hr

end Memory

/-- A filter that describes a project can be stated. -/
theorem Project.Describes.validate {p : Project} {f : ProjectFilter} (h : p.Describes f) :
    ProjectFilter.validate f.toValue = .ok (some f) := by
  refine ProjectFilter.validate_toValue fun q b hb => ?_
  obtain ⟨own, -, -, hsurrounds⟩ := h.budget q b hb
  exact hsurrounds.finite

/-- A project that has been added says what it was added with. Filters that describe it can be stated,
and anyone but its owner who searches with one of them is answered; the project is found exactly if it
lists, without the blanks around them, the skills that the filter asks for. -/
theorem added_project_found_iff {ids : Nat → String} {m : Memory} {n : Nat} {s : Memory × Nat}
    {actor title scope budget skills created : Value}
    (hskills : ∀ r ∈ m.contents projects, r.PlainSkills)
    (hadd : (Catalog.addProject actor title scope budget skills).run (Board.withIds ids Memory.handle)
      (m, n) = (.ok created, s)) :
    ∃ p : Project, created = p.toDocument ∧ p.AddedWith actor title budget skills ∧
      (∀ f, p.Describes f → ProjectFilter.validate f.toValue = .ok (some f)) ∧
      ∀ raw filter other, ProjectFilter.validate raw = .ok filter →
        p.Describes (filter.getD .blank) → other ≠ "" → other ≠ p.owner →
        ∃ found, (searchProjects raw (.text other)).run Memory.handle s.1 = (.ok found, s.1) ∧
          (created ∈ found ↔ ∀ t ∈ (filter.getD .blank).skills.getD [],
            Text.strip t ≠ "" → Text.strip t ∈ p.skills) := by
  obtain ⟨p, rfl, hwith, hthere, hothers⟩ := Memory.contents_of_addProject hadd
  refine ⟨p, rfl, hwith, fun f hf => hf.validate, ?_⟩
  intro raw filter other hraw hdescribes hnamed hother
  have hplain : ∀ r ∈ s.1.contents projects, r.PlainSkills := by
    intro r hr
    rcases hothers r hr with hr | rfl
    · exact hskills r hr
    · exact p.plainSkills_toDocument
  obtain ⟨found, hrun, hfound⟩ := searchProjects_finds hplain hraw hdescribes.fits hnamed
  refine ⟨found, hrun, ?_⟩
  rw [hfound, hdescribes.wants_iff hother]
  exact and_iff_right hthere

/-- One of the two skills of a project has no blanks around it and finds the project, with its title
and with bounds around its budget. -/
theorem added_project_found_iff_trimmed :
    let p : Project := ⟨"p", "U1", some "Site", none, [" css ", "html"], none,
      some ⟨.fixed, "USD", 300⟩, false, [], []⟩
    let added := (Catalog.addProject (.text "U1") (.text "Site") .null (.ofOption Budget.toDocument p.budget)
      (.texts p.skills)).run (Board.withIds longerIds Memory.handle) (Memory.empty, 0)
    let f : ProjectFilter :=
      ⟨some "Site", some ["html"], some ⟨true, some "USD", some (.int 100), some (.int 500)⟩, none⟩
    (∀ r ∈ Memory.empty.contents projects, r.PlainSkills) ∧ added.1 = .ok p.toDocument ∧
      p.Describes f ∧ ProjectFilter.validate f.toValue = .ok (some f) ∧ "U2" ≠ "" ∧ "U2" ≠ p.owner ∧
      ∃ found, (searchProjects f.toValue (.text "U2")).run Memory.handle added.2.1 =
        (.ok found, added.2.1) ∧ p.toDocument ∈ found := by
  intro p added f
  have hskills : ∀ r ∈ Memory.empty.contents projects, r.PlainSkills := by
    intro r hr
    cases hr
  have hadd : added = (.ok p.toDocument, added.2) := rfl
  have hdescribes : p.Describes f := by
    refine ⟨?_, by decide, ?_⟩
    · rintro t ⟨⟩
      exact ⟨rfl, 'S', by simp, by decide +kernel⟩
    · rintro (_ | _) b hb
      · cases hb
        refine ⟨_, rfl, rfl, rfl, rfl, ?_, ?_⟩
        · rintro n ⟨⟩
          exact ⟨100, rfl, by decide, by decide⟩
        · rintro n ⟨⟩
          exact ⟨500, rfl, by decide, by decide⟩
      · cases hb
  have hnamed : "U2" ≠ "" := by decide
  have hother : "U2" ≠ p.owner := by decide
  obtain ⟨q, hq, -, hstated, hsearch⟩ := added_project_found_iff hskills hadd
  obtain rfl := Project.toDocument_injective hq
  obtain ⟨found, hrun, hfound⟩ := hsearch _ _ _ (hstated f hdescribes) hdescribes hnamed hother
  refine ⟨hskills, rfl, hdescribes, hstated f hdescribes, hnamed, hother, found, hrun,
    hfound.2 fun t ht _ => ?_⟩
  rw [List.mem_singleton.1 ht]
  decide +kernel

/-- A skill with blanks around it does not find the project that has been added with it. -/
theorem padded_skill_misses_project :
    let p : Project := ⟨"p", "U1", some "Site", none, [" css "], none, none, false, [], []⟩
    let added := (Catalog.addProject (.text "U1") (.text "Site") .null .null (.texts p.skills)).run
      (Board.withIds longerIds Memory.handle) (Memory.empty, 0)
    let f : ProjectFilter := ⟨none, some p.skills, none, none⟩
    added.1 = .ok p.toDocument ∧ p.Describes f ∧ "U2" ≠ "" ∧ "U2" ≠ p.owner ∧
      (searchProjects f.toValue (.text "U2")).run Memory.handle added.2.1 = (.ok [], added.2.1) := by
  intro p added f
  have hcontents : added.2.1.contents projects = [p.toDocument] := rfl
  have hdescribes : p.Describes f := by
    refine ⟨by rintro t ⟨⟩, fun s hs => hs, ?_⟩
    rintro (_ | _) b hb <;> cases hb
  have hplain : ∀ r ∈ added.2.1.contents projects, r.PlainSkills := by
    rw [hcontents]
    intro r hr
    rw [List.mem_singleton.1 hr]
    exact p.plainSkills_toDocument
  have hnamed : "U2" ≠ "" := by decide
  have hother : "U2" ≠ p.owner := by decide
  obtain ⟨found, hrun, hfound⟩ :=
    searchProjects_finds hplain hdescribes.validate hdescribes.fits hnamed
  have hnone : found = [] := by
    refine List.eq_nil_iff_forall_not_mem.2 fun r hr => ?_
    obtain ⟨hmem, hwants⟩ := (hfound r).1 hr
    rw [hcontents, List.mem_singleton] at hmem
    rw [hmem] at hwants
    have hstripped := (hdescribes.wants_iff hother).1 hwants " css " (List.mem_singleton_self _)
      (by decide +kernel)
    exact absurd hstripped (by decide +kernel)
  rw [hnone] at hrun
  exact ⟨rfl, hdescribes, hnamed, hother, hrun⟩

end FreelanceBoard
