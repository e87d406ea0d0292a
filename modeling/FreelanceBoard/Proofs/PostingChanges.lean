import FreelanceBoard.Proofs.Ledger

/-! The changes that the catalog makes to a posting, and which of them can be exchanged. A change of
fields is the same whatever else is in the record at the time. -/
namespace FreelanceBoard

namespace Fields

variable {α : Type}

/-- What a changed field is set to does not depend on what it was. -/
theorem lookup_putAll_of_mem (fields others : Fields) {changes : Fields} {key : String}
    (h : key ∈ changes.keys) :
    (fields.putAll changes).lookup key = (others.putAll changes).lookup key := by
  induction changes generalizing fields others with
  | nil => cases h
  | cons change changes ih =>
    obtain ⟨k, v⟩ := change
    rw [putAll_cons, putAll_cons]
    by_cases hmem : key ∈ keys changes
    · exact ih _ _ hmem
    · rw [keys, List.map_cons, List.mem_cons] at h
      obtain rfl := h.resolve_right hmem
      rw [lookup_putAll_of_notMem hmem, lookup_putAll_of_notMem hmem, lookup_put_self,
        lookup_put_self]

theorem optional_putAll {fields others changes : Fields} {key : String} {default a b : α}
    {read : Reader α} {v : Value} (ha : (fields.putAll changes).optional key default read = .valid a)
    (hv : others.lookup key = some v) (hb : read v = .valid b) :
    (others.putAll changes).optional key default read =
      .valid (if key ∈ changes.keys then a else b) := by
  by_cases hmem : key ∈ changes.keys
  · rw [if_pos hmem, ← ha, optional, optional, lookup_putAll_of_mem others fields hmem]
  · rw [if_neg hmem, optional_eq_valid_iff ((lookup_putAll_of_notMem hmem).trans hv), hb]

end Fields

namespace Posting

/-- A posting without the freelancers and the proposers that its project was read with, which its
record does not show. -/
def plain (q : Posting) : Posting :=
  { q with project := { q.project with freelancers := [], proposers := [] } }

theorem plain_eq_self {q : Posting} (hfreelancers : q.project.freelancers = [])
    (hproposers : q.project.proposers = []) : q.plain = q := by
  obtain ⟨⟨_, _, _, _, _, _, _, _, _, _⟩, _, _⟩ := q
  cases hfreelancers
  cases hproposers
  rfl

/-- A posting with some of the fields of a project. -/
def taking (names : List String) (p : Project) (q : Posting) : Posting :=
  { q with project :=
    { q.project with
      title := if "title" ∈ names then p.title else q.project.title
      description := if "description" ∈ names then p.description else q.project.description
      skills := if "skills" ∈ names then p.skills else q.project.skills
      scope := if "scope" ∈ names then p.scope else q.project.scope
      budget := if "budget" ∈ names then p.budget else q.project.budget } }

/-- The freelancers are all read as texts, as those of a project that can be read have to be. -/
def Readable (q : Posting) : Prop := ∃ ts : List String, List.Forall₂ Value.Spells q.hired ts

theorem plain_withProposer (q : Posting) (actor : Name) :
    (q.withProposer actor).plain = q.plain.withProposer actor := by
  by_cases h : actor ∈ q.proposed <;> simp [withProposer, plain, h]

theorem plain_hiring (q : Posting) (freelancer : Value) :
    (q.hiring freelancer).plain = q.plain.hiring freelancer := by
  by_cases h : freelancer.memberOf q.hired = true <;> simp [hiring, plain, h]

@[simp] theorem taking_withProposer (names : List String) (p : Project) (q : Posting) (actor : Name) :
    (q.withProposer actor).taking names p = (q.taking names p).withProposer actor := by
  by_cases h : actor ∈ q.proposed <;> simp [withProposer, taking, h]

@[simp] theorem taking_hiring (names : List String) (p : Project) (q : Posting) (freelancer : Value) :
    (q.hiring freelancer).taking names p = (q.taking names p).hiring freelancer := by
  by_cases h : freelancer.memberOf q.hired = true <;> simp [hiring, taking, h]

@[simp] theorem hiring_withProposer (q : Posting) (actor : Name) (freelancer : Value) :
    (q.withProposer actor).hiring freelancer = (q.hiring freelancer).withProposer actor := by
  by_cases h : actor ∈ q.proposed <;>
    by_cases h' : freelancer.memberOf q.hired = true <;> simp [withProposer, hiring, h, h']

@[simp] theorem owner_taking (names : List String) (p : Project) (q : Posting) :
    (q.taking names p).owner = q.owner := by
  cases q
  rfl

@[simp] theorem readable_taking (names : List String) (p : Project) (q : Posting) :
    (q.taking names p).Readable ↔ q.Readable := by
  cases q
  rfl

@[simp] theorem readable_withProposer (q : Posting) (actor : Name) :
    (q.withProposer actor).Readable ↔ q.Readable := by
  rw [withProposer]
  split <;> rfl

theorem readable_hiring {q : Posting} {freelancer : Value} (h : (q.hiring freelancer).Readable) :
    q.Readable := by
  obtain ⟨ts, hts⟩ := h
  rw [hiring] at hts
  by_cases hmem : freelancer.memberOf q.hired = true
  · rw [if_pos hmem] at hts
    exact ⟨ts, hts⟩
  · rw [if_neg hmem] at hts
    have hfirst := List.forall₂_take q.hired.length hts
    rw [List.take_left' rfl] at hfirst
    exact ⟨_, hfirst⟩

section

variable {names : List String} {p : Project} {q : Posting}

theorem get_taking (hnames : ∀ key ∈ names, key ∈ Catalog.editableFields) {key : String}
    (hkey : key ∈ Fields.keys q.fields) :
    Fields.get (q.taking names p).fields key =
      if key ∈ names then Fields.get p.fields key else Fields.get q.fields key := by
  by_cases hedit : key ∈ Catalog.editableFields
  · simp only [Catalog.editableFields, List.mem_cons, List.not_mem_nil, or_false] at hedit
    rcases hedit with rfl | rfl | rfl | rfl | rfl
    · exact apply_ite (Value.ofOption .text) _ _ _
    · exact apply_ite (Value.ofOption .text) _ _ _
    · exact apply_ite Value.texts _ _ _
    · exact apply_ite (Value.ofOption Scope.toDocument) _ _ _
    · exact apply_ite (Value.ofOption Budget.toDocument) _ _ _
  · rw [if_neg fun hmem => hedit (hnames key hmem)]
    rw [q.keys_fields] at hkey
    simp only [Project.keys_fields, List.mem_cons, List.not_mem_nil, or_false] at hkey
    rcases hkey with rfl | rfl | rfl | rfl | rfl | rfl | rfl | rfl | rfl | rfl <;>
      first | rfl | exact absurd (by decide) hedit

/-- Setting the changed fields of any record to what was read from another. -/
theorem putAll_taking (hnames : ∀ key ∈ names, key ∈ Catalog.editableFields) (q : Posting) :
    q.fields.putAll (names.map fun key => (key, Fields.get p.fields key)) =
      (q.taking names p).fields := by
  have hkeys : Fields.keys q.fields = Fields.keys (q.taking names p).fields := by
    rw [q.keys_fields, (q.taking names p).keys_fields]
    rfl
  have hmem : ∀ key ∈ names, key ∈ Fields.keys q.fields := by
    intro key hkey
    rw [q.keys_fields]
    exact q.project.mem_keys_of_editable (hnames key hkey)
  have hset : names.map (fun key => (key, Fields.get p.fields key)) =
      names.map fun key => (key, Fields.get (q.taking names p).fields key) := by
    refine List.map_congr_left fun key hkey => ?_
    rw [get_taking hnames (hmem key hkey), if_pos hkey]
  rw [hset]
  refine Fields.putAll_get_eq hkeys ?_ hmem fun key hkey hnew => ?_
  · rw [q.keys_fields]
    exact q.project.nodup_keys
  · rw [get_taking hnames hkey, if_neg hnew]

theorem readFields_taking {changed : Fields}
    (hread : Project.readFields (q.fields.putAll changed) = .valid p)
    (hnames : ∀ key ∈ Fields.keys changed, key ∈ Catalog.editableFields) {q' : Posting}
    (hq' : q'.Readable) :
    ∃ p', Project.readFields (q'.fields.putAll changed) = .valid p' ∧
      plain { q' with project := p' } = q'.plain.taking (Fields.keys changed) p := by
  obtain ⟨ts, hts⟩ := hq'
  obtain ⟨-, -, htitle, hdescription, hskills, hscope, hbudget, -, -, -⟩ :=
    Project.readFields_eq_valid_iff.1 hread
  have hfixed : ∀ key v, key ∉ Catalog.editableFields → q'.fields.lookup key = some v →
      (q'.fields.putAll changed).lookup key = some v := fun key v hkey hv =>
    (Fields.lookup_putAll_of_notMem fun hmem => hkey (hnames key hmem)).trans hv
  have hid := hfixed "id" _ (by decide) q'.lookup_id
  have howner := hfixed "owner" (.text q'.owner) (by decide) (q'.lookup_fields (by decide))
  have hpublished := hfixed "is_published" (.bool q'.project.isPublished) (by decide)
    (q'.lookup_fields (by decide))
  have hproposers := hfixed "proposers" _ (by decide) q'.lookup_proposers
  have hfreelancers := hfixed "freelancers" _ (by decide) q'.lookup_freelancers
  refine ⟨{ (q'.taking (Fields.keys changed) p).project with
      freelancers := ts, proposers := q'.proposed.map Name.string },
    Project.readFields_eq_valid_iff.2 ⟨?_, ?_, ?_, ?_, ?_, ?_, ?_, ?_, ?_, ?_⟩, rfl⟩
  · exact Fields.required_eq_valid_iff.2 ⟨_, hid, rfl⟩
  · exact Fields.required_eq_valid_iff.2 ⟨_, howner, rfl⟩
  · exact Fields.optional_putAll htitle (q'.lookup_fields (by decide)) (Reader.nullable_text _)
  · exact Fields.optional_putAll hdescription (q'.lookup_fields (by decide)) (Reader.nullable_text _)
  · exact Fields.optional_putAll hskills (q'.lookup_fields (by decide)) (Reader.listOf_texts _)
  · exact Fields.optional_putAll hscope (q'.lookup_fields (by decide)) (nullable_scope _)
  · exact Fields.optional_putAll hbudget (q'.lookup_fields (by decide)) (nullable_budget _)
  · exact (Fields.optional_eq_valid_iff hpublished).2 rfl
  · exact (Fields.optional_eq_valid_iff hfreelancers).2
      (Reader.itemsFrom_laxText_eq_valid_iff.2 hts)
  · exact (Fields.optional_eq_valid_iff hproposers).2
      (Reader.itemsFrom_laxText_eq_valid_iff.2 (Name.forall₂_spells_iff.2 rfl))

end

end Posting

end FreelanceBoard
