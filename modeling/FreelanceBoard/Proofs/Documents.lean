import FreelanceBoard.Catalog
import FreelanceBoard.Proofs.Spellings
import Mathlib.Data.List.Basic

/-! Reading documents. A document that was written is read as it was, also where some of its fields
have been changed. -/
namespace FreelanceBoard

namespace Value

theorem texts_injective : Function.Injective texts := by
  intro as bs h
  exact List.map_injective_iff.2 (fun _ _ => text.inj) (list.inj h)

theorem texts_concat (ts : List String) (t : String) :
    texts (ts ++ [t]) = .list (ts.map .text ++ [.text t]) := by
  rw [texts, List.map_append]
  rfl

end Value

namespace Fields

variable {α : Type}

def keys (fields : Fields) : List String := fields.map Prod.fst

theorem lookup_eq_none_of_notMem {fields : Fields} {key : String} (h : key ∉ fields.keys) :
    fields.lookup key = none := by
  rw [List.lookup_eq_none_iff]
  intro entry hentry
  have hne : key ≠ entry.1 := fun e => h (e ▸ List.mem_map_of_mem hentry)
  simpa using hne

theorem lookup_eq_get_of_mem {fields : Fields} {key : String} (h : key ∈ fields.keys) :
    fields.lookup key = some (get fields key) := by
  cases hlookup : fields.lookup key with
  | some v =>
    rw [get, hlookup]
    rfl
  | none =>
    rw [List.lookup_eq_none_iff] at hlookup
    obtain ⟨entry, hentry, rfl⟩ := List.mem_map.1 h
    have hne := hlookup entry hentry
    simp at hne

theorem keys_put_of_mem {fields : Fields} {key : String} (value : Value) (h : key ∈ fields.keys) :
    (fields.put key value).keys = fields.keys := by
  induction fields with
  | nil => cases h
  | cons entry rest ih =>
    obtain ⟨k, v⟩ := entry
    rw [put]
    by_cases hk : k = key
    · rw [if_pos hk]
      rfl
    · have hrest : key ∈ keys rest := by
        cases h with
        | head => exact absurd rfl hk
        | tail _ h => exact h
      have htail := ih hrest
      rw [keys] at htail ⊢
      rw [if_neg hk, List.map_cons, htail]
      rfl

theorem eq_of_lookup_eq {fields others : Fields} (hkeys : fields.keys = others.keys)
    (hnodup : fields.keys.Nodup) (h : ∀ key, fields.lookup key = others.lookup key) :
    fields = others := by
  induction fields generalizing others with
  | nil =>
    cases others with
    | nil => rfl
    | cons entry rest => cases hkeys
  | cons entry rest ih =>
    obtain ⟨k, v⟩ := entry
    cases others with
    | nil => cases hkeys
    | cons other others =>
      obtain ⟨l, w⟩ := other
      obtain ⟨rfl, htail⟩ : k = l ∧ keys rest = keys others := by simpa [keys] using hkeys
      have hvalue : v = w := by simpa using h k
      have hnew : k ∉ keys rest ∧ (keys rest).Nodup := by simpa [keys] using hnodup
      have hrest : rest = others := by
        refine ih htail hnew.2 fun key => ?_
        by_cases hk : key = k
        · rw [hk, lookup_eq_none_of_notMem hnew.1, lookup_eq_none_of_notMem (htail ▸ hnew.1)]
        · have hkey := h key
          have hbeq : (key == k) = false := by simpa using hk
          simpa [List.lookup_cons, hbeq] using hkey
      rw [hvalue, hrest]

theorem lookup_putAll_of_notMem {fields changes : Fields} {key : String} (h : key ∉ changes.keys) :
    (fields.putAll changes).lookup key = fields.lookup key := by
  induction changes generalizing fields with
  | nil => rfl
  | cons change changes ih =>
    obtain ⟨k, v⟩ := change
    rw [keys, List.map_cons, List.mem_cons, not_or] at h
    rw [putAll_cons, ih h.2, lookup_put_of_ne _ _ h.1]

/-- Some keys of an object set to what another object has there. -/
theorem lookup_putAll_get (fields others : Fields) (names : List String) (key : String) :
    (fields.putAll (names.map fun k => (k, get others k))).lookup key =
      if key ∈ names then some (get others key) else fields.lookup key := by
  induction names generalizing fields with
  | nil => rfl
  | cons k names ih =>
    rw [List.map_cons, putAll_cons, ih]
    by_cases hmem : key ∈ names
    · rw [if_pos hmem, if_pos (List.mem_cons_of_mem _ hmem)]
    · rw [if_neg hmem]
      by_cases hk : key = k
      · rw [hk, lookup_put_self, if_pos List.mem_cons_self]
      · rw [lookup_put_of_ne _ _ hk, if_neg]
        simp [hk, hmem]

theorem keys_putAll_get {fields : Fields} (others : Fields) {names : List String}
    (h : ∀ k ∈ names, k ∈ fields.keys) :
    (fields.putAll (names.map fun k => (k, get others k))).keys = fields.keys := by
  induction names generalizing fields with
  | nil => rfl
  | cons k names ih =>
    have hput := keys_put_of_mem (get others k) (h k (by simp))
    rw [List.map_cons, putAll_cons, ih, hput]
    intro l hl
    rw [hput]
    exact h l (by simp [hl])

/-- An object becomes another of the same keys once the keys are set in which they differ. -/
theorem putAll_get_eq {fields others : Fields} {names : List String}
    (hkeys : fields.keys = others.keys) (hnodup : fields.keys.Nodup)
    (hnames : ∀ k ∈ names, k ∈ fields.keys)
    (hrest : ∀ k ∈ fields.keys, k ∉ names → get fields k = get others k) :
    fields.putAll (names.map fun k => (k, get others k)) = others := by
  have hsame := keys_putAll_get others hnames
  refine eq_of_lookup_eq (hsame.trans hkeys) (hsame ▸ hnodup) fun key => ?_
  rw [lookup_putAll_get]
  by_cases hmem : key ∈ names
  · rw [if_pos hmem, lookup_eq_get_of_mem (hkeys ▸ hnames key hmem)]
  · rw [if_neg hmem]
    by_cases hkey : key ∈ fields.keys
    · rw [lookup_eq_get_of_mem hkey, lookup_eq_get_of_mem (hkeys ▸ hkey), hrest key hkey hmem]
    · rw [lookup_eq_none_of_notMem hkey, lookup_eq_none_of_notMem (hkeys ▸ hkey)]

/-- The id that a record has as a field. -/
def idText (record : Fields) : String :=
  match get record "id" with
  | .text s => s
  | _ => ""

theorem idText_of_lookup {record : Fields} {id : String}
    (h : record.lookup "id" = some (.text id)) : record.idText = id := by
  rw [idText, get, h]
  rfl

/-- The id of a record as a name. -/
def idName (record : Fields) : Name := (Name.ofValue? (get record "id")).getD (.text "")

theorem idName_of_lookup {record : Fields} {n : Name} (h : record.lookup "id" = some n.value) :
    record.idName = n := by
  rw [idName, get_of_lookup h, Name.ofValue?_eq_some_iff.2 rfl, Option.getD_some]

theorem required_eq_valid_iff {fields : Fields} {key : String} {read : Reader α} {a : α} :
    fields.required key read = .valid a ↔ ∃ v, fields.lookup key = some v ∧ read v = .valid a := by
  rw [required]
  cases fields.lookup key with
  | none => simp
  | some v => simp

theorem optional_eq_valid_iff {fields : Fields} {key : String} {default : α} {read : Reader α}
    {a : α} {v : Value} (h : fields.lookup key = some v) :
    fields.optional key default read = .valid a ↔ read v = .valid a := by
  rw [optional, h]
  simp

theorem optional_of_lookup_eq_none {fields : Fields} {key : String} {default : α} {read : Reader α}
    (h : fields.lookup key = none) : fields.optional key default read = .valid default := by
  rw [optional, h]

end Fields

namespace Reader

variable {α : Type}

theorem nullable_ofOption {read : Reader α} {write : α → Value}
    (hread : ∀ a, read (write a) = .valid a) (hnull : ∀ a, write a ≠ .null) (a : Option α) :
    nullable read (.ofOption write a) = .valid a := by
  cases a with
  | none => rfl
  | some a =>
    have hvalue : nullable read (write a) = (read (write a)).map some := by
      have hne := hnull a
      cases hwrite : write a with
      | null => exact absurd hwrite hne
      | _ => rfl
    rw [Value.ofOption, hvalue, hread]
    rfl

theorem itemsFrom_map {read : Reader α} {write : α → Value} (h : ∀ a, read (write a) = .valid a)
    (index : Nat) (as : List α) : itemsFrom read index (as.map write) = .valid as := by
  induction as generalizing index with
  | nil => rfl
  | cons a as ih =>
    rw [List.map_cons, itemsFrom, h, ih]
    rfl

theorem itemsFrom_strictText_eq_valid {index : Nat} {vs : List Value} {ts : List String}
    (h : itemsFrom strictText index vs = .valid ts) : vs = ts.map .text := by
  induction vs generalizing index ts with
  | nil =>
    cases h
    rfl
  | cons v vs ih =>
    rw [itemsFrom, Checked.map_eq, Checked.seq_eq, Checked.apply_eq_valid_iff] at h
    obtain ⟨g, us, hg, hus, rfl⟩ := h
    obtain ⟨t, ht, rfl⟩ := Checked.map_eq_valid_iff.1 hg
    rw [Checked.under_eq_valid_iff, strictText_eq_valid_iff] at ht
    rw [ht, ih hus, List.map_cons]

theorem listOf_texts (ts : List String) : listOf laxText (.texts ts) = .valid ts :=
  @itemsFrom_map String laxText .text (fun _ => rfl) 0 ts

theorem nullable_text (t : Option String) : nullable laxText (.ofOption .text t) = .valid t :=
  @nullable_ofOption String laxText .text (fun _ => rfl) (fun _ h => by cases h) t

end Reader

theorem Fields.eq_of_required_text {fields : Fields} {key s t : String}
    (h : fields.required key Reader.laxText = .valid s) (hkey : fields.lookup key = some (.text t)) :
    s = t := by
  obtain ⟨v, hv, hread⟩ := required_eq_valid_iff.1 h
  rw [hkey] at hv
  cases hv
  exact (Checked.valid.inj hread).symm

theorem Fields.eq_of_optionalTexts {fields : Fields} {key : String} {ss ts : List String}
    (h : fields.optionalTexts key = .valid ss) (hkey : fields.lookup key = some (.texts ts)) :
    ss = ts := by
  rw [optionalTexts, optional_eq_valid_iff hkey, Reader.listOf_texts] at h
  exact (Checked.valid.inj h).symm

theorem Scope.read_toDocument (s : Scope) : Scope.read s.toDocument = .valid s := by
  have hsize := Reader.nullable_text s.size
  have hduration := Reader.nullable_text s.duration
  have hexperience := Reader.nullable_text s.experience
  simp [Scope.read, Scope.toDocument, Reader.object, Scope.readFields, Fields.optionalText,
    Fields.optional, List.lookup_cons, hsize, hduration, hexperience, Checked.under, Checked.map,
    Checked.apply]

theorem Budget.read_toDocument (b : Budget) : Budget.read b.toDocument = .valid b := by
  simp [Budget.read, Budget.toDocument, Reader.object, Budget.readFields, Fields.required,
    List.lookup_cons, Reader.laxText, Reader.laxInt, Checked.under, Checked.map, Checked.apply]

theorem nullable_scope (s : Option Scope) :
    Reader.nullable Scope.read (.ofOption Scope.toDocument s) = .valid s :=
  Reader.nullable_ofOption Scope.read_toDocument (fun _ h => by cases h) s

theorem nullable_budget (b : Option Budget) :
    Reader.nullable Budget.read (.ofOption Budget.toDocument b) = .valid b :=
  Reader.nullable_ofOption Budget.read_toDocument (fun _ h => by cases h) b

namespace Project

@[simp] theorem keys_fields (p : Project) :
    Fields.keys p.fields = ["id", "owner", "title", "description", "skills", "scope", "budget",
      "is_published", "freelancers", "proposers"] := rfl

theorem nodup_keys (p : Project) : (Fields.keys p.fields).Nodup := by
  rw [p.keys_fields]
  decide

/-- A reading is valid where the reading of every field is. -/
theorem readFields_eq_valid_iff {fields : Fields} {p : Project} :
    readFields fields = .valid p ↔
      fields.required "id" Reader.laxText = .valid p.id ∧
      fields.required "owner" Reader.laxText = .valid p.owner ∧
      fields.optionalText "title" = .valid p.title ∧
      fields.optionalText "description" = .valid p.description ∧
      fields.optionalTexts "skills" = .valid p.skills ∧
      fields.optional "scope" none (Reader.nullable Scope.read) = .valid p.scope ∧
      fields.optional "budget" none (Reader.nullable Budget.read) = .valid p.budget ∧
      fields.optional "is_published" false Reader.laxBool = .valid p.isPublished ∧
      fields.optionalTexts "freelancers" = .valid p.freelancers ∧
      fields.optionalTexts "proposers" = .valid p.proposers := by
  obtain ⟨id, owner, title, description, skills, scope, budget, published, freelancers, proposers⟩ := p
  rw [readFields]
  simp only [Checked.map_eq, Checked.seq_eq, Checked.apply_eq_valid_iff, Checked.map_eq_valid_iff]
  constructor
  · rintro ⟨g9, _, ⟨g8, _, ⟨g7, _, ⟨g6, _, ⟨g5, _, ⟨g4, _, ⟨g3, _, ⟨g2, _, ⟨g1, _, ⟨_, h0, rfl⟩, h1, rfl⟩,
      h2, rfl⟩, h3, rfl⟩, h4, rfl⟩, h5, rfl⟩, h6, rfl⟩, h7, rfl⟩, h8, rfl⟩, h9, h⟩
    cases h
    exact ⟨h0, h1, h2, h3, h4, h5, h6, h7, h8, h9⟩
  · rintro ⟨h0, h1, h2, h3, h4, h5, h6, h7, h8, h9⟩
    exact ⟨_, _, ⟨_, _, ⟨_, _, ⟨_, _, ⟨_, _, ⟨_, _, ⟨_, _, ⟨_, _, ⟨_, _, ⟨_, h0, rfl⟩, h1, rfl⟩, h2, rfl⟩,
      h3, rfl⟩, h4, rfl⟩, h5, rfl⟩, h6, rfl⟩, h7, rfl⟩, h8, rfl⟩, h9, rfl⟩

/-- The document of a project is read as that project. -/
theorem read_toDocument (p : Project) : read p.toDocument = .valid p := by
  have hid : p.fields.required "id" Reader.laxText = .valid p.id := rfl
  have howner : p.fields.required "owner" Reader.laxText = .valid p.owner := rfl
  have hpublished : p.fields.optional "is_published" false Reader.laxBool = .valid p.isPublished := rfl
  refine readFields_eq_valid_iff.2 ⟨hid, howner, ?_, ?_, ?_, ?_, ?_, hpublished, ?_, ?_⟩
  · exact (Fields.optional_eq_valid_iff rfl).2 (Reader.nullable_text p.title)
  · exact (Fields.optional_eq_valid_iff rfl).2 (Reader.nullable_text p.description)
  · exact (Fields.optional_eq_valid_iff rfl).2 (Reader.listOf_texts p.skills)
  · exact (Fields.optional_eq_valid_iff rfl).2 (nullable_scope p.scope)
  · exact (Fields.optional_eq_valid_iff rfl).2 (nullable_budget p.budget)
  · exact (Fields.optional_eq_valid_iff rfl).2 (Reader.listOf_texts p.freelancers)
  · exact (Fields.optional_eq_valid_iff rfl).2 (Reader.listOf_texts p.proposers)

/-- A field that stands as a project writes it is read as that project has it. -/
theorem get_of_readFields {fields : Fields} {p r : Project} (hread : readFields fields = .valid p)
    {key : String} (hkey : key ∈ Fields.keys r.fields)
    (hsame : fields.lookup key = r.fields.lookup key) :
    Fields.get p.fields key = Fields.get r.fields key := by
  obtain ⟨hid, howner, htitle, hdescription, hskills, hscope, hbudget, hpublished, hfreelancers,
    hproposers⟩ := readFields_eq_valid_iff.1 hread
  simp only [keys_fields, List.mem_cons, List.not_mem_nil, or_false] at hkey
  rcases hkey with rfl | rfl | rfl | rfl | rfl | rfl | rfl | rfl | rfl | rfl
  · exact congrArg Value.text (Fields.eq_of_required_text hid hsame)
  · exact congrArg Value.text (Fields.eq_of_required_text howner hsame)
  · rw [Fields.optionalText, Fields.optional_eq_valid_iff hsame, Reader.nullable_text] at htitle
    exact congrArg (Value.ofOption .text) (Checked.valid.inj htitle).symm
  · rw [Fields.optionalText, Fields.optional_eq_valid_iff hsame, Reader.nullable_text] at hdescription
    exact congrArg (Value.ofOption .text) (Checked.valid.inj hdescription).symm
  · exact congrArg Value.texts (Fields.eq_of_optionalTexts hskills hsame)
  · rw [Fields.optional_eq_valid_iff hsame, nullable_scope] at hscope
    exact congrArg (Value.ofOption Scope.toDocument) (Checked.valid.inj hscope).symm
  · rw [Fields.optional_eq_valid_iff hsame, nullable_budget] at hbudget
    exact congrArg (Value.ofOption Budget.toDocument) (Checked.valid.inj hbudget).symm
  · rw [Fields.optional_eq_valid_iff hsame] at hpublished
    exact congrArg Value.bool (Checked.valid.inj hpublished).symm
  · exact congrArg Value.texts (Fields.eq_of_optionalTexts hfreelancers hsame)
  · exact congrArg Value.texts (Fields.eq_of_optionalTexts hproposers hsame)

/-- A project that is read from what it is added with. -/
theorem readFields_new {id : String} {actor title scope budget skills : Value} {p : Project}
    (h : readFields (Catalog.newProject id actor title scope budget skills) = .valid p) :
    p.id = id ∧ actor.Spells p.owner ∧ p.isPublished = false ∧ p.freelancers = [] ∧
      p.proposers = [] := by
  obtain ⟨hid, howner, -, -, -, -, -, hpublished, hfreelancers, hproposers⟩ :=
    readFields_eq_valid_iff.1 h
  obtain ⟨v, hv, hvalid⟩ := Fields.required_eq_valid_iff.1 hid
  obtain ⟨w, hw, howned⟩ := Fields.required_eq_valid_iff.1 howner
  cases hv
  cases hw
  rw [Fields.optional_eq_valid_iff rfl] at hpublished
  rw [Fields.optionalTexts, Fields.optional_of_lookup_eq_none rfl] at hfreelancers hproposers
  exact ⟨(Checked.valid.inj hvalid).symm, Reader.laxText_eq_valid_iff.1 howned,
    (Checked.valid.inj hpublished).symm, (Checked.valid.inj hfreelancers).symm,
    (Checked.valid.inj hproposers).symm⟩

end Project

namespace Proposal

theorem readFields_eq_valid_iff {fields : Fields} {r : Proposal} :
    readFields fields = .valid r ↔
      fields.required "id" Reader.laxText = .valid r.id ∧
      fields.required "project_id" Reader.laxText = .valid r.projectId ∧
      fields.optionalText "freelancer_id" = .valid r.freelancerId ∧
      fields.optionalText "cover_letter" = .valid r.coverLetter ∧
      fields.optional "budget" none (Reader.nullable Budget.read) = .valid r.budget ∧
      fields.optionalText "verdict" = .valid r.verdict := by
  obtain ⟨id, projectId, freelancerId, coverLetter, budget, verdict⟩ := r
  rw [readFields]
  simp only [Checked.map_eq, Checked.seq_eq, Checked.apply_eq_valid_iff, Checked.map_eq_valid_iff]
  constructor
  · rintro ⟨g5, _, ⟨g4, _, ⟨g3, _, ⟨g2, _, ⟨g1, _, ⟨_, h0, rfl⟩, h1, rfl⟩, h2, rfl⟩, h3, rfl⟩, h4, rfl⟩,
      h5, h⟩
    cases h
    exact ⟨h0, h1, h2, h3, h4, h5⟩
  · rintro ⟨h0, h1, h2, h3, h4, h5⟩
    exact ⟨_, _, ⟨_, _, ⟨_, _, ⟨_, _, ⟨_, _, ⟨_, h0, rfl⟩, h1, rfl⟩, h2, rfl⟩, h3, rfl⟩, h4, rfl⟩, h5, rfl⟩

theorem read_toDocument (r : Proposal) : read r.toDocument = .valid r := by
  have hid : r.fields.required "id" Reader.laxText = .valid r.id := rfl
  have hproject : r.fields.required "project_id" Reader.laxText = .valid r.projectId := rfl
  refine readFields_eq_valid_iff.2 ⟨hid, hproject, ?_, ?_, ?_, ?_⟩
  · exact (Fields.optional_eq_valid_iff rfl).2 (Reader.nullable_text r.freelancerId)
  · exact (Fields.optional_eq_valid_iff rfl).2 (Reader.nullable_text r.coverLetter)
  · exact (Fields.optional_eq_valid_iff rfl).2 (nullable_budget r.budget)
  · exact (Fields.optional_eq_valid_iff rfl).2 (Reader.nullable_text r.verdict)

/-- A proposal that is read from what it is made with, by someone. -/
theorem readFields_new {id : String} {project actor letter budget : Value} {r : Proposal}
    (h : readFields (Catalog.newProposal id actor project letter budget) = .valid r)
    (hactor : actor.truthy = true) :
    r.id = id ∧ project.Spells r.projectId ∧ (∃ s, actor.Spells s ∧ r.freelancerId = some s) ∧
      r.verdict = none := by
  obtain ⟨hid, hproject, hfreelancer, -, -, hverdict⟩ := readFields_eq_valid_iff.1 h
  obtain ⟨v, hv, hvalid⟩ := Fields.required_eq_valid_iff.1 hid
  obtain ⟨w, hw, hnamed⟩ := Fields.required_eq_valid_iff.1 hproject
  cases hv
  cases hw
  rw [Fields.optionalText, Fields.optional_eq_valid_iff rfl] at hfreelancer
  rw [Fields.optionalText, Fields.optional_of_lookup_eq_none rfl] at hverdict
  refine ⟨(Checked.valid.inj hvalid).symm, Reader.laxText_eq_valid_iff.1 hnamed, ?_,
    (Checked.valid.inj hverdict).symm⟩
  have hlax : Reader.nullable Reader.laxText actor = (Reader.laxText actor).map some := by
    cases actor with
    | null => cases hactor
    | _ => rfl
  rw [hlax, Checked.map_eq_valid_iff] at hfreelancer
  obtain ⟨s, hs, hsome⟩ := hfreelancer
  exact ⟨s, Reader.laxText_eq_valid_iff.1 hs, hsome.symm⟩

end Proposal

namespace User

theorem get_projects (u : User) : Fields.get u.fields "projects" = .texts u.projects := rfl

theorem get_proposals (u : User) : Fields.get u.fields "proposals" = .texts u.proposals := rfl

theorem read_toDocument (u : User) : read u.toDocument = .valid u := by
  have hid : u.fields.required "id" Reader.laxText = .valid u.id := rfl
  have hprojects : u.fields.optionalTexts "projects" = .valid u.projects :=
    (Fields.optional_eq_valid_iff rfl).2 (Reader.listOf_texts u.projects)
  have hproposals : u.fields.optionalTexts "proposals" = .valid u.proposals :=
    (Fields.optional_eq_valid_iff rfl).2 (Reader.listOf_texts u.proposals)
  simp [read, toDocument, Reader.object, readFields, hid, hprojects, hproposals, Checked.map,
    Checked.apply]

end User

end FreelanceBoard
