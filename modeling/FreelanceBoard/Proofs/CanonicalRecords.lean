import FreelanceBoard.Proofs.Deeds

/-! What the catalog has stored is in canonical form: it is read as a document, and the document that
is written again is the one that was read. So a change of a project fails for no other reason than
the changes themselves. -/
namespace FreelanceBoard

namespace Checked

variable {α β : Type} {keys : List String}

/-- Every issue was found under one of the given keys. -/
def IssuesUnder (keys : List String) (c : Checked α) : Prop :=
  ∀ issue ∈ c.issues, ∃ key ∈ keys, ∃ rest, issue.place = key :: rest

theorem issuesUnder_valid (keys : List String) (a : α) : (valid a).IssuesUnder keys := by
  intro issue hissue
  cases hissue

theorem issuesUnder_under {key : String} (hkey : key ∈ keys) (c : Checked α) :
    (c.under key).IssuesUnder keys := by
  cases c with
  | valid a => exact issuesUnder_valid keys a
  | invalid issues =>
    intro issue hissue
    obtain ⟨inner, -, rfl⟩ := List.mem_map.1 hissue
    exact ⟨key, hkey, inner.place, rfl⟩

theorem IssuesUnder.map {c : Checked α} (h : c.IssuesUnder keys) (f : α → β) :
    (c.map f).IssuesUnder keys := by
  cases c with
  | valid a => exact issuesUnder_valid keys (f a)
  | invalid issues => exact h

theorem IssuesUnder.apply {f : Checked (α → β)} {c : Checked α} (hf : f.IssuesUnder keys)
    (hc : c.IssuesUnder keys) : (f.apply c).IssuesUnder keys := by
  cases f with
  | valid g =>
    cases c with
    | valid a => exact issuesUnder_valid keys (g a)
    | invalid issues => exact hc
  | invalid issues =>
    cases c with
    | valid a => exact hf
    | invalid others =>
      intro issue hissue
      rcases List.mem_append.1 hissue with hissue | hissue
      · exact hf issue hissue
      · exact hc issue hissue

end Checked

namespace Fields

open Checked

variable {α : Type} {fields changed : Fields} {key : String} {read : Reader α} {a : α}

/-- A field that could be read has issues only if it is changed. -/
theorem issuesUnder_required (h : fields.required key read = .valid a) :
    ((fields.putAll changed).required key read).IssuesUnder changed.keys := by
  by_cases hkey : key ∈ changed.keys
  · rw [required]
    cases (fields.putAll changed).lookup key with
    | some v => exact issuesUnder_under hkey (read v)
    | none =>
      intro issue hissue
      rw [List.mem_singleton.1 hissue]
      exact ⟨key, hkey, [], rfl⟩
  · -- a key that is not changed has the value that could be read before
    have hsame : (fields.putAll changed).required key read = .valid a := by
      rw [required, lookup_putAll_of_notMem hkey, ← required, h]
    rw [hsame]
    exact issuesUnder_valid _ a

theorem issuesUnder_optional {default : α} (h : fields.optional key default read = .valid a) :
    ((fields.putAll changed).optional key default read).IssuesUnder changed.keys := by
  by_cases hkey : key ∈ changed.keys
  · rw [optional]
    cases (fields.putAll changed).lookup key with
    | some v => exact issuesUnder_under hkey (read v)
    | none => exact issuesUnder_valid _ default
  · have hsame : (fields.putAll changed).optional key default read = .valid a := by
      rw [optional, lookup_putAll_of_notMem hkey, ← optional, h]
    rw [hsame]
    exact issuesUnder_valid _ a

end Fields

/-- A changed project that cannot be read has all its issues where it was changed. -/
theorem Project.issuesUnder_readFields (p : Project) (changed : Fields) :
    (readFields (p.fields.putAll changed)).IssuesUnder changed.keys := by
  obtain ⟨hid, howner, htitle, hdescription, hskills, hscope, hbudget, hpublished, hfreelancers,
    hproposers⟩ := readFields_eq_valid_iff.1 p.read_toDocument
  rw [readFields]
  simp only [Checked.map_eq, Checked.seq_eq]
  refine .apply (.apply (.apply (.apply (.apply (.apply (.apply (.apply (.apply (.map ?_ _) ?_) ?_) ?_) ?_)
    ?_) ?_) ?_) ?_) ?_
  · exact Fields.issuesUnder_required hid
  · exact Fields.issuesUnder_required howner
  · exact Fields.issuesUnder_optional htitle
  · exact Fields.issuesUnder_optional hdescription
  · exact Fields.issuesUnder_optional hskills
  · exact Fields.issuesUnder_optional hscope
  · exact Fields.issuesUnder_optional hbudget
  · exact Fields.issuesUnder_optional hpublished
  · exact Fields.issuesUnder_optional hfreelancers
  · exact Fields.issuesUnder_optional hproposers

namespace Posting

/-- Those who have made proposals for a project and those who have been hired for it are listed as
texts. -/
structure ListsTexts (q : Posting) : Prop where
  proposed : ∃ texts : List String, q.proposed = texts.map .text
  hired : ∃ texts : List String, q.hired = texts.map .text

variable {q : Posting}

theorem ListsTexts.exists_project (h : q.ListsTexts) : ∃ p : Project, q.toDocument = p.toDocument := by
  obtain ⟨⟨proposers, hproposed⟩, ⟨freelancers, hhired⟩⟩ := h
  refine ⟨{ q.project with freelancers, proposers }, ?_⟩
  rw [toDocument, fields, hhired, hproposed, List.map_map]
  rfl

theorem ListsTexts.withProposer (h : q.ListsTexts) (s : String) :
    (q.withProposer (.text s)).ListsTexts := by
  obtain ⟨⟨proposers, hproposed⟩, hhired⟩ := h
  rw [Posting.withProposer]
  split
  · exact ⟨⟨proposers, hproposed⟩, hhired⟩
  · refine ⟨⟨proposers ++ [s], ?_⟩, hhired⟩
    simp [hproposed]

theorem ListsTexts.hiring (h : q.ListsTexts) (s : String) : (q.hiring (.text s)).ListsTexts := by
  obtain ⟨hproposed, ⟨freelancers, hhired⟩⟩ := h
  rw [Posting.hiring]
  split
  · exact ⟨hproposed, freelancers, hhired⟩
  · refine ⟨hproposed, freelancers ++ [s], ?_⟩
    simp [hhired]

end Posting

/-- Freelancers are hired by name, and nothing is added for fixed octets, which are read as a text but
listed as they are. -/
def Operation.KeepsTexts : Operation → Prop
  | .addProject actor _ _ _ _ => ∀ octets, actor ≠ .bytes true octets
  | .addProposal actor _ _ _ => ∀ octets, actor ≠ .bytes true octets
  | .hireFreelancer _ _ freelancer => freelancer.IsText
  | _ => True

namespace Ledger

/-- No record has anything but a text for a name. -/
structure ListsTexts (L : Ledger) : Prop where
  postings : ∀ q ∈ L.postings, q.ListsTexts
  users : ∀ u ∈ L.users, ∃ s, u.name = .text s

namespace ListsTexts

variable {L : Ledger} {q : Posting}

theorem of_posting? (h : L.ListsTexts) {id : String} (hq : L.posting? id = some q) : q.ListsTexts :=
  h.postings q (Keyed.mem_of_find? hq)

theorem withPosting (h : L.ListsTexts) (hq : q.ListsTexts) : (L.withPosting q).ListsTexts := by
  refine ⟨fun other hother => ?_, h.users⟩
  rcases Keyed.mem_of_mem_put hother with rfl | hother
  · exact hq
  · exact h.postings other hother

theorem withUser (h : L.ListsTexts) {u : Account} {s : String} (hu : u.name = .text s) :
    (L.withUser u).ListsTexts := by
  refine ⟨h.postings, fun other hother => ?_⟩
  rcases Keyed.mem_of_mem_put hother with rfl | hother
  · exact ⟨s, hu⟩
  · exact h.users other hother

theorem withProposal (h : L.ListsTexts) (r : Proposal) : (L.withProposal r).ListsTexts :=
  ⟨h.postings, h.users⟩

theorem withoutPosting (h : L.ListsTexts) (id : String) : (L.withoutPosting id).ListsTexts :=
  ⟨fun q hq => h.postings q (List.mem_of_mem_filter hq), h.users⟩

theorem listing (h : L.ListsTexts) (s id : String) : (L.listing (.text s) id).ListsTexts :=
  h.withUser (L.name_user (.text s))

theorem listingProposal (h : L.ListsTexts) (s id : String) :
    (L.listingProposal (.text s) id).ListsTexts := h.withUser (L.name_user (.text s))

theorem unlisting (h : L.ListsTexts) (s id : String) : (L.unlisting (.text s) id).ListsTexts := by
  rw [Ledger.unlisting]
  split
  · exact h.withUser (L.name_user (.text s))
  · exact h

/-- The lists of names stay texts if those who are added are. -/
theorem of_effect {ids : Nat → String} {o : Operation} {a b : Ledger × Nat}
    (ho : o.KeepsTexts) (heffect : Effect ids o a b) (h : a.1.ListsTexts) : b.1.ListsTexts := by
  cases heffect with
  | nothing _ => exact h
  | @projectAdded L n actor title scope budget skills p =>
    rw [Name.eq_text_of_forall_ne ho]
    exact (h.withPosting ⟨⟨[], rfl⟩, [], rfl⟩).listing _ _
  | projectUnlisted hkey howner hid => exact h.withPosting ⟨⟨[], rfl⟩, [], rfl⟩
  | @proposalAdded L n letter budget actor q r hactor hq =>
    rw [Name.eq_text_of_forall_ne ho]
    exact ((h.withProposal r).listingProposal _ _).withPosting ((h.of_posting? hq).withProposer _)
  | proposalUnlisted hkey hactor hid => exact h.withProposal _
  | projectChanged hactor hq hrevised hnames =>
    obtain ⟨hproposed, hhired⟩ := h.of_posting? hq
    exact h.withPosting ⟨hproposed, hhired⟩
  | projectDeleted hactor hq => exact (h.unlisting _ _).withoutPosting _
  | freelancerHired hq hr =>
    obtain ⟨s, rfl⟩ := ho
    exact (h.withProposal _).withPosting ((h.of_posting? hq).hiring s)

end ListsTexts

end Ledger

open Collection in
/-- Where the projects are documents, a refused change has its issues at the keys that it changes. -/
theorem Deed.issuesUnder {ids : Nat → String} {s t : Memory × Nat} {actor id changes i : Value}
    {issues : List Issue} (hprojects : ∀ r ∈ s.1.contents projects, ∃ p : Project, p.toDocument = r)
    (h : Deed ids (.updateProject actor id changes) s (.error (.projectInvalid i issues)) t) :
    ∃ changed, changes = .object changed ∧
      ∀ issue ∈ issues, ∃ key ∈ Fields.keys changed, ∃ rest, issue.place = key :: rest := by
  cases h with
  | refused hissued he => exact absurd rfl (he i issues)
  | read h => cases h
  | @changesInvalid m n actor id record changed issues hactor hproject howner hnames hread =>
    obtain ⟨e, hslot, rfl⟩ := Memory.slotOf?_of_record? hproject
    have hmem : Value.object e.record ∈ m.contents projects :=
      List.mem_map_of_mem (Entries.mem_of_slotOf? hslot)
    obtain ⟨p, hp⟩ := hprojects _ hmem
    have hfields : p.fields = e.record := Value.object.inj hp
    have hunder := p.issuesUnder_readFields changed
    rw [hfields, hread] at hunder
    exact ⟨changed, rfl, hunder⟩

namespace Memory.Holds

open Collection

variable {m : Memory} {L : Ledger}

theorem project_of_mem (h : m.Holds L.contents) (htexts : L.ListsTexts) {r : Value}
    (hr : r ∈ m.contents projects) : ∃ p : Project, p.toDocument = r := by
  rw [h.contents Gives.projects_mem_known, Ledger.contents_projects, List.map_map] at hr
  obtain ⟨q, hq, rfl⟩ := List.mem_map.1 hr
  obtain ⟨p, hp⟩ := (htexts.postings q hq).exists_project
  exact ⟨p, hp.symm⟩

theorem proposal_of_mem (h : m.Holds L.contents) {r : Value} (hr : r ∈ m.contents proposals) :
    ∃ p : Proposal, p.toDocument = r := by
  rw [h.contents Gives.proposals_mem_known, Ledger.contents_proposals, List.map_map] at hr
  obtain ⟨p, -, rfl⟩ := List.mem_map.1 hr
  exact ⟨p, rfl⟩

theorem user_of_mem (h : m.Holds L.contents) (htexts : L.ListsTexts) {r : Value}
    (hr : r ∈ m.contents users) : ∃ u : User, u.toDocument = r := by
  rw [h.contents Gives.users_mem_known, Ledger.contents_users, List.map_map] at hr
  obtain ⟨⟨name, projects, proposals⟩, hu, rfl⟩ := List.mem_map.1 hr
  obtain ⟨id, rfl⟩ := htexts.users _ hu
  exact ⟨⟨id, projects, proposals⟩, rfl⟩

end Memory.Holds

end FreelanceBoard
