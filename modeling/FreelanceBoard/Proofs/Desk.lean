import FreelanceBoard.Proofs.CatalogRun
import FreelanceBoard.Proofs.Interleaving
import FreelanceBoard.Proofs.Moves
import FreelanceBoard.Proofs.PostingChanges

/-! What a store in memory holds, place by place, and what each call of the store does to it. -/
namespace FreelanceBoard

namespace Kind

def collection : Kind → String
  | project => Collection.projects
  | user => Collection.users
  | proposal => Collection.proposals

def key : (k : Kind) → k.Item → Name
  | project => Name.text ∘ Posting.id
  | user => Account.name
  | proposal => Name.text ∘ Proposal.id

def fields : (k : Kind) → k.Item → Fields
  | project => Posting.fields
  | user => Account.fields
  | proposal => Proposal.fields

def document (k : Kind) (a : k.Item) : Value := .object (k.fields a)

def plain : (k : Kind) → k.Item → k.Item
  | project => Posting.plain
  | user => id
  | proposal => id

variable {k l : Kind}

theorem collection_mem_known (k : Kind) : k.collection ∈ Collection.known := by
  cases k <;> decide

theorem exists_collection {name : String} (h : name ∈ Collection.known) :
    ∃ k : Kind, k.collection = name := by
  simp only [Collection.known, List.mem_cons, List.not_mem_nil, or_false] at h
  rcases h with rfl | rfl | rfl
  · exact ⟨project, rfl⟩
  · exact ⟨user, rfl⟩
  · exact ⟨proposal, rfl⟩

theorem lookup_id (a : k.Item) : (k.fields a).lookup "id" = some (k.key a).value := by
  cases k with
  | project => exact Posting.lookup_id a
  | user => rfl
  | proposal => rfl

theorem idName_fields (a : k.Item) : (k.fields a).idName = k.key a :=
  Fields.idName_of_lookup (lookup_id a)

@[simp] theorem fields_plain (a : k.Item) : k.fields (k.plain a) = k.fields a := by
  cases k <;> rfl

@[simp] theorem key_plain (a : k.Item) : k.key (k.plain a) = k.key a := by
  cases k <;> rfl

@[simp] theorem plain_plain (a : k.Item) : k.plain (k.plain a) = k.plain a := by
  cases k <;> rfl

end Kind

namespace Ledger

variable {L : Ledger} {k l : Kind}

def items (L : Ledger) : (k : Kind) → List k.Item
  | .project => L.postings
  | .user => L.users
  | .proposal => L.proposals

def storing (L : Ledger) : (k : Kind) → k.Item → Ledger
  | .project => L.withPosting
  | .user => L.withUser
  | .proposal => L.withProposal

def desk (L : Ledger) : Desk := fun x =>
  (Keyed.find? x.kind.key x.id (L.items x.kind)).map x.kind.plain

/-- No two items of one kind have the same id. -/
def Distinct (L : Ledger) : Prop := ∀ k, ((L.items k).map k.key).Nodup

theorem contents_collection (L : Ledger) (k : Kind) :
    L.contents k.collection = (L.items k).map k.fields := by
  cases k <;> rfl

theorem contents_storing (L : Ledger) (k : Kind) (a : k.Item) :
    (L.storing k a).contents = Function.update L.contents k.collection
      (Keyed.put Fields.idName (k.fields a) (L.contents k.collection)) := by
  cases k with
  | project => exact L.contents_withPosting a
  | user => exact L.contents_withUser a
  | proposal => exact L.contents_withProposal a

theorem items_storing_self (L : Ledger) (k : Kind) (a : k.Item) :
    (L.storing k a).items k = Keyed.put k.key a (L.items k) := by
  cases k with
  | project => exact (Keyed.put_comp Name.text_injective a L.postings).symm
  | user => rfl
  | proposal => exact (Keyed.put_comp Name.text_injective a L.proposals).symm

theorem items_storing_of_ne (L : Ledger) (a : k.Item) (h : l ≠ k) :
    (L.storing k a).items l = L.items l := by
  cases k <;> cases l <;> first | rfl | exact absurd rfl h

theorem find?_contents (L : Ledger) (k : Kind) (id : Name) :
    Keyed.find? Fields.idName id (L.contents k.collection) = (L.desk ⟨k, id⟩).map k.fields := by
  have hfields : k.fields ∘ k.plain = k.fields := funext Kind.fields_plain
  rw [contents_collection, desk, Option.map_map, hfields]
  exact Keyed.find?_map Function.injective_id (fun _ _ => Kind.idName_fields _) id

theorem desk_storing (L : Ledger) (k : Kind) (a : k.Item) :
    (L.storing k a).desk = Function.update L.desk ⟨k, k.key a⟩ (some (k.plain a)) := by
  funext ⟨l, id⟩
  by_cases hkind : l = k
  · subst hkind
    by_cases hid : id = l.key a
    · subst hid
      rw [Function.update_self, desk, items_storing_self, Keyed.find?_put_self]
      rfl
    · rw [Function.update_of_ne fun e => hid (congrArg Place.id e), desk, desk, items_storing_self,
        Keyed.find?_put_of_ne fun e => hid e.symm]
  · rw [Function.update_of_ne fun e => hkind (congrArg Place.kind e), desk, desk,
      L.items_storing_of_ne a hkind]

theorem Distinct.storing (h : L.Distinct) (k : Kind) (a : k.Item) : (L.storing k a).Distinct := by
  intro l
  by_cases hl : l = k
  · subst hl
    rw [items_storing_self]
    exact Keyed.nodup_put a (h l)
  · rw [L.items_storing_of_ne a hl]
    exact h l

theorem items_withoutPosting (L : Ledger) (id : String) :
    (L.withoutPosting id).items .project = Keyed.erase (Kind.key .project) (.text id) L.postings :=
  (Keyed.erase_comp Name.text_injective id L.postings).symm

theorem desk_withoutPosting (L : Ledger) (id : String) :
    (L.withoutPosting id).desk = Function.update L.desk ⟨.project, .text id⟩ none := by
  funext ⟨l, other⟩
  cases l with
  | project =>
    rw [desk, items_withoutPosting]
    by_cases hid : other = .text id
    · subst hid
      rw [Function.update_self]
      exact congrArg (Option.map _) (Keyed.find?_erase_self _ L.postings)
    · rw [Function.update_of_ne fun e => hid (congrArg Place.id e)]
      exact congrArg (Option.map _) (Keyed.find?_erase_of_ne (fun e => hid e.symm) L.postings)
  | user => rw [Function.update_of_ne fun e => by cases congrArg Place.kind e]; rfl
  | proposal => rw [Function.update_of_ne fun e => by cases congrArg Place.kind e]; rfl

theorem Distinct.withoutPosting (h : L.Distinct) (id : String) : (L.withoutPosting id).Distinct := by
  intro l
  cases l with
  | project =>
    rw [items_withoutPosting]
    exact Keyed.nodup_erase (h .project) _
  | user => exact h .user
  | proposal => exact h .proposal

end Ledger

namespace Memory

/-- The collections of a store hold each item once, and a desk has what is stored at each place. -/
def Shows (m : Memory) (D : Desk) : Prop :=
  ∃ L : Ledger, m.Holds L.contents ∧ L.Distinct ∧ L.desk = D

namespace Shows

variable {m m' : Memory} {D : Desk} {k : Kind} {id : Name}

theorem plain_eq (h : m.Shows D) {a : k.Item} (ha : D ⟨k, id⟩ = some a) :
    k.plain a = a ∧ k.key a = id := by
  obtain ⟨L, -, -, rfl⟩ := h
  obtain ⟨b, hb, rfl⟩ := Option.map_eq_some_iff.1 ha
  exact ⟨Kind.plain_plain b, (Kind.key_plain b).trans (Keyed.key_of_find? hb)⟩

theorem record? (h : m.Shows D) (k : Kind) (id : Name) :
    m.record? k.collection id.value = (D ⟨k, id⟩).map k.fields := by
  obtain ⟨L, hholds, -, rfl⟩ := h
  rw [Memory.record?, (hholds _ k.collection_mem_known).1, Entries.slotOf?_value, Option.map_map,
    ← L.find?_contents]
  exact Option.map_id'

theorem listAt (h : m.Shows D) (k : Kind) (id : Name) (field : String) :
    m.listAt k.collection id.value field =
      ((D ⟨k, id⟩).map fun a => Fields.get (k.fields a) field).getD (.list []) := by
  rw [Memory.listAt, h.record?]
  cases D ⟨k, id⟩ <;> rfl

theorem findById (h : m.Shows D) (k : Kind) (id : Name) :
    handle (.findById k.collection id.value) m = (.ok ((D ⟨k, id⟩).map k.document), m) := by
  obtain ⟨L, hholds, -, rfl⟩ := h
  rw [handle, hholds.lookup k.collection_mem_known, lookupIn_value, L.find?_contents, Option.map_map]
  rfl

/-- Only under a name is anything found. -/
theorem findById_of_ne_value (h : m.Shows D) (k : Kind) {v : Value} (hv : ∀ n : Name, v ≠ n.value)
    {r : Option Value} (hcall : handle (.findById k.collection v) m = (.ok r, m')) : r = none := by
  obtain ⟨L, hholds, -, rfl⟩ := h
  rw [handle, hholds.lookup k.collection_mem_known, lookupIn_of_ne_value _ hv] at hcall
  have hreply := congrArg Prod.fst hcall
  split at hreply
  · exact (Except.ok.inj hreply).symm
  · cases hreply

theorem insert (h : m.Shows D) (k : Kind) (a : k.Item) :
    ∃ t, handle (.insert k.collection (k.fields a)) m = (.ok (k.document a), t) ∧
      t.Shows (Function.update D ⟨k, k.key a⟩ (some (k.plain a))) := by
  obtain ⟨L, hholds, hdistinct, rfl⟩ := h
  have hid : (k.fields a).lookup "id" = some (k.fields a).idName.value := by
    rw [Kind.idName_fields]
    exact Kind.lookup_id a
  obtain ⟨t, ht, hcall⟩ := serves.insert hholds k.collection_mem_known hid trivial
  rw [← L.contents_storing] at ht
  exact ⟨t, hcall, L.storing k a, ht, hdistinct.storing k a, L.desk_storing k a⟩

theorem update (h : m.Shows D) {a b : k.Item} {changes : Fields} (ha : D ⟨k, id⟩ = some a)
    (hput : (k.fields a).putAll changes = k.fields b) (hid : k.key b = id) :
    ∃ t, handle (.update k.collection id.value changes) m = (.ok (some (k.document b)), t) ∧
      t.Shows (Function.update D ⟨k, id⟩ (some (k.plain b))) := by
  obtain ⟨L, hholds, hdistinct, rfl⟩ := h
  subst hid
  have hfind : Keyed.find? Fields.idName (k.key b) (L.contents k.collection) = some (k.fields a) := by
    rw [L.find?_contents, ha]
    rfl
  obtain ⟨t, ht, hcall⟩ := hholds.update k.collection_mem_known hfind hput (Kind.lookup_id b)
  rw [← L.contents_storing] at ht
  exact ⟨t, hcall, L.storing k b, ht, hdistinct.storing k b, L.desk_storing k b⟩

theorem update_missing (h : m.Shows D) {changes : Fields} (hnone : D ⟨k, id⟩ = none) :
    ∃ t, handle (.update k.collection id.value changes) m = (.ok none, t) ∧ t.Shows D := by
  obtain ⟨L, hholds, hdistinct, rfl⟩ := h
  have hfind : Keyed.find? Fields.idName id (L.contents k.collection) = none := by
    rw [L.find?_contents, hnone]
    rfl
  obtain ⟨t, ht, hcall⟩ := serves.updateMissing hholds k.collection_mem_known trivial hfind
  exact ⟨t, hcall, L, ht, hdistinct, rfl⟩

theorem delete (h : m.Shows D) (id : String) {r : Bool}
    (hcall : handle (.delete Collection.projects (.text id)) m = (.ok r, m')) :
    m'.Shows (Function.update D ⟨.project, .text id⟩ none) := by
  obtain ⟨L, hholds, hdistinct, rfl⟩ := h
  cases hq : L.posting? id with
  | some q =>
    obtain ⟨t, ht, hdelete⟩ :=
      serves.delete hholds Gives.projects_mem_known trivial (Gives.find?_posting hq)
    obtain rfl : t = m' := congrArg Prod.snd (hdelete.symm.trans hcall)
    rw [← L.contents_withoutPosting] at ht
    exact ⟨L.withoutPosting id, ht, hdistinct.withoutPosting id, L.desk_withoutPosting id⟩
  | none =>
    have hfind : Keyed.find? Fields.idName (.text id) (L.contents Collection.projects) = none := by
      rw [Gives.find?_postings, hq]
      rfl
    have hnone : L.desk ⟨.project, .text id⟩ = none :=
      Option.map_eq_none_iff.1 ((L.find?_contents .project (.text id)).symm.trans hfind)
    have hlookup := hholds.lookup_value Gives.projects_mem_known (.text id)
    rw [hfind, Name.value] at hlookup
    have hsame : m' = m := by
      rw [handle, Memory.delete, hlookup] at hcall
      split at hcall <;> exact (congrArg Prod.snd hcall).symm
    rw [← hnone, Function.update_eq_self, hsame]
    exact ⟨L, hholds, hdistinct, rfl⟩

/-- A desk has all that there is to know of the records. -/
theorem sameRecords (h : m.Shows D) (h' : m'.Shows D) : m.SameRecords m' := by
  obtain ⟨L, hholds, hdistinct, hdesk⟩ := h
  obtain ⟨L', hholds', hdistinct', rfl⟩ := h'
  intro name hname
  obtain ⟨k, rfl⟩ := Kind.exists_collection hname
  have hkeys : ∀ M : Ledger, M.Distinct → ((M.contents k.collection).map Fields.idName).Nodup := by
    intro M hM
    rw [M.contents_collection, List.map_map]
    have hcomp : Fields.idName ∘ k.fields = k.key := funext Kind.idName_fields
    rw [hcomp]
    exact hM k
  rw [hholds.contents hname, hholds'.contents hname]
  refine (Keyed.perm_of_find?_eq (hkeys L hdistinct) (hkeys L' hdistinct') fun id => ?_).map _
  rw [L.find?_contents, L'.find?_contents, hdesk]

end Shows

/-- The collections of a store hold projects, users and proposals, no two of one kind under the same
id, and no project is listed twice by its user. -/
def Consistent (m : Memory) : Prop :=
  ∃ L : Ledger, m.Holds L.contents ∧ L.Distinct ∧ ∀ u ∈ L.users, u.projects.Nodup

end Memory

end FreelanceBoard
