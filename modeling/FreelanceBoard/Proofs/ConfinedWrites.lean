import FreelanceBoard.Proofs.FailedCalls

/-! What the operations of the catalog change in a store in memory. An operation that succeeds makes a
few edits, all of them known from the store as it was before: a record added at the end of a
collection, fields set in the place of one record, or one record dropped. Nothing else changes. -/
namespace FreelanceBoard

inductive Edit where
  | add (name : String) (key : Value) (record : Fields)
  | set (name : String) (key : Value) (changes : Fields)
  | drop (name : String) (key : Value)

namespace Edit

def name : Edit → String
  | .add name _ _ => name
  | .set name _ _ => name
  | .drop name _ => name

def key : Edit → Value
  | .add _ key _ => key
  | .set _ key _ => key
  | .drop _ key => key

/-- The table with the change made; where there is a record already none is added. -/
def apply (t : Table) : Edit → Table
  | .add _ key record => match t.entries.slotOf? key with
    | none => t.put key record
    | some _ => t
  | .set _ key changes =>
    t.mapRecords fun e => if e.key.same key then e.record.putAll changes else e.record
  | .drop _ key => t.erase key

/-- The edit is of the record that a collection has under a key. -/
def Touches (edit : Edit) (name : String) (key : Value) : Prop :=
  -- a value need not be the same as itself, so a key that is added is asked for apart
  edit.name = name ∧ (key = edit.key ∨ key.same edit.key = true)

theorem entries_apply_add (t : Table) (name : String) (key : Value) (record : Fields) :
    ∃ new : Entries, (apply t (.add name key record)).entries = t.entries ++ new ∧
      ∀ e ∈ new, e = ⟨key, record⟩ := by
  rw [apply]
  cases hslot : t.entries.slotOf? key with
  | some e => exact ⟨[], (List.append_nil _).symm, List.forall_mem_nil _⟩
  | none =>
    by_cases hkey : key.isKey = true
    · exact ⟨[⟨key, record⟩], Entries.put_of_slotOf?_eq_none hkey record hslot, by simp⟩
    · refine ⟨[], ?_, List.forall_mem_nil _⟩
      rw [List.append_nil]
      exact Entries.put_of_not_isKey hkey record hslot

theorem mem_apply_iff {edit : Edit} {t : Table} {e : Entry} (h : ¬ edit.Touches edit.name e.key) :
    e ∈ (edit.apply t).entries ↔ e ∈ t.entries := by
  have hne : e.key ≠ edit.key := fun heq => h ⟨rfl, .inl heq⟩
  have hsame : e.key.same edit.key = false := by
    rw [← Bool.not_eq_true]
    exact fun heq => h ⟨rfl, .inr heq⟩
  cases edit with
  | add name key record =>
    obtain ⟨new, happly, hnew⟩ := entries_apply_add t name key record
    have hother : e ∉ new := fun he => hne (by rw [hnew e he]; rfl)
    rw [happly, List.mem_append, or_iff_left hother]
  | set name key changes =>
    rw [apply, Table.mapRecords, List.mem_map]
    constructor
    · rintro ⟨f, hf, rfl⟩
      have hfkey : ¬ f.key.same key = true := by simpa [Edit.key] using hsame
      rwa [if_neg hfkey]
    · intro he
      have hekey : ¬ e.key.same key = true := by simpa [Edit.key] using hsame
      exact ⟨e, he, by rw [if_neg hekey]⟩
  | drop name key =>
    have hkept : (!e.key.same key) = true := by simpa [Edit.key] using hsame
    simp [apply, Table.erase, Entries.erase, List.mem_filter, hkept]

/-- The edit leaves the record without the value that it had in a field. -/
def Replaces (edit : Edit) (field : String) : Prop :=
  match edit with
  | .add _ _ _ => False
  | .set _ _ changes => field ∈ Fields.keys changes
  | .drop _ _ => True

theorem exists_mem_apply {edit : Edit} {t : Table} {e : Entry} {field : String}
    (he : e ∈ t.entries) (h : edit.Touches edit.name e.key → ¬ edit.Replaces field) :
    ∃ f ∈ (edit.apply t).entries, f.key = e.key ∧ f.record.lookup field = e.record.lookup field := by
  cases edit with
  | add name key record =>
    obtain ⟨new, happly, -⟩ := entries_apply_add t name key record
    rw [happly]
    exact ⟨e, List.mem_append_left _ he, rfl, rfl⟩
  | set name key changes =>
    refine ⟨_, List.mem_map_of_mem he, rfl, ?_⟩
    dsimp only
    by_cases hkey : e.key.same key = true
    · rw [if_pos hkey]
      exact Fields.lookup_putAll_of_notMem (h ⟨rfl, .inr hkey⟩)
    · rw [if_neg hkey]
  | drop name key =>
    have hkey : ¬ e.key.same key = true := fun hsame => h ⟨rfl, .inr hsame⟩ trivial
    exact ⟨e, List.mem_filter.2 ⟨he, by simpa using hkey⟩, rfl, rfl⟩

def IsDrop : Edit → Prop
  | .drop _ _ => True
  | _ => False

theorem sublist_keys_apply {edit : Edit} {t : Table} {keys : List Value}
    (hkeys : keys.Sublist (t.entries.map Entry.key))
    (h : ∀ key ∈ keys, edit.Touches edit.name key → ¬ edit.IsDrop) :
    keys.Sublist ((edit.apply t).entries.map Entry.key) := by
  cases edit with
  | add name key record =>
    obtain ⟨new, happly, -⟩ := entries_apply_add t name key record
    rw [happly, List.map_append]
    exact hkeys.trans (List.sublist_append_left _ _)
  | set name key changes => rwa [apply, Table.mapRecords, List.map_map]
  | drop name key =>
    have hkept : keys.filter (fun k => !k.same key) = keys := by
      refine List.filter_eq_self.2 fun k hk => ?_
      have hne : ¬ k.same key = true := fun hsame => h k hk ⟨rfl, .inr hsame⟩ trivial
      simpa using hne
    have hleft := hkeys.filter fun k => !k.same key
    rwa [hkept, List.filter_map] at hleft

end Edit

namespace Entries

variable {es : Entries} {key : Value} {e : Entry}

theorem slotOf?_put {r : Fields}
    (h : es.slotOf? key = none → key.isKey = true ∧ key.same key = true) :
    ((es.put key r).slotOf? key).map Entry.record = some r := by
  induction es with
  | nil =>
    obtain ⟨hkey, hself⟩ := h rfl
    rw [put_nil, if_pos hkey, slotOf?_cons_of_same hself]
    rfl
  | cons a rest ih =>
    rw [put]
    by_cases ha : a.key.same key = true
    · rw [if_pos ha, slotOf?_cons_of_same (e := ⟨a.key, r⟩) ha]
      rfl
    · rw [slotOf?_cons_of_not_same ha] at h
      rw [if_neg ha, slotOf?_cons_of_not_same ha]
      exact ih h

theorem put_eq_map (h : es.DistinctKeys) (hslot : es.slotOf? key = some e) (changes : Fields) :
    es.put key (e.record.putAll changes) =
      es.map fun f => ⟨f.key, if f.key.same key then f.record.putAll changes else f.record⟩ := by
  induction es with
  | nil => cases hslot
  | cons a rest ih =>
    rw [put, List.map_cons]
    by_cases ha : a.key.same key = true
    · rw [slotOf?_cons_of_same ha] at hslot
      cases hslot
      have hrest : (rest.map fun f : Entry =>
          (⟨f.key, if f.key.same key then f.record.putAll changes else f.record⟩ : Entry)) =
            rest.map id :=
        List.map_congr_left fun f hf => by rw [if_neg (h.not_same ha hf), id]
      rw [if_pos ha, if_pos ha, hrest, List.map_id]
    · rw [slotOf?_cons_of_not_same ha] at hslot
      rw [if_neg ha, if_neg ha, ih h.tail hslot]

end Entries

def Fields.items (r : Fields) (field : String) : List Value :=
  match Fields.get r field with
  | .list items => items
  | _ => []

theorem Fields.items_of_itemsOf {r : Fields} {field : String} {items : List Value}
    (h : (Fields.get r field).ListOrNull)
    (hitems : Catalog.itemsOf (.object r) field = .ok items) : r.items field = items := by
  have hfield : Catalog.itemsOf (.object r) field = (Fields.get r field).elementsOrNone := rfl
  rw [hfield] at hitems
  rw [Fields.items]
  obtain hnull | ⟨vs, hlist⟩ := h
  · rw [hnull] at hitems ⊢
    cases hitems
    rfl
  · rw [hlist] at hitems ⊢
    cases vs <;> cases hitems <;> rfl

namespace Memory

open Collection

variable {m : Memory} {name : String} {key : Value} {r : Fields}

def edit (m : Memory) (e : Edit) : Memory := m.setTable e.name (e.apply (m.table e.name))

def editAll (m : Memory) (edits : List Edit) : Memory := edits.foldl edit m

theorem entries_edit_of_ne {edit : Edit} {other : String} (h : name ≠ other) (hedit : edit.name = other) :
    (m.edit edit).entries name = m.entries name := entries_setTable_of_ne m _ (hedit ▸ h)

theorem entries_edit_cases (m : Memory) (edit : Edit) (name : String) :
    (name = edit.name ∧ (m.edit edit).entries name = (edit.apply (m.table name)).entries) ∨
      (m.edit edit).entries name = m.entries name := by
  by_cases hname : name = edit.name
  · subst hname
    exact .inl ⟨rfl, entries_setTable_self m _ _⟩
  · exact .inr (entries_edit_of_ne hname rfl)

theorem record?_congr {m' : Memory} (h : m'.entries name = m.entries name) :
    m'.record? name key = m.record? name key := by
  rw [record?, h, record?]

theorem editAll_append (edits others : List Edit) :
    m.editAll (edits ++ others) = (m.editAll edits).editAll others := List.foldl_append

/-- What edits have made of a store, told also by what they have left alone. -/
structure ChangedOnlyBy (m t : Memory) (edits : List Edit) : Prop where
  made : t = m.editAll edits
  records : ∀ name e, (∀ edit ∈ edits, ¬ edit.Touches name e.key) →
    (e ∈ t.entries name ↔ e ∈ m.entries name)
  fields : ∀ name, ∀ e ∈ m.entries name, ∀ field,
    (∀ edit ∈ edits, edit.Touches name e.key → ¬ edit.Replaces field) →
      ∃ f ∈ t.entries name, f.key = e.key ∧ f.record.lookup field = e.record.lookup field
  order : ∀ name, ∀ keys : List Value, keys.Sublist ((m.entries name).map Entry.key) →
    (∀ key ∈ keys, ∀ edit ∈ edits, edit.Touches name key → ¬ edit.IsDrop) →
      keys.Sublist ((t.entries name).map Entry.key)

namespace ChangedOnlyBy

theorem refl (m : Memory) : m.ChangedOnlyBy m [] where
  made := rfl
  records := fun _ _ _ => Iff.rfl
  fields := fun _ e he _ _ => ⟨e, he, rfl, rfl⟩
  order := fun _ _ hkeys _ => hkeys

theorem single (m : Memory) (edit : Edit) : m.ChangedOnlyBy (m.edit edit) [edit] where
  made := rfl
  records := by
    intro name e h
    obtain ⟨rfl, hentries⟩ | hentries := entries_edit_cases m edit name
    · rw [hentries]
      exact Edit.mem_apply_iff (h edit List.mem_cons_self)
    · rw [hentries]
  fields := by
    intro name e he field h
    obtain ⟨rfl, hentries⟩ | hentries := entries_edit_cases m edit name
    · rw [hentries]
      exact Edit.exists_mem_apply he (h edit List.mem_cons_self)
    · rw [hentries]
      exact ⟨e, he, rfl, rfl⟩
  order := by
    intro name keys hkeys h
    obtain ⟨rfl, hentries⟩ | hentries := entries_edit_cases m edit name
    · rw [hentries]
      exact Edit.sublist_keys_apply hkeys fun key hkey => h key hkey edit List.mem_cons_self
    · rwa [hentries]

theorem trans {t u : Memory} {edits others : List Edit} (h : m.ChangedOnlyBy t edits)
    (h' : t.ChangedOnlyBy u others) : m.ChangedOnlyBy u (edits ++ others) where
  made := by rw [editAll_append, ← h.made, ← h'.made]
  records := fun name e huntouched =>
    (h'.records name e fun edit hedit => huntouched edit (List.mem_append_right _ hedit)).trans
      (h.records name e fun edit hedit => huntouched edit (List.mem_append_left _ hedit))
  fields := by
    intro name e he field hleft
    obtain ⟨f, hf, hkey, hvalue⟩ := h.fields name e he field fun edit hedit =>
      hleft edit (List.mem_append_left _ hedit)
    obtain ⟨g, hg, hkey', hvalue'⟩ := h'.fields name f hf field fun edit hedit =>
      hkey ▸ hleft edit (List.mem_append_right _ hedit)
    exact ⟨g, hg, hkey'.trans hkey, hvalue'.trans hvalue⟩
  order := fun name keys hkeys hkept =>
    h'.order name keys
      (h.order name keys hkeys fun key hkey edit hedit =>
        hkept key hkey edit (List.mem_append_left _ hedit))
      fun key hkey edit hedit => hkept key hkey edit (List.mem_append_right _ hedit)

theorem editAll (m : Memory) (edits : List Edit) : m.ChangedOnlyBy (m.editAll edits) edits := by
  induction edits generalizing m with
  | nil => exact refl m
  | cons edit rest ih => exact (single m edit).trans (ih (m.edit edit))

end ChangedOnlyBy

theorem record?_write_self
    (h : m.record? name key = none → key.isKey = true ∧ key.same key = true) :
    (m.write name key r).record? name key = some r := by
  rw [record?, entries_write_self]
  refine Entries.slotOf?_put fun hslot => h ?_
  rw [record?, hslot]
  rfl

theorem edit_add (h : (m.entries name).slotOf? key = none) :
    m.edit (.add name key r) = m.write name key r := by
  have happly : (Edit.add name key r).apply (m.table name) = (m.table name).put key r := by
    rw [entries] at h
    simp only [Edit.apply, h]
  rw [edit, write, Edit.name, happly]

theorem edit_set (hr : m.record? name key = some r) (changes : Fields) :
    m.edit (.set name key changes) = m.write name key (r.putAll changes) := by
  obtain ⟨e, hslot, rfl⟩ := slotOf?_of_record? hr
  have happly : (Edit.set name key changes).apply (m.table name) =
      (m.table name).put key (e.record.putAll changes) :=
    Table.ext (Entries.put_eq_map (m.distinctKeys name) hslot changes).symm
  rw [edit, write, Edit.name, happly]

/-- An id appended to a list of a user, or the user's first record. -/
def listingEdit (m : Memory) (user : Value) (field id : String) (first : Fields) : Edit :=
  match m.record? users user with
  | some r => .set users user [(field, .list (r.items field ++ [.text id]))]
  | none => .add users user first

theorem name_listingEdit (m : Memory) (user : Value) (field id : String) (first : Fields) :
    (m.listingEdit user field id first).name = users := by
  rw [listingEdit]
  cases m.record? users user <;> rfl

/-- A project taken from the list of a user, if it is there. -/
def unlistingEdits (m : Memory) (user id : Value) : List Edit :=
  match m.record? users user with
  | some r =>
    if id.memberOf (r.items "projects") then
      [.set users user [("projects", .list (id.eraseSame (r.items "projects")))]]
    else []
  | none => []

/-- A further proposer of a project, unless there is one who is the same. -/
def proposingEdits (project : Value) (record : Fields) (actor : Value) : List Edit :=
  if actor.memberOf (record.items "proposers") then []
  else [.set projects project [("proposers", .list (record.items "proposers" ++ [actor]))]]

theorem items_of_userItems (hm : m.Listed) {user : Value} {field : String} {items : List Value}
    (hfield : field ∈ Catalog.listFields users)
    (hr : m.record? users user = some r) (hitems : m.userItems user field = .ok items) :
    r.items field = items := by
  rw [userItems, hr] at hitems
  by_cases hkey : user.isKey = true
  · rw [if_pos hkey] at hitems
    exact Fields.items_of_itemsOf (hm.record hr field hfield) hitems
  · rw [if_neg hkey] at hitems
    cases hitems

theorem listing_eq_edit {m' : Memory} (hm : m.Listed)
    (husers : m'.entries users = m.entries users) {user : Value} {field id : String} {items : List Value}
    (hfield : field ∈ Catalog.listFields users) (hitems : m.userItems user field = .ok items)
    (first : Fields) :
    m'.listing user field items id first = m'.edit (m.listingEdit user field id first) := by
  have hrecord : m'.record? users user = m.record? users user := record?_congr husers
  rw [listing, listingEdit, hrecord]
  cases hr : m.record? users user with
  | some r =>
    rw [hr] at hrecord
    have hedit := edit_set hrecord [(field, .list (r.items field ++ [.text id]))]
    rw [items_of_userItems hm hfield hr hitems] at hedit
    simp only [items_of_userItems hm hfield hr hitems]
    exact hedit.symm
  | none =>
    rw [hr] at hrecord
    exact (edit_add (slotOf?_eq_none_of_record? hrecord)).symm

theorem listing_write_eq_editAll (hm : m.Listed)
    (hfresh : (m.entries name).slotOf? key = none) (hname : users ≠ name) {user : Value}
    {field : String} {items : List Value} (hfield : field ∈ Catalog.listFields users)
    (hitems : m.userItems user field = .ok items) (id : String) (first : Fields) :
    (m.write name key r).listing user field items id first =
      m.editAll [.add name key r, m.listingEdit user field id first] := by
  rw [← edit_add hfresh]
  exact listing_eq_edit hm (entries_edit_of_ne hname rfl) hfield hitems first

theorem unlisting_eq_editAll (hm : m.Listed) {user id : Value} {items : List Value}
    (hitems : m.userItems user "projects" = .ok items) :
    m.unlisting user items id = m.editAll (m.unlistingEdits user id) := by
  rw [unlisting, unlistingEdits]
  cases hr : m.record? users user with
  | none => rfl
  | some r =>
    have hitems' := items_of_userItems hm (Catalog.mem_listFields_users.2 (.inl rfl)) hr hitems
    simp only [hitems']
    by_cases hmem : id.memberOf items = true
    · rw [if_pos hmem, if_pos hmem]
      exact (edit_set hr [("projects", .list (id.eraseSame items))]).symm
    · rw [if_neg hmem, if_neg hmem]
      rfl

theorem proposing_eq_editAll {project : Value} {record : Fields} {others : List Value}
    (hr : m.record? projects project = some record)
    (hothers : record.items "proposers" = others) (actor : Value) :
    m.proposing project record others actor = m.editAll (proposingEdits project record actor) := by
  rw [proposing, proposingEdits, hothers]
  by_cases hmem : actor.memberOf others = true
  · rw [if_pos hmem, if_pos hmem]
    rfl
  · rw [if_neg hmem, if_neg hmem]
    exact (edit_set hr [("proposers", .list (others ++ [actor]))]).symm

end Memory

namespace Operation

open Memory Collection Catalog

/-- The edits that make up an operation on a store, if `id` is the next that is issued. -/
inductive Makes (m : Memory) (id : String) : Operation → List Edit → Prop
  | read {o : Operation} (h : o.OnlyReads) : Makes m id o []
  | addProject {actor title scope budget skills : Value} {p : Project}
      (hread : Project.readFields (newProject id actor title scope budget skills) = .valid p) :
      Makes m id (.addProject actor title scope budget skills)
        [.add projects (.text id) p.fields,
          m.listingEdit actor "projects" id (ownerRecord actor id)]
  | addProposal {actor project letter budget : Value} {record : Fields} {r : Proposal}
      (hread : Proposal.readFields (newProposal id actor project letter budget) = .valid r)
      (hproject : m.record? projects project = some record) :
      Makes m id (.addProposal actor project letter budget)
        ([.add proposals (.text id) r.fields,
          m.listingEdit actor "proposals" id (proposerRecord actor id)] ++
          proposingEdits project record actor)
  | updateProject {actor key : Value} {record changed : Fields} {p : Project}
      (hproject : m.record? projects key = some record)
      (hread : Project.readFields (record.putAll changed) = .valid p) :
      Makes m id (.updateProject actor key (.object changed))
        [.set projects key (changed.map fun (k, _) => (k, Fields.get p.fields k))]
  | deleteProject {actor key : Value} {record : Fields}
      (hproject : m.record? projects key = some record) :
      Makes m id (.deleteProject actor key) (m.unlistingEdits actor key ++ [.drop projects key])
  | hireFreelancer {project proposal freelancer : Value} {record r : Fields}
      (hproject : m.record? projects project = some record)
      (hproposal : m.record? proposals proposal = some r) :
      Makes m id (.hireFreelancer project proposal freelancer)
        [.set proposals proposal [("verdict", .text "hired")],
          .set projects project [("freelancers", .list
            (if freelancer.memberOf (record.items "freelancers") then record.items "freelancers"
              else record.items "freelancers" ++ [freelancer]))]]

/-- The record that an operation gives once it has written it. -/
def gives? (id : String) : Operation → Option (String × Value)
  | .addProject _ _ _ _ _ => some (projects, .text id)
  | .addProposal _ _ _ _ => some (proposals, .text id)
  | .updateProject _ key _ => some (projects, key)
  | .hireFreelancer project _ _ => some (projects, project)
  | _ => none

theorem gives?_eq_none (id : String) {o : Operation} (h : o.OnlyReads) : o.gives? id = none := by
  cases o with
  | addProject | addProposal | updateProject | hireFreelancer => cases h
  | _ => rfl

end Operation

namespace Deed

open Memory Collection Catalog Value

variable {ids : Nat → String} {o : Operation} {v : Value} {m t : Memory} {n k : Nat}

theorem makes (h : Deed ids o (m, n) (.ok v) (t, k)) (hm : m.Listed)
    (hfresh : ∀ name ∈ [projects, proposals], (m.entries name).slotOf? (.text (ids n)) = none) :
    ∃ edits, o.Makes m (ids n) edits ∧ t = m.editAll edits := by
  have hlistProjects : "projects" ∈ listFields users := mem_listFields_users.2 (.inl rfl)
  have hlistProposals : "proposals" ∈ listFields users := mem_listFields_users.2 (.inr rfl)
  have hlistProposers : "proposers" ∈ listFields projects := mem_listFields_projects.2 (.inr rfl)
  have hlistFreelancers : "freelancers" ∈ listFields projects := mem_listFields_projects.2 (.inl rfl)
  cases h with
  | read hreads => exact ⟨[], .read hreads, rfl⟩
  | projectAdded hactor hread hitems =>
    exact ⟨_, .addProject hread, listing_write_eq_editAll hm (hfresh projects (by simp))
      (by decide) hlistProjects hitems _ _⟩
  | @proposalAdded _ _ actor project _ _ record r items others hactor hproject hread hitems hothers =>
    have hlisting := listing_write_eq_editAll (r := r.fields) hm
      (hfresh proposals (by simp)) (by decide) hlistProposals hitems (ids n)
      (proposerRecord actor (ids n))
    have hprojects : (m.editAll [.add proposals (.text (ids n)) r.fields,
        m.listingEdit actor "proposals" (ids n) (proposerRecord actor (ids n))]).entries projects =
          m.entries projects :=
      (entries_edit_of_ne (by decide : projects ≠ users) (name_listingEdit m _ _ _ _)).trans
        (entries_edit_of_ne (by decide : projects ≠ proposals) rfl)
    have hothers' := Fields.items_of_itemsOf (hm.record hproject _ hlistProposers) hothers
    refine ⟨_, .addProposal hread hproject, ?_⟩
    rw [hlisting, editAll_append]
    exact proposing_eq_editAll ((record?_congr hprojects).trans hproject)
      hothers' actor
  | projectChanged hactor hproject howner hnames hread =>
    exact ⟨_, .updateProject hproject hread, (edit_set hproject _).symm⟩
  | projectDeleted hactor hproject howner hitems =>
    refine ⟨_, .deleteProject hproject, ?_⟩
    rw [unlisting_eq_editAll hm hitems, editAll_append]
    rfl
  | @freelancerHired _ _ project proposal freelancer record r others hproject hproposal hothers =>
    have hverdict := edit_set hproposal [("verdict", hired)]
    have hprojects : (m.edit (.set proposals proposal [("verdict", hired)])).entries projects =
        m.entries projects := entries_edit_of_ne (by decide : projects ≠ proposals) rfl
    have hothers' := Fields.items_of_itemsOf (hm.record hproject _ hlistFreelancers) hothers
    have hhired := edit_set ((record?_congr hprojects).trans hproject)
      [("freelancers", .list (if freelancer.memberOf others then others else others ++ [freelancer]))]
    refine ⟨_, .hireFreelancer hproject hproposal, ?_⟩
    rw [hothers']
    refine Eq.trans ?_ hhired.symm
    rw [hverdict]
    rfl

theorem stored (h : Deed ids o (m, n) (.ok v) (t, k)) {name : String} {key : Value}
    (hgives : o.gives? (ids n) = some (name, key)) : ∃ r, t.record? name key = some r ∧ v = .object r := by
  cases h with
  | read hreads =>
    rw [Operation.gives?_eq_none (ids n) hreads] at hgives
    cases hgives
  | @projectAdded _ _ _ _ _ _ _ p _ hactor hread hitems =>
    cases hgives
    refine ⟨p.fields, ?_, rfl⟩
    rw [record?_listing_of_ne _ _ _ _ _ _ _ (by decide)]
    exact record?_write_self fun _ => ⟨isKey_text _, text_same_iff.2 rfl⟩
  | @proposalAdded _ _ _ _ _ _ _ r _ _ hactor hproject hread hitems hothers =>
    cases hgives
    refine ⟨r.fields, ?_, rfl⟩
    rw [record?_congr (entries_proposing_of_ne _ _ _ _ _ (by decide)),
      record?_listing_of_ne _ _ _ _ _ _ _ (by decide)]
    exact record?_write_self fun _ => ⟨isKey_text _, text_same_iff.2 rfl⟩
  | projectChanged hactor hproject howner hnames hread =>
    cases hgives
    exact ⟨_, record?_write_self fun hnone => by simp [hproject] at hnone, rfl⟩
  | projectDeleted hactor hproject howner hitems => cases hgives
  | freelancerHired hproject hproposal hothers =>
    cases hgives
    refine ⟨_, record?_write_self fun hnone => ?_, rfl⟩
    rw [record?_write_of_ne _ _ _ _ (by decide), hproject] at hnone
    cases hnone

end Deed

open Collection in
/-- On a store whose lists are lists, or are not there, an operation that succeeds makes the edits that
are told of it, and changes no other record and no other field; what it gives of what it has written
is stored. -/
theorem writes_confined (ids : Nat → String) {m t : Memory} {n k : Nat} {o : Operation} {v : Value}
    (hm : m.Listed)
    (hfresh : ∀ name ∈ [projects, proposals], (m.entries name).slotOf? (.text (ids n)) = none)
    (hrun : o.program.run (Board.withIds ids Memory.handle) (m, n) = (.ok v, (t, k))) :
    (∃ edits, o.Makes m (ids n) edits ∧ m.ChangedOnlyBy t edits) ∧
    ∀ name key, o.gives? (ids n) = some (name, key) →
      ∃ r, t.record? name key = some r ∧ v = .object r := by
  have hdeed := Operation.run_deed ids (m, n) o
  rw [hrun] at hdeed
  obtain ⟨edits, hmakes, rfl⟩ := hdeed.makes hm hfresh
  exact ⟨⟨edits, hmakes, .editAll m edits⟩, fun name key => hdeed.stored⟩

/-- The owner of a project proposes for it; the project and the user have a field of their own. -/
theorem writes_confined_own_project :
    let m : Memory := .holding [
      ("projects", [⟨.text "P1", [("id", .text "P1"), ("owner", .text "U1"), ("stars", .int 5)]⟩]),
      ("users", [⟨.text "U1", [("id", .text "U1"), ("badge", .int 3), ("projects", .texts ["P1"])]⟩])]
    let o := Operation.addProposal (.text "U1") (.text "P1") .null .null
    let s := o.program.run (Board.withIds longerIds Memory.handle) (m, 0)
    (m.Listed ∧ ∃ v, s.1 = .ok v) ∧
      (s.2.1.entries "projects").map Entry.record =
        [[("id", .text "P1"), ("owner", .text "U1"), ("stars", .int 5), ("proposers", .texts ["U1"])]] ∧
      (s.2.1.entries "users").map Entry.record = [[("id", .text "U1"), ("badge", .int 3),
        ("projects", .texts ["P1"]), ("proposals", .texts ["p"])]] ∧
      (∃ edits, o.Makes m "p" edits ∧ m.ChangedOnlyBy s.2.1 edits) ∧
      ∃ r, s.2.1.record? "proposals" (.text "p") = some r ∧ s.1 = .ok (.object r) := by
  intro m o s
  have hm : m.Listed := by
    refine .of_known (fun e he => ?_) fun e he => ?_
    · obtain rfl := List.mem_singleton.1 he
      exact .of_project (.inl rfl) (.inl rfl)
    · obtain rfl := List.mem_singleton.1 he
      exact .of_user (.inr ⟨_, rfl⟩) (.inl rfl)
  have hfresh : ∀ name ∈ ["projects", "proposals"],
      (m.entries name).slotOf? (.text (longerIds 0)) = none := by
    intro name hname
    simp only [List.mem_cons, List.not_mem_nil, or_false] at hname
    rcases hname with rfl | rfl
    · rfl
    · rfl
  obtain ⟨v, hrun⟩ : ∃ v, s = (.ok v, (s.2.1, s.2.2)) := ⟨_, rfl⟩
  obtain ⟨⟨edits, hmakes, hedits⟩, hstored⟩ := writes_confined longerIds hm hfresh hrun
  obtain ⟨r, hr, hv⟩ := hstored "proposals" (.text "p") rfl
  have hgiven : s.1 = .ok v := congrArg Prod.fst hrun
  exact ⟨⟨hm, v, hgiven⟩, rfl, rfl, ⟨edits, hmakes, hedits⟩, r, hr, hv ▸ hgiven⟩

end FreelanceBoard
