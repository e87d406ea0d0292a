import FreelanceBoard.Proofs.CatalogReads
import FreelanceBoard.Proofs.RecordStore

/-! What each operation of the catalog comes to, on every store that can be relied on. -/
namespace FreelanceBoard

namespace Posting

theorem resolve_id (q : Posting) : q.toDocument.resolve "id" = .text q.id := q.get_id

theorem admits_among (q : Posting) (names : List String) :
    (Predicate.among "id" (names.map .text)).admits q.toDocument = .ok (decide (q.id ∈ names)) := by
  rw [Predicate.admits, q.resolve_id]
  refine congrArg Except.ok ?_
  rw [Bool.eq_iff_iff, Value.text_memberOf_texts, decide_eq_true_eq]

theorem isCurrent_toDocument (q : Posting) :
    Catalog.isCurrent q.toDocument = .ok (q.project.isPublished && !q.hired.isEmpty) := by
  have hpublished : q.toDocument.field "is_published" = .ok (.bool q.project.isPublished) := by
    rw [toDocument, Value.field, q.get_fields (by decide)]
    rfl
  have hhired : q.toDocument.field "freelancers" = .ok (.list q.hired) := by
    rw [toDocument, Value.field, q.get_freelancers]
  rw [Catalog.isCurrent, hpublished, hhired]
  cases q.project.isPublished <;> rfl

end Posting

namespace Gives

open Collection

variable {allowed : Value → Prop} {ids : Nat → String} {L : Ledger} {n : Nat}

theorem projects_mem_known : projects ∈ known := by decide

theorem users_mem_known : users ∈ known := by decide

theorem proposals_mem_known : proposals ∈ known := by decide

theorem elementsOrNone_texts (ts : List String) :
    (Value.texts ts).elementsOrNone = .ok (ts.map .text) := by
  cases ts with
  | nil => rfl
  | cons t ts => rfl

theorem find?_postings (L : Ledger) (id : String) :
    Keyed.find? Fields.idName (.text id) (L.contents projects) =
      (L.posting? id).map Posting.fields := by
  rw [Ledger.contents_projects, Keyed.find?_map Name.text_injective fun _ _ => Posting.idName_fields _]
  rfl

theorem find?_users (L : Ledger) (name : Name) :
    Keyed.find? Fields.idName name (L.contents users) = (L.user? name).map Account.fields := by
  rw [Ledger.contents_users]
  exact Keyed.find?_map Function.injective_id (fun _ _ => Account.idName_fields _) name

theorem find?_proposals (L : Ledger) (id : String) :
    Keyed.find? Fields.idName (.text id) (L.contents proposals) =
      (L.proposal? id).map Proposal.fields := by
  rw [Ledger.contents_proposals, Keyed.find?_map Name.text_injective fun _ _ => Proposal.idName_fields _]
  rfl

theorem find?_posting {id : String} {q : Posting} (hq : L.posting? id = some q) :
    Keyed.find? Fields.idName (.text id) (L.contents projects) = some q.fields := by
  rw [find?_postings, hq]
  rfl

theorem find?_user {name : Name} {u : Account} (hu : L.user? name = some u) :
    Keyed.find? Fields.idName name (L.contents users) = some u.fields := by
  rw [find?_users, hu]
  rfl

theorem find?_proposal {id : String} {r : Proposal} (hr : L.proposal? id = some r) :
    Keyed.find? Fields.idName (.text id) (L.contents proposals) = some r.fields := by
  rw [find?_proposals, hr]
  rfl

section

variable {u : Name} (hu : allowed u.value)
include hu

theorem findUser :
    Gives allowed ids (Catalog.findById users u.value) (L, n)
      (· = .ok ((L.user? u).map fun v => .object v.fields)) (L, n) := by
  have hlookup : lookupIn (L.contents users) u.value =
      .ok ((L.user? u).map fun v => .object v.fields) := by
    rw [lookupIn_value, find?_users, Option.map_map]
    rfl
  exact (findById users_mem_known hu).mono fun o ho => ho.trans hlookup

/-- One of the lists of a user, which is empty if there is no record. -/
theorem userItems {field : String} {items : Account → List String}
    (hitems : ∀ v : Account, Fields.get v.fields field = .texts (items v))
    (hnone : ∀ name, items ⟨name, [], []⟩ = []) :
    Gives allowed ids (Catalog.userItems u.value field) (L, n)
      (· = .ok ((items (L.user u)).map .text)) (L, n) := by
  refine bind (findUser hu) ?_
  rw [Ledger.user]
  cases L.user? u with
  | none =>
    rw [Option.getD_none, hnone]
    exact done rfl
  | some v =>
    refine attempt ?_
    rw [Catalog.itemsOf, Value.field, hitems]
    exact elementsOrNone_texts _

/-- Appending to a list of a user makes the record where there is none. -/
theorem appendToUser {field : String} {items : Account → List String} {extend : Account → Account}
    {id : String} (hitems : ∀ v : Account, Fields.get v.fields field = .texts (items v))
    (hnone : ∀ name, items ⟨name, [], []⟩ = []) (hname : ∀ v, (extend v).name = v.name)
    (hextend : ∀ v : Account, (extend v).fields = v.fields.put field (.texts (items v ++ [id]))) :
    Gives allowed ids (Catalog.appendToUser u.value field id (extend ⟨u, [], []⟩).fields) (L, n)
      (· = .ok ()) (L.withUser (extend (L.user u)), n) := by
  refine bind (userItems hu hitems hnone) ?_
  rw [← Value.texts_concat]
  cases hfound : L.user? u with
  | none =>
    have huser : L.user u = ⟨u, [], []⟩ := by rw [Ledger.user, hfound, Option.getD_none]
    have hmissing : Keyed.find? Fields.idName u (L.contents users) = none := by
      rw [find?_users, hfound]
      rfl
    have hkey : (extend ⟨u, [], []⟩).fields.idName = u := (Account.idName_fields _).trans (hname _)
    have hinsert : Gives allowed ids (Catalog.insert users (extend ⟨u, [], []⟩).fields) (L, n)
        (· = .ok (.object (extend ⟨u, [], []⟩).fields)) (L.withUser (extend (L.user u)), n) := by
      rw [huser]
      refine insert users_mem_known ?_ (by rwa [hkey]) (L.contents_withUser _)
      rw [Account.idName_fields]
      rfl
    exact bind (updateMissing users_mem_known hu hmissing) (bind hinsert (done rfl))
  | some v =>
    have huser : L.user u = v := by rw [Ledger.user, hfound, Option.getD_some]
    have hkey : v.name = u := Keyed.key_of_find? hfound
    have hupdate : Gives allowed ids
        (Catalog.update users u.value [(field, .texts (items v ++ [id]))]) (L, n)
        (· = .ok (some (.object (extend v).fields))) (L.withUser (extend v), n) := by
      refine updateField users_mem_known hu (find?_user hfound) (fun _ => rfl) (hextend v).symm ?_
        (L.contents_withUser _)
      exact congrArg (fun k : Name => some k.value) ((hname v).trans hkey)
    rw [huser]
    exact bind hupdate (done rfl)

theorem appendProject (id : String) :
    Gives allowed ids (Catalog.appendToUser u.value "projects" id (Catalog.ownerRecord u.value id))
      (L, n) (· = .ok ()) (L.listing u id, n) := by
  let extend : Account → Account := fun v => { v with projects := v.projects ++ [id] }
  have hname : ∀ v, (extend v).name = v.name := fun _ => rfl
  exact appendToUser hu Account.get_projects (fun _ => rfl) hname fun _ => rfl

theorem appendProposal (id : String) :
    Gives allowed ids
      (Catalog.appendToUser u.value "proposals" id (Catalog.proposerRecord u.value id)) (L, n)
      (· = .ok ()) (L.listingProposal u id, n) := by
  let extend : Account → Account := fun v => { v with proposals := v.proposals ++ [id] }
  have hname : ∀ v, (extend v).name = v.name := fun _ => rfl
  exact appendToUser hu Account.get_proposals (fun _ => rfl) hname fun _ => rfl

end

/-- Nothing can be appended for a user who can have no record. -/
theorem appendToUser_of_not_isKey {user : Value} {field id : String} {first : Fields}
    (huser : allowed user) (hkey : user.isKey = false) :
    Gives allowed ids (Catalog.appendToUser user field id first) (L, n)
      (· = .error (.fault .wrongKind)) (L, n) := by
  have hne : ∀ name : Name, user ≠ name.value := by
    rintro name rfl
    rw [name.isKey_value] at hkey
    cases hkey
  have hlookup : lookupIn (L.contents users) user = .error (.fault .wrongKind) := by
    rw [lookupIn_of_ne_value _ hne, hkey]
    rfl
  have hfind : Gives allowed ids (Catalog.findById users user) (L, n)
      (· = .error (.fault .wrongKind)) (L, n) :=
    (findById users_mem_known huser).mono fun o ho => ho.trans hlookup
  exact bind_error (bind_error hfind rfl) rfl

section

variable (hallowed : ∀ s, allowed (.text s))
include hallowed

/-- A record that has to be there is given where it is there. -/
theorem findRequired {name id : String} {r : Fields} (missing : Failure) (hname : name ∈ known)
    (hr : Keyed.find? Fields.idName (.text id) (L.contents name) = some r) :
    Gives allowed ids ((Catalog.findById name (.text id)).bind fun found => match found with
      | some v => .done v
      | none => .failed missing) (L, n) (· = .ok (.object r)) (L, n) := by
  have hlookup : lookupIn (L.contents name) (.text id) = .ok (some (.object r)) := by
    refine (lookupIn_value _ (.text id)).trans ?_
    rw [hr]
    rfl
  exact bind ((findById hname (hallowed id)).mono fun o ho => ho.trans hlookup) (done rfl)

theorem getProject_found {q : Posting} (hq : L.posting? q.id = some q) :
    Gives allowed ids (Catalog.getProject (.text q.id)) (L, n) (· = .ok q.toDocument) (L, n) :=
  findRequired hallowed (.projectNotFound (.text q.id)) projects_mem_known (find?_posting hq)

theorem getProposal_found {r : Proposal} (hr : L.proposal? r.id = some r) :
    Gives allowed ids (Catalog.getProposal (.text r.id)) (L, n) (· = .ok r.toDocument) (L, n) :=
  findRequired hallowed (.proposalNotFound (.text r.id)) proposals_mem_known (find?_proposal hr)

end

/-- What a lookup finds is under the id that was looked up; without it nothing is found. -/
theorem lookupIn_cases (records : List Fields) (id : Value) :
    (∃ (k : Name) (r : Fields), id = k.value ∧ Keyed.find? Fields.idName k records = some r) ∨
      lookupIn records id = .ok none ∨ ∃ e, lookupIn records id = .error e := by
  by_cases hid : ∃ k : Name, id = k.value
  · obtain ⟨k, rfl⟩ := hid
    rw [lookupIn_value]
    cases hr : Keyed.find? Fields.idName k records with
    | none => exact .inr (.inl rfl)
    | some r => exact .inl ⟨k, r, rfl, hr⟩
  · right
    rw [lookupIn_of_ne_value records fun k h => hid ⟨k, h⟩]
    by_cases hkey : id.isKey = true
    · exact .inl (if_pos hkey)
    · exact .inr ⟨_, if_neg hkey⟩

/-- A record that has to be there is there under its name, or else the lookup fails. -/
theorem findRequired_cases (ids : Nat → String) (L : Ledger) (n : Nat) {name : String} {id : Value}
    (missing : Failure) (hname : name ∈ known) (hid : allowed id) :
    (∃ (k : Name) (r : Fields), id = k.value ∧
      Keyed.find? Fields.idName k (L.contents name) = some r) ∨
      ∃ e, Gives allowed ids ((Catalog.findById name id).bind fun found => match found with
        | some v => .done v
        | none => .failed missing) (L, n) (· = .error e) (L, n) := by
  have hfind : Gives allowed ids (Catalog.findById name id) (L, n)
      (· = lookupIn (L.contents name) id) (L, n) := findById hname hid
  obtain hfound | hnone | ⟨e, he⟩ := lookupIn_cases (L.contents name) id
  · exact .inl hfound
  · exact .inr ⟨missing, bind (hfind.mono fun o ho => ho.trans hnone) (failed rfl)⟩
  · exact .inr ⟨e, bind_error (hfind.mono fun o ho => ho.trans he) rfl⟩

theorem getProject_cases (ids : Nat → String) (L : Ledger) (n : Nat) {id : Value} (hid : allowed id) :
    (∃ q : Posting, id = .text q.id ∧ L.posting? q.id = some q) ∨
      ∃ e, Gives allowed ids (Catalog.getProject id) (L, n) (· = .error e) (L, n) := by
  refine (findRequired_cases ids L n (.projectNotFound id) projects_mem_known hid).imp_left ?_
  rintro ⟨k, r, rfl, hr⟩
  obtain ⟨q, hq, rfl⟩ := List.mem_map.1 (Keyed.mem_of_find? hr)
  obtain rfl : .text q.id = k := q.idName_fields.symm.trans (Keyed.key_of_find? hr)
  rw [find?_postings, Option.map_eq_some_iff] at hr
  obtain ⟨q', hq', -⟩ := hr
  have hid' : q'.id = q.id := Keyed.key_of_find? hq'
  exact ⟨q', congrArg Value.text hid'.symm, hid' ▸ hq'⟩

theorem getProposal_cases (ids : Nat → String) (L : Ledger) (n : Nat) {id : Value} (hid : allowed id) :
    (∃ r : Proposal, id = .text r.id ∧ L.proposal? r.id = some r) ∨
      ∃ e, Gives allowed ids (Catalog.getProposal id) (L, n) (· = .error e) (L, n) := by
  refine (findRequired_cases ids L n (.proposalNotFound id) proposals_mem_known hid).imp_left ?_
  rintro ⟨k, f, rfl, hr⟩
  obtain ⟨r, hmem, rfl⟩ := List.mem_map.1 (Keyed.mem_of_find? hr)
  obtain rfl : .text r.id = k := r.idName_fields.symm.trans (Keyed.key_of_find? hr)
  rw [find?_proposals, Option.map_eq_some_iff] at hr
  obtain ⟨r', hr', -⟩ := hr
  have hid' : r'.id = r.id := Keyed.key_of_find? hr'
  exact ⟨r', congrArg Value.text hid'.symm, hid' ▸ hr'⟩

theorem requireActor {actor : Value} (h : actor.truthy = true) :
    Gives allowed ids (Catalog.requireActor actor) (L, n) (· = .ok ()) (L, n) := by
  rw [Catalog.requireActor, if_pos h]
  exact done rfl

theorem requireActor_refused {actor : Value} (h : actor.truthy ≠ true) :
    Gives allowed ids (Catalog.requireActor actor) (L, n) (· = .error .notLoggedIn) (L, n) := by
  rw [Catalog.requireActor, if_neg h]
  exact failed rfl

section

variable (hallowed : ∀ s, allowed (.text s))
include hallowed

theorem updatePosting {q q' : Posting} {key : String} {v : Value} (hq : L.posting? q.id = some q)
    (hv : ∀ w, v.mergedInto w = v) (hput : q.fields.put key v = q'.fields) (hid : q'.id = q.id) :
    Gives allowed ids (Catalog.update projects (.text q.id) [(key, v)]) (L, n)
      (· = .ok (some q'.toDocument)) (L.withPosting q', n) := by
  have hkey : allowed (Name.text q.id).value := hallowed q.id
  refine updateField projects_mem_known hkey (find?_posting hq) hv hput ?_ (L.contents_withPosting q')
  rw [q'.lookup_id, hid]
  rfl

theorem updateProposal {r r' : Proposal} {key : String} {v : Value} (hr : L.proposal? r.id = some r)
    (hv : ∀ w, v.mergedInto w = v) (hput : r.fields.put key v = r'.fields) (hid : r'.id = r.id) :
    Gives allowed ids (Catalog.update proposals (.text r.id) [(key, v)]) (L, n)
      (· = .ok (some r'.toDocument)) (L.withProposal r', n) := by
  have hkey : allowed (Name.text r.id).value := hallowed r.id
  refine updateField proposals_mem_known hkey (find?_proposal hr) hv hput ?_
    (L.contents_withProposal r')
  exact congrArg (fun k => some (Value.text k)) hid

/-- Taking a project from the list of its owner, where it is listed. -/
theorem unlistProject {owner id : String} (hmem : id ∈ (L.user (.text owner)).projects) :
    Gives allowed ids (Catalog.update users (.text owner)
        [("projects", .texts ((L.user (.text owner)).projects.erase id))]) (L, n)
      (· = .ok (some (.object (Account.fields { L.user (.text owner) with
        projects := (L.user (.text owner)).projects.erase id })))) (L.unlisting (.text owner) id, n) := by
  cases hu : L.user? (.text owner) with
  | none =>
    rw [Ledger.user, hu, Option.getD_none] at hmem
    cases hmem
  | some u =>
    have huser : L.user (.text owner) = u := by rw [Ledger.user, hu, Option.getD_some]
    have hname : u.name = .text owner := Keyed.key_of_find? hu
    have hput : u.fields.put "projects" (.texts (u.projects.erase id)) =
        Account.fields { u with projects := u.projects.erase id } := rfl
    have hkey : allowed (Name.text owner).value := hallowed owner
    rw [Ledger.unlisting, if_pos hmem, huser]
    refine updateField users_mem_known hkey (find?_user hu) (fun _ => rfl) hput ?_
      (L.contents_withUser _)
    exact congrArg (fun k : Name => some k.value) hname

theorem deletePosting {q : Posting} (hq : L.posting? q.id = some q) :
    Gives allowed ids (Board.onStore (Store.delete projects (.text q.id))) (L, n) (· = .ok true)
      (L.withoutPosting q.id, n) := by
  have hkey : allowed (Name.text q.id).value := hallowed q.id
  exact delete projects_mem_known hkey (find?_posting hq) (L.contents_withoutPosting q.id)

/-- The part of an update that comes after the checks. -/
theorem updateRevised {q : Posting} {names : List String} {p : Project} (hq : L.posting? q.id = some q)
    (hrevised : q.Revised names p) (hnames : ∀ key ∈ names, key ∈ Catalog.editableFields) :
    Gives allowed ids (Catalog.update projects (.text q.id)
        (names.map fun key => (key, Fields.get p.fields key))) (L, n)
      (· = .ok (some (Posting.toDocument { q with project := p })))
      (L.withPosting { q with project := p }, n) := by
  have hkey : allowed (Name.text q.id).value := hallowed q.id
  refine update projects_mem_known hkey (find?_posting hq) (hrevised.putAll_eq hnames)
    (hrevised.merge_eq hnames) ?_ (L.contents_withPosting _)
  rw [Posting.lookup_id]
  exact congrArg (fun k => some (Value.text k)) hrevised.id

end

theorem itemsOf_proposers (q : Posting) :
    Catalog.itemsOf q.toDocument "proposers" = .ok (q.proposed.map Name.value) := by
  rw [Posting.toDocument, Catalog.itemsOf, Value.field, q.get_proposers]
  cases q.proposed with
  | nil => rfl
  | cons k ks => rfl

theorem itemsOf_freelancers (q : Posting) :
    Catalog.itemsOf q.toDocument "freelancers" = .ok q.hired := by
  rw [Posting.toDocument, Catalog.itemsOf, Value.field, q.get_freelancers]
  cases hhired : q.hired with
  | nil => rfl
  | cons v vs => rfl

/-- Only changes of the fields that may be changed are let through. -/
theorem refuseLocked_cases (changes : Value) :
    (Catalog.refuseLocked changes = .done () ∧ ∀ changed, changes = .object changed →
      ∀ key ∈ Fields.keys changed, key ∈ Catalog.editableFields) ∨
      ∃ e, Catalog.refuseLocked changes = .failed e := by
  rw [Catalog.refuseLocked]
  cases hlocked : Catalog.lockedFields changes with
  | error f => exact .inr ⟨_, rfl⟩
  | ok locked =>
    cases locked with
    | nil =>
      refine .inl ⟨rfl, ?_⟩
      rintro changed rfl key hkey
      have hitems : ∀ v ∈ changed.map fun entry => Value.text entry.1, ∃ t, v = .text t := by
        intro v hv
        obtain ⟨entry, -, rfl⟩ := List.mem_map.1 hv
        exact ⟨_, rfl⟩
      simp only [Catalog.lockedFields, Value.elements, Value.keySet,
        if_pos (Value.areKeys_of_texts hitems)] at hlocked
      have hnone := List.filter_eq_nil_iff.1 (Except.ok.inj hlocked)
      have hmem : Value.text key ∈ Value.distinct (changed.map fun entry => Value.text entry.1) := by
        obtain ⟨entry, hentry, rfl⟩ := List.mem_map.1 hkey
        exact (Value.text_mem_distinct_iff hitems).2 (List.mem_map.2 ⟨entry, hentry, rfl⟩)
      have hname := hnone _ hmem
      rw [Bool.not_eq_true', Bool.not_eq_false, Value.text_memberOf_texts] at hname
      exact hname
    | cons v vs =>
      right
      cases hsorted : Value.sorted (v :: vs) with
      | error f => exact ⟨.fault f, by simp [Board.attempt, Fault.lift, Program.ofExcept, hsorted]⟩
      | ok names =>
        exact ⟨.lockedFields names, by simp [Board.attempt, Fault.lift, Program.ofExcept, hsorted]⟩

theorem changedProject_eq_ok {id changes : Value} {q : Posting} {updates : Fields}
    (h : Catalog.changedProject id q.toDocument changes = .ok updates) :
    ∃ changed p, changes = .object changed ∧ Project.readFields (q.fields.putAll changed) = .valid p ∧
      updates = (Fields.keys changed).map fun key => (key, Fields.get p.fields key) := by
  cases changes with
  | object changed =>
    rw [Posting.toDocument, Catalog.changedProject] at h
    cases hread : Project.readFields (q.fields.putAll changed) with
    | invalid issues => simp [hread] at h
    | valid p =>
      rw [hread] at h
      refine ⟨changed, p, rfl, hread, (Except.ok.inj h).symm.trans ?_⟩
      rw [Fields.keys, List.map_map]
      rfl
  | _ => cases h

theorem changedProject_of_valid {id : Value} {q : Posting} {changed : Fields} {p : Project}
    (h : Project.readFields (q.fields.putAll changed) = .valid p) :
    Catalog.changedProject id q.toDocument (.object changed) =
      .ok ((Fields.keys changed).map fun key => (key, Fields.get p.fields key)) := by
  rw [Posting.toDocument, Catalog.changedProject, h, Fields.keys, List.map_map]
  rfl

theorem truthy_text_ne {s : String} (h : (Value.text s).truthy = true) : s ≠ "" := by
  rintro rfl
  cases h

section

variable (hallowed : ∀ s, allowed (.text s))
include hallowed

theorem insertProject {id : String} {actor title scope budget skills : Value} {p : Project}
    (hread : Project.readFields (Catalog.newProject id actor title scope budget skills) = .valid p) :
    Gives allowed ids (Catalog.insert projects p.fields) (L, n) (· = .ok p.toDocument)
      (L.withPosting ⟨p, [], []⟩, n) := by
  obtain ⟨-, -, -, hfreelancers, hproposers⟩ := Project.readFields_new hread
  have hfields : p.fields = (Posting.mk p [] []).fields := by
    rw [Posting.fields, Project.fields, hfreelancers, hproposers]
    rfl
  rw [Project.toDocument, hfields]
  have hkey : (Posting.mk p [] []).fields.lookup "id" = some (Name.text p.id).value :=
    Posting.lookup_id _
  refine insert projects_mem_known ?_ ?_ (L.contents_withPosting _)
  · rw [Posting.idName_fields, hkey]
    rfl
  · rw [Posting.idName_fields]
    exact hallowed p.id

/-- Who can be a key has a record or is given one. -/
theorem addProject_listed {actor : Name} {title scope budget skills : Value} {p : Project}
    (hactor : actor.value.truthy = true) (hkeyed : allowed actor.value)
    (hread : Project.readFields (Catalog.newProject (ids n) actor.value title scope budget skills) =
      .valid p) :
    Gives allowed ids (Catalog.addProject actor.value title scope budget skills) (L, n)
      (· = .ok p.toDocument) ((L.withPosting ⟨p, [], []⟩).listing actor p.id, n + 1) := by
  obtain ⟨hid, -⟩ := Project.readFields_new hread
  refine bind (requireActor hactor) (bind freshId ?_)
  rw [hread]
  refine bind (done rfl) (bind (insertProject hallowed hread) ?_)
  rw [← hid]
  exact bind (appendProject hkeyed p.id) (done rfl)

theorem addProject_unlisted {actor title scope budget skills : Value} {p : Project}
    (hactor : actor.truthy = true) (hkeyed : allowed actor) (hkey : actor.isKey = false)
    (hread : Project.readFields (Catalog.newProject (ids n) actor title scope budget skills) =
      .valid p) :
    Gives allowed ids (Catalog.addProject actor title scope budget skills) (L, n)
      (· = .error (.fault .wrongKind)) (L.withPosting ⟨p, [], []⟩, n + 1) := by
  refine bind (requireActor hactor) (bind freshId ?_)
  rw [hread]
  exact bind (done rfl) (bind (insertProject hallowed hread)
    (bind_error (appendToUser_of_not_isKey hkeyed hkey) rfl))

/-- Whoever is read as a text may be looked up. -/
theorem allowed_of_spells {actor : Value} {s : String} (h : actor.Spells s)
    (hoctets : ∀ fixed octets, actor = .bytes fixed octets → allowed actor) : allowed actor := by
  rcases h with rfl | ⟨fixed, rfl⟩
  · exact hallowed s
  · exact hoctets fixed _ rfl

theorem addProject (actor title scope budget skills : Value)
    (hoctets : ∀ fixed octets, actor = .bytes fixed octets → allowed actor) :
    ∃ outcome after, Effect ids (.addProject actor title scope budget skills) (L, n) after ∧
      Gives allowed ids (Catalog.addProject actor title scope budget skills) (L, n) (· = outcome)
        after := by
  by_cases hactor : actor.truthy = true
  · cases hread : Project.readFields (Catalog.newProject (ids n) actor title scope budget skills) with
    | invalid issues =>
      refine ⟨.error (.invalid issues), (L, n + 1), .nothing (Nat.le_succ n), ?_⟩
      refine bind (requireActor hactor) (bind freshId (bind_error ?_ rfl))
      rw [hread]
      exact failed rfl
    | valid p =>
      obtain ⟨hid, hspells, hpublished, -⟩ := Project.readFields_new hread
      have hkeyed := allowed_of_spells hallowed hspells hoctets
      cases hkey : actor.isKey with
      | true =>
        obtain ⟨u, rfl, howner⟩ := Name.exists_of_spells hspells hkey
        exact ⟨_, _, .projectAdded (hspells.truthy_iff.1 hactor) howner hid hpublished,
          addProject_listed hallowed hactor hkeyed hread⟩
      | false =>
        exact ⟨_, _, .projectUnlisted hkey hspells hid,
          addProject_unlisted hallowed hactor hkeyed hkey hread⟩
  · exact ⟨.error .notLoggedIn, (L, n), .nothing (Nat.le_refl n),
      bind_error (requireActor_refused hactor) rfl⟩

/-- The part of a proposal that comes after its record has been stored and listed. -/
theorem addProposer {actor : Name} {q : Posting} (created : Value) (hq : L.posting? q.id = some q) :
    Gives allowed ids ((Board.attempt (Catalog.itemsOf q.toDocument "proposers")).bind fun proposers =>
        if actor.value.memberOf proposers then .done created
        else (Catalog.update projects (.text q.id)
          [("proposers", .list (proposers ++ [actor.value]))]).bind fun _ => .done created) (L, n)
      (· = .ok created) (L.withPosting (q.withProposer actor), n) := by
  refine bind (attempt (itemsOf_proposers q)) ?_
  by_cases hmem : actor ∈ q.proposed
  · have hsame : L.withPosting (q.withProposer actor) = L := by
      rw [Posting.withProposer, if_pos hmem, Ledger.withPosting]
      exact congrArg (fun qs => { L with postings := qs }) (Keyed.put_of_find? hq)
    rw [if_pos (Name.memberOf_names.2 hmem), hsame]
    exact done rfl
  · rw [if_neg fun h => hmem (Name.memberOf_names.1 h)]
    exact bind (updatePosting hallowed hq (fun _ => rfl) (Posting.fields_withProposer hmem).symm
      (q.id_withProposer actor)) (done rfl)

theorem insertProposal (r : Proposal) :
    Gives allowed ids (Catalog.insert proposals r.fields) (L, n) (· = .ok r.toDocument)
      (L.withProposal r, n) := by
  refine insert proposals_mem_known ?_ ?_ (L.contents_withProposal _)
  · rw [Proposal.idName_fields]
    rfl
  · rw [Proposal.idName_fields]
    exact hallowed r.id

theorem addProposal_listed {actor : Name} {letter budget : Value} {q : Posting} {r : Proposal}
    (hactor : actor.value.truthy = true) (hkeyed : allowed actor.value)
    (hq : L.posting? q.id = some q)
    (hread : Proposal.readFields (Catalog.newProposal (ids n) actor.value (.text q.id) letter budget) =
      .valid r) :
    Gives allowed ids (Catalog.addProposal actor.value (.text q.id) letter budget) (L, n)
      (· = .ok r.toDocument)
      (((L.withProposal r).listingProposal actor r.id).withPosting (q.withProposer actor), n + 1) := by
  obtain ⟨hid, -⟩ := Proposal.readFields_new hread hactor
  refine bind (requireActor hactor) (bind (getProject_found hallowed hq) (bind freshId ?_))
  rw [hread]
  refine bind (done rfl) (bind (insertProposal hallowed r) ?_)
  rw [← hid]
  exact bind (appendProposal hkeyed r.id) (addProposer hallowed _ hq)

theorem addProposal_unlisted {actor letter budget : Value} {q : Posting} {r : Proposal}
    (hactor : actor.truthy = true) (hkeyed : allowed actor) (hkey : actor.isKey = false)
    (hq : L.posting? q.id = some q)
    (hread : Proposal.readFields (Catalog.newProposal (ids n) actor (.text q.id) letter budget) =
      .valid r) :
    Gives allowed ids (Catalog.addProposal actor (.text q.id) letter budget) (L, n)
      (· = .error (.fault .wrongKind)) (L.withProposal r, n + 1) := by
  refine bind (requireActor hactor) (bind (getProject_found hallowed hq) (bind freshId ?_))
  rw [hread]
  exact bind (done rfl) (bind (insertProposal hallowed r)
    (bind_error (appendToUser_of_not_isKey hkeyed hkey) rfl))

theorem addProposal (actor letter budget : Value) {project : Value} (hproject : allowed project)
    (hoctets : ∀ fixed octets, actor = .bytes fixed octets → allowed actor) :
    ∃ outcome after, Effect ids (.addProposal actor project letter budget) (L, n) after ∧
      Gives allowed ids (Catalog.addProposal actor project letter budget) (L, n) (· = outcome)
        after := by
  by_cases hactor : actor.truthy = true
  · obtain ⟨q, rfl, hq⟩ | ⟨e, hmissing⟩ := getProject_cases ids L n hproject
    · cases hread : Proposal.readFields
          (Catalog.newProposal (ids n) actor (.text q.id) letter budget) with
      | invalid issues =>
        refine ⟨.error (.invalid issues), (L, n + 1), .nothing (Nat.le_succ n), ?_⟩
        refine bind (requireActor hactor) (bind (getProject_found hallowed hq) (bind freshId
          (bind_error ?_ rfl)))
        rw [hread]
        exact failed rfl
      | valid r =>
        obtain ⟨hid, hnamed, ⟨s, hspells, hfreelancer⟩, hverdict⟩ :=
          Proposal.readFields_new hread hactor
        have hkeyed := allowed_of_spells hallowed hspells hoctets
        cases hkey : actor.isKey with
        | true =>
          obtain ⟨u, rfl, rfl⟩ := Name.exists_of_spells hspells hkey
          exact ⟨_, _, .proposalAdded (hspells.truthy_iff.1 hactor) hq hid
            (hnamed.unique (Value.text_spells_iff.2 rfl)) hfreelancer hverdict,
            addProposal_listed hallowed hactor hkeyed hq hread⟩
        | false =>
          exact ⟨_, _, .proposalUnlisted hkey hspells hid,
            addProposal_unlisted hallowed hactor hkeyed hkey hq hread⟩
    · exact ⟨.error e, (L, n), .nothing (Nat.le_refl n),
        bind (requireActor hactor) (bind_error hmissing rfl)⟩
  · exact ⟨.error .notLoggedIn, (L, n), .nothing (Nat.le_refl n),
      bind_error (requireActor_refused hactor) rfl⟩

theorem ownedProject {q : Posting} (hq : L.posting? q.id = some q) :
    Gives allowed ids (Catalog.ownedProject (.text q.owner) (.text q.id)) (L, n)
      (· = .ok q.toDocument) (L, n) := by
  have howner : q.toDocument.field "owner" = .ok (.text q.owner) := by
    rw [Posting.toDocument, Value.field, q.get_owner]
  refine bind (getProject_found hallowed hq) (bind (attempt howner) ?_)
  rw [if_pos (Value.same_text_iff.2 rfl)]
  exact done rfl

theorem ownedProject_cases (ids : Nat → String) (L : Ledger) (n : Nat) (actor : Value) {id : Value}
    (hid : allowed id) :
    (∃ q : Posting, actor = .text q.owner ∧ id = .text q.id ∧ L.posting? q.id = some q) ∨
      ∃ e, Gives allowed ids (Catalog.ownedProject actor id) (L, n) (· = .error e) (L, n) := by
  obtain ⟨q, rfl, hq⟩ | ⟨e, hmissing⟩ := getProject_cases ids L n hid
  · by_cases hactor : actor = .text q.owner
    · exact .inl ⟨q, hactor, rfl, hq⟩
    · right
      have howner : q.toDocument.field "owner" = .ok (.text q.owner) := by
        rw [Posting.toDocument, Value.field, q.get_owner]
      refine ⟨.forbidden, bind (getProject_found hallowed hq) (bind (attempt howner) ?_)⟩
      rw [if_neg fun h => hactor (Value.text_same_iff.1 h)]
      exact failed rfl
  · exact .inr ⟨e, bind_error hmissing rfl⟩

theorem hireFreelancer_found {q : Posting} {r : Proposal} (freelancer : Value)
    (hq : L.posting? q.id = some q) (hr : L.proposal? r.id = some r) :
    Gives allowed ids (Catalog.hireFreelancer (.text q.id) (.text r.id) freelancer) (L, n)
      (· = .ok (some (q.hiring freelancer).toDocument))
      ((L.withProposal { r with verdict := some "hired" }).withPosting (q.hiring freelancer), n) := by
  refine bind (getProject_found hallowed hq) (bind (getProposal_found hallowed hr) ?_)
  have hverdict : r.fields.put "verdict" Catalog.hired =
      Proposal.fields { r with verdict := some "hired" } := rfl
  refine bind (updateProposal hallowed hr (fun _ => rfl) hverdict rfl) ?_
  refine bind (attempt (itemsOf_freelancers q)) ?_
  exact updatePosting hallowed hq (fun _ => rfl) (q.fields_hiring freelancer).symm (q.id_hiring freelancer)

theorem hireFreelancer {project proposal : Value} (freelancer : Value) (hproject : allowed project)
    (hproposal : allowed proposal) :
    ∃ outcome after, Effect ids (.hireFreelancer project proposal freelancer) (L, n) after ∧
      Gives allowed ids (Catalog.hireFreelancer project proposal freelancer) (L, n) (· = outcome)
        after := by
  obtain ⟨q, rfl, hq⟩ | ⟨e, hmissing⟩ := getProject_cases ids L n hproject
  · obtain ⟨r, rfl, hr⟩ | ⟨e, hmissing⟩ := getProposal_cases ids L n hproposal
    · exact ⟨_, _, .freelancerHired hq hr, hireFreelancer_found hallowed freelancer hq hr⟩
    · exact ⟨.error e, (L, n), .nothing (Nat.le_refl n),
        bind (getProject_found hallowed hq) (bind_error hmissing rfl)⟩
  · exact ⟨.error e, (L, n), .nothing (Nat.le_refl n), bind_error hmissing rfl⟩

theorem deleteProject_owned {q : Posting} (howner : q.owner ≠ "") (hq : L.posting? q.id = some q) :
    Gives allowed ids (Catalog.deleteProject (.text q.owner) (.text q.id)) (L, n) (· = .ok ())
      ((L.unlisting (.text q.owner) q.id).withoutPosting q.id, n) := by
  have hkey : allowed (Name.text q.owner).value := hallowed q.owner
  have hitems : Gives allowed ids (Catalog.userItems (.text q.owner) "projects") (L, n)
      (· = .ok ((L.user (.text q.owner)).projects.map .text)) (L, n) :=
    userItems hkey Account.get_projects fun _ => rfl
  have htruthy : (Value.text q.owner).truthy = true := by simpa using howner
  refine bind (requireActor htruthy) (bind (ownedProject hallowed hq) (bind hitems ?_))
  by_cases hmem : q.id ∈ (L.user (.text q.owner)).projects
  · rw [if_pos (Value.text_memberOf_texts.2 hmem), Value.eraseSame_texts]
    refine bind (unlistProject hallowed hmem) (bind (deletePosting hallowed ?_) (done rfl))
    rw [L.posting?_unlisting, hq]
  · rw [if_neg fun h => hmem (Value.text_memberOf_texts.1 h), Ledger.unlisting, if_neg hmem]
    exact bind (deletePosting hallowed hq) (done rfl)

theorem deleteProject (actor : Value) {id : Value} (hid : allowed id) :
    ∃ outcome after, Effect ids (.deleteProject actor id) (L, n) after ∧
      Gives allowed ids (Catalog.deleteProject actor id) (L, n) (· = outcome) after := by
  by_cases hactor : actor.truthy = true
  · obtain ⟨q, rfl, rfl, hq⟩ | ⟨e, hrefused⟩ := ownedProject_cases hallowed ids L n actor hid
    · exact ⟨.ok (), _, .projectDeleted (truthy_text_ne hactor) hq,
        deleteProject_owned hallowed (truthy_text_ne hactor) hq⟩
    · exact ⟨.error e, (L, n), .nothing (Nat.le_refl n),
        bind (requireActor hactor) (bind_error hrefused rfl)⟩
  · exact ⟨.error .notLoggedIn, (L, n), .nothing (Nat.le_refl n),
      bind_error (requireActor_refused hactor) rfl⟩

theorem updateProject_valid {q : Posting} {changed : Fields} {p : Project} (howner : q.owner ≠ "")
    (hq : L.posting? q.id = some q) (hlocked : Catalog.refuseLocked (.object changed) = .done ())
    (hnames : ∀ key ∈ Fields.keys changed, key ∈ Catalog.editableFields)
    (hread : Project.readFields (q.fields.putAll changed) = .valid p) :
    Gives allowed ids (Catalog.updateProject (.text q.owner) (.text q.id) (.object changed)) (L, n)
      (· = .ok (some (Posting.toDocument { q with project := p })))
      (L.withPosting { q with project := p }, n) := by
  have htruthy : (Value.text q.owner).truthy = true := by simpa using howner
  refine bind (requireActor htruthy) (bind (ownedProject hallowed hq) ?_)
  rw [hlocked, changedProject_of_valid hread]
  have hrevised := Posting.revised_of_readFields hread hnames
  exact bind (done rfl) (bind (done rfl) (updateRevised hallowed hq hrevised hnames))

theorem updateProject (actor changes : Value) {id : Value} (hid : allowed id) :
    ∃ outcome after, Effect ids (.updateProject actor id changes) (L, n) after ∧
      Gives allowed ids (Catalog.updateProject actor id changes) (L, n) (· = outcome) after := by
  by_cases hactor : actor.truthy = true
  · obtain ⟨q, rfl, rfl, hq⟩ | ⟨e, hrefused⟩ := ownedProject_cases hallowed ids L n actor hid
    · obtain ⟨hlocked, hnames⟩ | ⟨e, hlocked⟩ := refuseLocked_cases changes
      · cases hchanged : Catalog.changedProject (.text q.id) q.toDocument changes with
        | error e =>
          refine ⟨.error e, (L, n), .nothing (Nat.le_refl n), ?_⟩
          refine bind (requireActor hactor) (bind (ownedProject hallowed hq) ?_)
          rw [hlocked, hchanged]
          exact bind (done rfl) (bind_error (failed rfl) rfl)
        | ok updates =>
          obtain ⟨changed, p, rfl, hread, -⟩ := changedProject_eq_ok hchanged
          have hrevised := Posting.revised_of_readFields hread (hnames changed rfl)
          exact ⟨.ok (some (Posting.toDocument { q with project := p })), _,
            .projectChanged (truthy_text_ne hactor) hq hrevised (hnames changed rfl),
            updateProject_valid hallowed (truthy_text_ne hactor) hq hlocked (hnames changed rfl) hread⟩
      · refine ⟨.error e, (L, n), .nothing (Nat.le_refl n), ?_⟩
        refine bind (requireActor hactor) (bind (ownedProject hallowed hq) ?_)
        rw [hlocked]
        exact bind_error (failed rfl) rfl
    · exact ⟨.error e, (L, n), .nothing (Nat.le_refl n),
        bind (requireActor hactor) (bind_error hrefused rfl)⟩
  · exact ⟨.error .notLoggedIn, (L, n), .nothing (Nat.le_refl n),
      bind_error (requireActor_refused hactor) rfl⟩

end

theorem map {α β : Type} {p : BoardProgram α} {o : Except Failure α} {before after : Ledger × Nat}
    (h : Gives allowed ids p before (· = o) after) (f : α → β) :
    Gives allowed ids (p.bind fun a => .done (f a)) before (· = o.map f) after := by
  cases o with
  | error e => exact bind_error h rfl
  | ok a => exact bind h (done rfl)

end Gives

namespace Operation

/-- The ids that an operation looks up are allowed. Of the actors who add something this matters only
for octets: what is no text otherwise is refused before it is looked up. -/
def Allows (allowed : Value → Prop) : Operation → Prop
  | .getProject id => allowed id
  | .getProposal id => allowed id
  | .getUserProjects user => allowed user
  | .getUserCurrentProjects user => allowed user
  | .getUserActiveProjects user => allowed user
  | .getProjectsByUserProposals user => allowed user
  | .getProposalsByUser user => allowed user
  | .getProjectProposals project => allowed project
  | .addProposal actor project _ _ =>
    allowed project ∧ ∀ fixed octets, actor = .bytes fixed octets → allowed actor
  | .addProject actor _ _ _ _ => ∀ fixed octets, actor = .bytes fixed octets → allowed actor
  | .updateProject _ id _ => allowed id
  | .deleteProject _ id => allowed id
  | .hireFreelancer project proposal _ => allowed project ∧ allowed proposal

/-- An operation that does not only read has an outcome and an effect, which do not depend on the
store. -/
theorem gives_effect {allowed : Value → Prop} (hallowed : ∀ s, allowed (.text s))
    (ids : Nat → String) (L : Ledger) (n : Nat) {o : Operation} (ho : o.Allows allowed)
    (hreads : ¬ o.OnlyReads) :
    ∃ outcome after, Effect ids o (L, n) after ∧
      Gives allowed ids o.program (L, n) (· = outcome) after := by
  cases o with
  | addProposal actor project letter budget =>
    exact Gives.addProposal hallowed actor letter budget ho.1 ho.2
  | addProject actor title scope budget skills =>
    exact Gives.addProject hallowed actor title scope budget skills ho
  | updateProject actor id changes =>
    obtain ⟨outcome, after, heffect, hgives⟩ := Gives.updateProject hallowed actor changes ho
    exact ⟨_, after, heffect, hgives.map fun v => v.getD .null⟩
  | deleteProject actor id =>
    obtain ⟨outcome, after, heffect, hgives⟩ := Gives.deleteProject hallowed actor ho
    exact ⟨_, after, heffect, hgives.map fun _ => Value.null⟩
  | hireFreelancer project proposal freelancer =>
    obtain ⟨outcome, after, heffect, hgives⟩ := Gives.hireFreelancer hallowed freelancer ho.1 ho.2
    exact ⟨_, after, heffect, hgives.map fun v => v.getD .null⟩
  | _ => exact absurd trivial hreads

end Operation

end FreelanceBoard
