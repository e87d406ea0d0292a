import FreelanceBoard.Proofs.CatalogMemory
import FreelanceBoard.Proofs.Tables

/-! What programs on the board come to on a store in memory, whatever its records are: what each call
answers and writes, and from these what the steps do that the operations of the catalog share. -/
namespace FreelanceBoard

namespace Memory

open Collection

/-- The record that a collection has under a key. -/
def record? (m : Memory) (name : String) (key : Value) : Option Fields :=
  ((m.entries name).slotOf? key).map Entry.record

/-- A store with a record put under a key. -/
def write (m : Memory) (name : String) (key : Value) (r : Fields) : Memory :=
  m.setTable name ((m.table name).put key r)

/-- A store without what a collection has under a key. -/
def without (m : Memory) (name : String) (key : Value) : Memory :=
  m.setTable name ((m.table name).erase key)

@[simp] theorem entries_write_self (m : Memory) (name : String) (key : Value) (r : Fields) :
    (m.write name key r).entries name = (m.entries name).put key r := entries_setTable_self m name _

@[simp] theorem entries_without_self (m : Memory) (name : String) (key : Value) :
    (m.without name key).entries name = (m.entries name).erase key := entries_setTable_self m name _

theorem entries_write_of_ne (m : Memory) {name other : String} (key : Value) (r : Fields)
    (h : other ≠ name) : (m.write name key r).entries other = m.entries other := entries_setTable_of_ne m _ h

theorem entries_without_of_ne (m : Memory) {name other : String} (key : Value) (h : other ≠ name) :
    (m.without name key).entries other = m.entries other := entries_setTable_of_ne m _ h

theorem record?_write_of_ne (m : Memory) {name other : String} (key key' : Value) (r : Fields)
    (h : other ≠ name) : (m.write name key r).record? other key' = m.record? other key' := by
  rw [record?, entries_write_of_ne m key r h]
  rfl

theorem lookup_eq {m : Memory} {name : String} {key : Value} (hkey : key.isKey = true) :
    m.lookup name key = .ok ((m.entries name).slotOf? key) := by
  rw [lookup, if_pos hkey]

theorem slotOf?_of_record? {m : Memory} {name : String} {key : Value} {r : Fields}
    (h : m.record? name key = some r) : ∃ e, (m.entries name).slotOf? key = some e ∧ e.record = r := by
  rw [record?, Option.map_eq_some_iff] at h
  exact h

theorem slotOf?_eq_none_of_record? {m : Memory} {name : String} {key : Value}
    (h : m.record? name key = none) : (m.entries name).slotOf? key = none := by
  rw [record?, Option.map_eq_none_iff] at h
  exact h

/-- The items in one of the lists of a user; one who has no record has none. -/
def userItems (m : Memory) (user : Value) (field : String) : Except Fault (List Value) :=
  if user.isKey then
    match m.record? users user with
    | some r => Catalog.itemsOf (.object r) field
    | none => .ok []
  else .error .wrongKind

theorem isKey_of_userItems {m : Memory} {user : Value} {field : String} {items : List Value}
    (h : m.userItems user field = .ok items) : user.isKey = true := by
  by_contra hkey
  rw [userItems, if_neg hkey] at h
  cases h

/-- An id appended to the items in a list of a user, who gets the record `first` where there is none. -/
def listing (m : Memory) (user : Value) (field : String) (items : List Value) (id : String)
    (first : Fields) : Memory :=
  m.write users user (match m.record? users user with
    | some r => r.put field (.list (items ++ [.text id]))
    | none => first)

/-- A project taken from the list of its owner, if it is there. -/
def unlisting (m : Memory) (owner : Value) (items : List Value) (id : Value) : Memory :=
  match m.record? users owner with
  | some r =>
    if id.memberOf items then m.write users owner (r.put "projects" (.list (id.eraseSame items)))
    else m
  | none => m

/-- A further proposer of a project, unless there is one who is the same. -/
def proposing (m : Memory) (project : Value) (record : Fields) (proposers : List Value)
    (actor : Value) : Memory :=
  if actor.memberOf proposers then m
  else m.write projects project (record.put "proposers" (.list (proposers ++ [actor])))

/-- A project with its freelancers and a further one, unless there is one who is the same. -/
def hiring (record : Fields) (freelancers : List Value) (freelancer : Value) : Fields :=
  record.put "freelancers" (.list (if freelancer.memberOf freelancers then freelancers
    else freelancers ++ [freelancer]))

theorem userItems_write_of_ne (m : Memory) {name : String} (key user : Value) (r : Fields)
    (field : String) (h : users ≠ name) :
    (m.write name key r).userItems user field = m.userItems user field := by
  rw [userItems, userItems, record?_write_of_ne m key user r h]

theorem record?_listing_of_ne (m : Memory) {name : String} (user key : Value) (field : String)
    (items : List Value) (id : String) (first : Fields) (h : name ≠ users) :
    (m.listing user field items id first).record? name key = m.record? name key :=
  record?_write_of_ne m user key _ h

theorem entries_listing_of_ne (m : Memory) {name : String} (user : Value) (field : String)
    (items : List Value) (id : String) (first : Fields) (h : name ≠ users) :
    (m.listing user field items id first).entries name = m.entries name := entries_write_of_ne m user _ h

theorem entries_unlisting_of_ne (m : Memory) {name : String} (owner : Value) (items : List Value)
    (id : Value) (h : name ≠ users) : (m.unlisting owner items id).entries name = m.entries name := by
  rw [unlisting]
  cases m.record? users owner with
  | none => rfl
  | some r =>
    by_cases hmem : id.memberOf items = true
    · simp [hmem, entries_write_of_ne m owner _ h]
    · simp [hmem]

/-- A project that is listed is listed in a record. -/
theorem unlisting_of_memberOf {m : Memory} {owner id : Value} {items : List Value}
    (hitems : m.userItems owner "projects" = .ok items) (hmem : id.memberOf items = true) :
    ∃ r, owner.isKey = true ∧ m.record? users owner = some r ∧
      m.unlisting owner items id =
        m.write users owner (r.put "projects" (.list (id.eraseSame items))) := by
  have hkey := isKey_of_userItems hitems
  rw [userItems, if_pos hkey] at hitems
  cases hr : m.record? users owner with
  | some r => exact ⟨r, hkey, rfl, by simp [unlisting, hr, hmem]⟩
  | none =>
    rw [hr] at hitems
    cases hitems
    cases hmem

theorem unlisting_of_not_memberOf {m : Memory} {owner id : Value} {items : List Value}
    (hmem : ¬ id.memberOf items = true) : m.unlisting owner items id = m := by
  rw [unlisting]
  cases m.record? users owner with
  | none => rfl
  | some r => exact if_neg hmem

theorem entries_proposing_of_ne (m : Memory) {name : String} (project : Value) (record : Fields)
    (proposers : List Value) (actor : Value) (h : name ≠ projects) :
    (m.proposing project record proposers actor).entries name = m.entries name := by
  rw [proposing]
  by_cases hmem : actor.memberOf proposers = true
  · rw [if_pos hmem]
  · rw [if_neg hmem, entries_write_of_ne m project _ h]

/-- What a program comes to on a store in memory: its outcome and the store that it leaves. -/
def Ends {α : Type} (ids : Nat → String) (p : BoardProgram α) (s : Memory × Nat)
    (outcome : Except Failure α) (t : Memory × Nat) : Prop :=
  p.run (Board.withIds ids handle) s = (outcome, t)

namespace Ends

variable {α β : Type} {ids : Nat → String} {s t u : Memory × Nat} {m : Memory} {n : Nat}

theorem done (a : α) : Ends ids (.done a) s (.ok a) s := rfl

theorem failed (e : Failure) : Ends ids (.failed e : BoardProgram α) s (.error e) s := rfl

theorem bind {p : BoardProgram α} {f : α → BoardProgram β} {a : α} {o : Except Failure β}
    (hp : Ends ids p s (.ok a) t) (hf : Ends ids (f a) t o u) : Ends ids (p.bind f) s o u := by
  rw [Ends, Program.run_bind, hp]
  exact hf

theorem bind_error {p : BoardProgram α} {f : α → BoardProgram β} {e : Failure}
    (hp : Ends ids p s (.error e) t) : Ends ids (p.bind f) s (.error e) t := by
  rw [Ends, Program.run_bind, hp]

theorem map {p : BoardProgram α} {o : Except Failure α} (h : Ends ids p s o t) (f : α → β) :
    Ends ids (p.bind fun a => .done (f a)) s (o.map f) t := by
  cases o with
  | ok a => exact bind h (done _)
  | error e => exact bind_error h

theorem freshId : Ends ids Board.freshId (m, n) (.ok (ids n)) (m, n + 1) := rfl

theorem attempt (x : Except Fault α) : Ends ids (Board.attempt x) s (Fault.lift x) s := by
  cases x <;> rfl

theorem attempt_ok {x : Except Fault α} {a : α} (h : x = .ok a) :
    Ends ids (Board.attempt x) s (.ok a) s := by
  rw [h]
  exact attempt _

theorem attempt_error {x : Except Fault α} {f : Fault} (h : x = .error f) :
    Ends ids (Board.attempt x) s (.error (.fault f)) s := by
  rw [h]
  exact attempt _

theorem findById (ids : Nat → String) (m : Memory) (n : Nat) (name : String) {key : Value}
    (hkey : key.isKey = true) :
    Ends ids (Catalog.findById name key) (m, n) (.ok ((m.record? name key).map .object)) (m, n) := by
  have hcall : handle (.findById name key) m = (.ok ((m.record? name key).map .object), m) := by
    rw [handle, lookup_eq hkey, record?, Option.map_map]
    rfl
  rw [Ends, Catalog.findById, Store.findById, Board.run_onStore, Program.run_call, hcall]
  rfl

theorem findById_error (ids : Nat → String) (m : Memory) (n : Nat) (name : String) {key : Value}
    (hkey : key.isKey ≠ true) :
    Ends ids (Catalog.findById name key) (m, n) (.error (.fault .wrongKind)) (m, n) := by
  have hcall : handle (.findById name key) m = (.error (.fault .wrongKind), m) := by
    rw [handle, lookup, if_neg hkey]
    rfl
  rw [Ends, Catalog.findById, Store.findById, Board.run_onStore, Program.run_call, hcall]

theorem insert {name : String} {key : Value} {r : Fields} (hid : r.lookup "id" = some key)
    (hkey : key.isKey = true) :
    Ends ids (Catalog.insert name r) (m, n) (.ok (.object r)) (m.write name key r, n) := by
  have hcall : handle (.insert name r) m = (.ok (.object r), m.write name key r) := by
    rw [handle, Memory.insert, hid]
    exact if_pos hkey
  rw [Ends, Catalog.insert, Store.insert, Board.run_onStore, Program.run_call, hcall]
  rfl

theorem update (ids : Nat → String) (n : Nat) {name : String} {key : Value} {r : Fields} (changes : Fields)
    (hkey : key.isKey = true) (hr : m.record? name key = some r) :
    Ends ids (Catalog.update name key changes) (m, n) (.ok (some (.object (r.putAll changes))))
      (m.write name key (r.putAll changes), n) := by
  obtain ⟨e, he, rfl⟩ := slotOf?_of_record? hr
  have hcall : handle (.update name key changes) m =
      (.ok (some (.object (e.record.putAll changes))), m.write name key (e.record.putAll changes)) := by
    rw [handle, Memory.update, lookup_eq hkey, he]
    rfl
  rw [Ends, Catalog.update, Store.update, Board.run_onStore, Program.run_call, hcall]
  rfl

theorem update_missing (ids : Nat → String) (n : Nat) {name : String} {key : Value} (changes : Fields)
    (hkey : key.isKey = true) (hr : m.record? name key = none) :
    Ends ids (Catalog.update name key changes) (m, n) (.ok none) (m, n) := by
  have hcall : handle (.update name key changes) m = (.ok none, m) := by
    rw [handle, Memory.update, lookup_eq hkey, slotOf?_eq_none_of_record? hr]
  rw [Ends, Catalog.update, Store.update, Board.run_onStore, Program.run_call, hcall]
  rfl

theorem delete (ids : Nat → String) (n : Nat) {name : String} {key : Value} {r : Fields}
    (hkey : key.isKey = true) (hr : m.record? name key = some r) :
    Ends ids (Board.onStore (Store.delete name key)) (m, n) (.ok true) (m.without name key, n) := by
  obtain ⟨e, he, -⟩ := slotOf?_of_record? hr
  have hsome : (m.entries name).isEmpty = false := by
    rw [List.isEmpty_eq_false_iff]
    exact List.ne_nil_of_mem (Entries.mem_of_slotOf? he)
  have hcall : handle (.delete name key) m = (.ok true, m.without name key) := by
    rw [handle, Memory.delete, hsome, lookup_eq hkey, he]
    rfl
  rw [Ends, Store.delete, Board.run_onStore, Program.run_call, hcall]
  rfl

theorem requireActor {actor : Value} (h : actor.truthy = true) :
    Ends ids (Catalog.requireActor actor) s (.ok ()) s := by
  rw [Catalog.requireActor, if_pos h]
  exact done ()

theorem requireActor_refused {actor : Value} (h : actor.truthy ≠ true) :
    Ends ids (Catalog.requireActor actor) s (.error .notLoggedIn) s := by
  rw [Catalog.requireActor, if_neg h]
  exact failed _

theorem userItems (ids : Nat → String) (m : Memory) (n : Nat) (user : Value) (field : String) :
    Ends ids (Catalog.userItems user field) (m, n) (Fault.lift (m.userItems user field)) (m, n) := by
  rw [Memory.userItems]
  by_cases hkey : user.isKey = true
  · rw [if_pos hkey]
    have hfind := findById ids m n users hkey
    cases hr : m.record? users user with
    | none =>
      rw [hr] at hfind
      exact bind hfind (done [])
    | some r =>
      rw [hr] at hfind
      exact bind hfind (attempt _)
  · rw [if_neg hkey]
    exact bind_error (findById_error ids m n users hkey)

theorem appendToUser (ids : Nat → String) (n : Nat) (id : String) {user : Value} {field : String}
    {items : List Value} {first : Fields} (hitems : m.userItems user field = .ok items)
    (hfirst : first.lookup "id" = some user) :
    Ends ids (Catalog.appendToUser user field id first) (m, n) (.ok ())
      (m.listing user field items id first, n) := by
  have hkey := isKey_of_userItems hitems
  have hread := userItems ids m n user field
  rw [hitems] at hread
  refine bind hread ?_
  rw [listing]
  cases hr : m.record? users user with
  | some r => exact bind (update ids n _ hkey hr) (done ())
  | none => exact bind (update_missing ids n _ hkey hr) (bind (insert hfirst hkey) (done ()))

theorem appendToUser_error {user : Value} {field id : String} {f : Fault} (first : Fields)
    (hitems : m.userItems user field = .error f) :
    Ends ids (Catalog.appendToUser user field id first) (m, n) (.error (.fault f)) (m, n) := by
  have hread := userItems ids m n user field
  rw [hitems] at hread
  exact bind_error hread

/-- A record that has to be there is given where it is there. -/
theorem findRequired (ids : Nat → String) (n : Nat) {name : String} {id : Value} {r : Fields}
    (missing : Failure) (hkey : id.isKey = true) (hr : m.record? name id = some r) :
    Ends ids ((Catalog.findById name id).bind fun found => match found with
      | some v => .done v
      | none => .failed missing) (m, n) (.ok (.object r)) (m, n) := by
  have hfind := findById ids m n name hkey
  rw [hr] at hfind
  exact bind hfind (done _)

theorem findRequired_cases (ids : Nat → String) (m : Memory) (n : Nat) (name : String) (id : Value)
    {missing : Failure} (hmissing : missing.issues? = none) :
    (∃ r, id.isKey = true ∧ m.record? name id = some r) ∨
      ∃ e, e.issues? = none ∧ Ends ids ((Catalog.findById name id).bind fun found => match found with
        | some v => .done v
        | none => .failed missing) (m, n) (.error e) (m, n) := by
  by_cases hkey : id.isKey = true
  · cases hr : m.record? name id with
    | some r => exact .inl ⟨r, hkey, rfl⟩
    | none =>
      have hfind := findById ids m n name hkey
      rw [hr] at hfind
      exact .inr ⟨missing, hmissing, bind hfind (failed _)⟩
  · exact .inr ⟨_, rfl, bind_error (findById_error ids m n name hkey)⟩

theorem getProject (ids : Nat → String) (n : Nat) {id : Value} {r : Fields} (hkey : id.isKey = true)
    (hr : m.record? projects id = some r) :
    Ends ids (Catalog.getProject id) (m, n) (.ok (.object r)) (m, n) :=
  findRequired ids n (.projectNotFound id) hkey hr

theorem getProject_cases (ids : Nat → String) (m : Memory) (n : Nat) (id : Value) :
    (∃ r, id.isKey = true ∧ m.record? projects id = some r) ∨
      ∃ e, e.issues? = none ∧ Ends ids (Catalog.getProject id) (m, n) (.error e) (m, n) :=
  findRequired_cases ids m n projects id (rfl : (Failure.projectNotFound id).issues? = none)

theorem getProposal (ids : Nat → String) (n : Nat) {id : Value} {r : Fields} (hkey : id.isKey = true)
    (hr : m.record? proposals id = some r) :
    Ends ids (Catalog.getProposal id) (m, n) (.ok (.object r)) (m, n) :=
  findRequired ids n (.proposalNotFound id) hkey hr

theorem getProposal_cases (ids : Nat → String) (m : Memory) (n : Nat) (id : Value) :
    (∃ r, id.isKey = true ∧ m.record? proposals id = some r) ∨
      ∃ e, e.issues? = none ∧ Ends ids (Catalog.getProposal id) (m, n) (.error e) (m, n) :=
  findRequired_cases ids m n proposals id (rfl : (Failure.proposalNotFound id).issues? = none)

theorem ownedProject (ids : Nat → String) (n : Nat) {actor id : Value} {r : Fields} (hkey : id.isKey = true)
    (hr : m.record? projects id = some r) (howner : (Fields.get r "owner").same actor = true) :
    Ends ids (Catalog.ownedProject actor id) (m, n) (.ok (.object r)) (m, n) := by
  refine bind (getProject ids n hkey hr) (bind (attempt_ok rfl) ?_)
  rw [if_pos howner]
  exact done _

theorem ownedProject_cases (ids : Nat → String) (m : Memory) (n : Nat) (actor id : Value) :
    (∃ r, id.isKey = true ∧ m.record? projects id = some r ∧
      (Fields.get r "owner").same actor = true) ∨
      ∃ e, e.issues? = none ∧ Ends ids (Catalog.ownedProject actor id) (m, n) (.error e) (m, n) := by
  obtain ⟨r, hkey, hr⟩ | ⟨e, he, hmissing⟩ := getProject_cases ids m n id
  · by_cases howner : (Fields.get r "owner").same actor = true
    · exact .inl ⟨r, hkey, hr, howner⟩
    · refine .inr ⟨.forbidden, rfl, bind (getProject ids n hkey hr) (bind (attempt_ok rfl) ?_)⟩
      rw [if_neg howner]
      exact failed _
  · exact .inr ⟨e, he, bind_error hmissing⟩

end Ends

end Memory

end FreelanceBoard
