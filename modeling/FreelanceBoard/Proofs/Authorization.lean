import FreelanceBoard.Proofs.Deeds

/-! Who may do what on the board, whatever its store in memory holds at first: projects are deleted
and edited by their owners only, and what a call writes about users it writes about its caller. -/
namespace FreelanceBoard

def Entry.OwnedBy (e : Entry) (actor : Value) : Prop :=
  actor.truthy = true ∧ (Fields.get e.record "owner").same actor = true

namespace Operation

def Removes (o : Operation) (e : Entry) : Prop :=
  ∃ actor id, o = .deleteProject actor id ∧ e.key.same id = true ∧ e.OwnedBy actor

def Edits (o : Operation) (e : Entry) : Prop :=
  ∃ actor id changes, o = .updateProject actor id changes ∧ e.key.same id = true ∧ e.OwnedBy actor

/-- What becomes of a project that is not removed. -/
structure Turns (o : Operation) (e e' : Entry) : Prop where
  key : e'.key = e.key
  lasting : ∀ field ∈ ["id", "owner", "is_published"],
    e'.record.lookup field = e.record.lookup field
  edited : ∀ field ∈ Catalog.editableFields,
    e'.record.lookup field ≠ e.record.lookup field → o.Edits e

/-- The caller of an operation that writes; freelancers are hired by nobody in particular. -/
def actor? : Operation → Option Value
  | .addProposal actor _ _ _ => some actor
  | .addProject actor _ _ _ _ => some actor
  | .updateProject actor _ _ => some actor
  | .deleteProject actor _ => some actor
  | _ => none

theorem Turns.refl (o : Operation) (e : Entry) : o.Turns e e :=
  ⟨rfl, fun _ _ => rfl, fun _ _ h => absurd rfl h⟩

theorem Turns.put (o : Operation) (e : Entry) {field : String} (value : Value)
    (hlasting : field ∉ ["id", "owner", "is_published"]) (hedited : field ∉ Catalog.editableFields) :
    o.Turns e ⟨e.key, e.record.put field value⟩ := by
  have hsame : ∀ other, other ≠ field → (e.record.put field value).lookup other = e.record.lookup other :=
    fun other hne => Fields.lookup_put_of_ne _ _ hne
  refine ⟨rfl, fun other hother => ?_, fun other hother hchanged => ?_⟩
  · exact hsame other fun h => hlasting (h ▸ hother)
  · exact absurd (hsame other fun h => hedited (h ▸ hother)) hchanged

theorem Turns.edit {o : Operation} {e : Entry} (hedits : o.Edits e) {changes : Fields}
    (hchanges : ∀ field ∈ Fields.keys changes, field ∈ Catalog.editableFields) :
    o.Turns e ⟨e.key, e.record.putAll changes⟩ := by
  refine ⟨rfl, fun field hfield => ?_, fun _ _ _ => hedits⟩
  have hnew : field ∉ Fields.keys changes := by
    intro hmem
    have hedited := hchanges field hmem
    simp only [Catalog.editableFields, List.mem_cons, List.not_mem_nil, or_false] at hfield hedited
    rcases hfield with rfl | rfl | rfl <;> simp at hedited
  exact Fields.lookup_putAll_of_notMem hnew

end Operation

namespace Entries

/-- What a collection becomes where entries may go, the others turn into others each in its place, and
new ones come after them. -/
inductive Becomes (goes : Entry → Prop) (turns : Entry → Entry → Prop) : Entries → Entries → Prop
  | grown (new : Entries) : Becomes goes turns [] new
  | gone {e : Entry} {t u : Entries} (h : goes e) (rest : Becomes goes turns t u) :
      Becomes goes turns (e :: t) u
  | stays {e e' : Entry} {t u : Entries} (h : turns e e') (rest : Becomes goes turns t u) :
      Becomes goes turns (e :: t) (e' :: u)

namespace Becomes

variable {goes : Entry → Prop} {turns : Entry → Entry → Prop} {t : Entries} {key : Value}

theorem append (hrefl : ∀ e, turns e e) (t new : Entries) : Becomes goes turns t (t ++ new) := by
  induction t with
  | nil => exact .grown new
  | cons e rest ih => exact .stays (hrefl e) ih

theorem refl (hrefl : ∀ e, turns e e) (t : Entries) : Becomes goes turns t t := by
  have happend : Becomes goes turns t (t ++ []) := append hrefl t []
  simpa using happend

theorem put (hrefl : ∀ e, turns e e) {e : Entry} {r : Fields} (hslot : t.slotOf? key = some e)
    (hturn : turns e ⟨e.key, r⟩) : Becomes goes turns t (t.put key r) := by
  induction t with
  | nil => simp [slotOf?] at hslot
  | cons f rest ih =>
    rw [Entries.put]
    by_cases hf : f.key.same key = true
    · rw [slotOf?_cons_of_same hf] at hslot
      cases hslot
      rw [if_pos hf]
      exact .stays hturn (refl hrefl rest)
    · rw [slotOf?_cons_of_not_same hf] at hslot
      rw [if_neg hf]
      exact .stays (hrefl f) (ih hslot)

theorem erase (hrefl : ∀ e, turns e e) (hgone : ∀ e ∈ t, e.key.same key = true → goes e) :
    Becomes goes turns t (t.erase key) := by
  induction t with
  | nil => exact .grown []
  | cons e rest ih =>
    have hrest := ih fun f hf => hgone f (List.mem_cons_of_mem _ hf)
    by_cases he : e.key.same key = true
    · have herase : Entries.erase (e :: rest) key = Entries.erase rest key := by simp [Entries.erase, he]
      rw [herase]
      exact .gone (hgone e List.mem_cons_self he) hrest
    · have herase : Entries.erase (e :: rest) key = e :: Entries.erase rest key := by
        simp [Entries.erase, he]
      rw [herase]
      exact .stays (hrefl e) hrest

end Becomes

end Entries

/-- What an operation does to the projects of a store and to the number of issued ids. -/
inductive ProjectsStep (ids : Nat → String) (o : Operation) : Entries × Nat → Entries × Nat → Prop
  | unchanged {t : Entries} {n k : Nat} (h : n ≤ k) : ProjectsStep ids o (t, n) (t, k)
  | added (t : Entries) (n : Nat) (r : Fields) :
      ProjectsStep ids o (t, n) (t.put (.text (ids n)) r, n + 1)
  | turned {t : Entries} {n k : Nat} {id : Value} {e : Entry} {r : Fields} (h : n ≤ k)
      (hslot : t.slotOf? id = some e) (hturn : o.Turns e ⟨e.key, r⟩) :
      ProjectsStep ids o (t, n) (t.put id r, k)
  | removed {t : Entries} {n k : Nat} {id : Value} {e : Entry} (h : n ≤ k)
      (hslot : t.slotOf? id = some e) (hremoved : o.Removes e) :
      ProjectsStep ids o (t, n) (t.erase id, k)

/-- No project is under an id that is yet to be issued. -/
def ReadyFor (ids : Nat → String) (t : Entries) (n : Nat) : Prop :=
  ∀ i, n ≤ i → t.slotOf? (.text (ids i)) = none

namespace ProjectsStep

variable {ids : Nat → String} {o : Operation} {t u : Entries} {n k : Nat}

theorem becomes (h : ProjectsStep ids o (t, n) (u, k)) (hkeys : t.DistinctKeys)
    (ht : ReadyFor ids t n) : t.Becomes o.Removes o.Turns u := by
  have hrefl := Operation.Turns.refl o
  cases h with
  | unchanged h => exact .refl hrefl t
  | added t n r =>
    rw [Entries.put_of_slotOf?_eq_none (Value.isKey_text _) r (ht n (Nat.le_refl n))]
    exact .append hrefl t _
  | turned h hslot hturn => exact .put hrefl hslot hturn
  | removed h hslot hremoved =>
    -- the owner was checked of the record that was found, and there is no other under the id
    refine .erase hrefl fun e he hsame => ?_
    rw [hkeys.eq_of_same hslot he hsame]
    exact hremoved

theorem fresh_of_keys {id : Value} (hkeys : ∀ e ∈ u, ∃ f ∈ t, f.key = e.key)
    (h : t.slotOf? id = none) : u.slotOf? id = none := by
  rw [Entries.slotOf?_eq_none_iff] at h ⊢
  intro e he
  obtain ⟨f, hf, hkey⟩ := hkeys e he
  rw [← hkey]
  exact h f hf

theorem readyFor (hids : Function.Injective ids) (h : ProjectsStep ids o (t, n) (u, k))
    (ht : ReadyFor ids t n) : ReadyFor ids u k := by
  cases h with
  | unchanged h => exact fun i hi => ht i (by omega)
  | added t n r =>
    intro i hi
    have hi' : ids n ≠ ids i := fun e => by
      have hni := hids e
      omega
    have hold := ht i (by omega)
    rw [Entries.slotOf?_eq_none_iff] at hold
    rw [Entries.put_of_slotOf?_eq_none (Value.isKey_text _) r (ht n (Nat.le_refl n)),
      Entries.slotOf?_eq_none_iff]
    intro e he
    rcases List.mem_append.1 he with he | he
    · exact hold e he
    · rw [List.mem_singleton.1 he]
      simpa using hi'
  | @turned _ _ _ id e r h hslot hturn =>
    refine fun i hi => fresh_of_keys (fun f hf => ?_) (ht i (by omega))
    have hmem : f.key ∈ t.map Entry.key := Entries.keys_put hslot ▸ List.mem_map_of_mem hf
    exact List.mem_map.1 hmem
  | @removed _ _ _ id e h hslot hremoved =>
    exact fun i hi => fresh_of_keys (fun f hf => ⟨f, List.mem_of_mem_filter hf, rfl⟩) (ht i (by omega))

end ProjectsStep

namespace Deed

open Memory Collection

variable {ids : Nat → String} {o : Operation} {s t : Memory × Nat} {outcome : Except Failure Value}

theorem ownedBy {e : Entry} {actor : Value} {record : Fields} (hrecord : e.record = record)
    (hactor : actor.truthy = true) (howner : (Fields.get record "owner").same actor = true) :
    e.OwnedBy actor := ⟨hactor, hrecord ▸ howner⟩

theorem projectsStep_put {m : Memory} {n k : Nat} {id : Value} {record : Fields} (h : n ≤ k)
    (hproject : m.record? projects id = some record) (field : String) (value : Value)
    (hlasting : field ∉ ["id", "owner", "is_published"]) (hedited : field ∉ Catalog.editableFields) :
    ProjectsStep ids o (m.entries projects, n)
      ((m.entries projects).put id (record.put field value), k) := by
  obtain ⟨e, hslot, rfl⟩ := slotOf?_of_record? hproject
  exact .turned h hslot (.put o e value hlasting hedited)

theorem projectsStep (h : Deed ids o s outcome t) :
    ProjectsStep ids o (s.1.entries projects, s.2) (t.1.entries projects, t.2) := by
  cases h with
  | read h => exact .unchanged (Nat.le_refl _)
  | refused hissued he => exact .unchanged hissued
  | projectAdded hactor hread hitems =>
    simp only [entries_listing_of_ne _ _ _ _ _ _ (by decide : projects ≠ users), entries_write_self]
    exact .added _ _ _
  | projectUnlisted hactor hread hitems =>
    simp only [entries_write_self]
    exact .added _ _ _
  | @proposalAdded m n actor project letter budget record r items others hactor hproject =>
    rw [proposing]
    by_cases hmem : actor.memberOf others = true
    · simp only [if_pos hmem, entries_listing_of_ne _ _ _ _ _ _ (by decide : projects ≠ users),
        entries_write_of_ne _ _ _ (by decide : projects ≠ proposals)]
      exact .unchanged (Nat.le_succ n)
    · simp only [if_neg hmem, entries_write_self,
        entries_listing_of_ne _ _ _ _ _ _ (by decide : projects ≠ users),
        entries_write_of_ne _ _ _ (by decide : projects ≠ proposals)]
      exact projectsStep_put (Nat.le_succ n) hproject "proposers" _ (by decide) (by decide)
  | proposalUnlisted hactor hproject hread hitems =>
    simp only [entries_write_of_ne _ _ _ (by decide : projects ≠ proposals)]
    exact .unchanged (Nat.le_succ _)
  | proposerUnlisted hactor hproject hread hitems hothers =>
    simp only [entries_listing_of_ne _ _ _ _ _ _ (by decide : projects ≠ users),
      entries_write_of_ne _ _ _ (by decide : projects ≠ proposals)]
    exact .unchanged (Nat.le_succ _)
  | changesInvalid hactor hproject howner hnames hread => exact .unchanged (Nat.le_refl _)
  | @projectChanged m n actor id record changed p hactor hproject howner hnames hread =>
    obtain ⟨e, hslot, hrecord⟩ := slotOf?_of_record? hproject
    have hedits : (Operation.updateProject actor id (.object changed)).Edits e :=
      ⟨actor, id, _, rfl, Entries.same_of_slotOf? hslot, ownedBy hrecord hactor howner⟩
    have hkeys : Fields.keys (Catalog.revision changed p) = Fields.keys changed := by
      simp [Fields.keys, Catalog.revision]
    subst hrecord
    simp only [entries_write_self]
    exact .turned (Nat.le_refl n) hslot (.edit hedits (hkeys ▸ hnames))
  | @projectDeleted m n actor id record items hactor hproject howner hitems =>
    obtain ⟨e, hslot, hrecord⟩ := slotOf?_of_record? hproject
    simp only [entries_without_self, entries_unlisting_of_ne _ _ _ _ (by decide : projects ≠ users)]
    exact .removed (Nat.le_refl n) hslot
      ⟨actor, id, rfl, Entries.same_of_slotOf? hslot, ownedBy hrecord hactor howner⟩
  | @freelancerHired m n project proposal freelancer record r others hproject hproposal hothers =>
    simp only [entries_write_self, entries_write_of_ne _ _ _ (by decide : projects ≠ proposals)]
    exact projectsStep_put (Nat.le_refl n) hproject "freelancers" _ (by decide) (by decide)
  | freelancerUnlisted hproject hproposal hothers =>
    simp only [entries_write_of_ne _ _ _ (by decide : projects ≠ proposals)]
    exact .unchanged (Nat.le_refl _)

theorem erase_listing (m : Memory) {user : Value} (field : String) (items : List Value) (id : String)
    (first : Fields) (huser : user.same user = true) :
    ((m.listing user field items id first).entries users).erase user = (m.entries users).erase user := by
  rw [listing, entries_write_self]
  exact Entries.erase_put fun _ => huser

theorem erase_unlisting (m : Memory) (owner : Value) (items : List Value) (id : Value) :
    ((m.unlisting owner items id).entries users).erase owner = (m.entries users).erase owner := by
  rw [unlisting]
  cases hr : m.record? users owner with
  | none => rfl
  | some r =>
    obtain ⟨e, hslot, -⟩ := slotOf?_of_record? hr
    have hfound : (m.entries users).slotOf? owner = none → owner.same owner = true := by simp [hslot]
    by_cases hmem : id.memberOf items = true
    · simp [hmem, Entries.erase_put hfound]
    · simp [hmem]

theorem erase_users (h : Deed ids o s outcome t) {actor : Value} (hactor : o.actor? = some actor) :
    (t.1.entries users).erase actor = (s.1.entries users).erase actor := by
  cases h with
  | read h => rfl
  | refused hissued he => rfl
  | projectAdded hactor' hread hitems =>
    obtain ⟨-, hspells, -⟩ := Project.readFields_new hread
    cases hactor
    rw [erase_listing _ _ _ _ _ hspells.same_self, entries_write_of_ne _ _ _ (by decide : users ≠ projects)]
  | projectUnlisted hactor' hread hitems =>
    simp only [entries_write_of_ne _ _ _ (by decide : users ≠ projects)]
  | proposalAdded hactor' hproject hread hitems hothers =>
    obtain ⟨-, -, ⟨a, hspells, -⟩, -⟩ := Proposal.readFields_new hread hactor'
    cases hactor
    rw [entries_proposing_of_ne _ _ _ _ _ (by decide : users ≠ projects),
      erase_listing _ _ _ _ _ hspells.same_self, entries_write_of_ne _ _ _ (by decide : users ≠ proposals)]
  | proposalUnlisted hactor' hproject hread hitems =>
    simp only [entries_write_of_ne _ _ _ (by decide : users ≠ proposals)]
  | proposerUnlisted hactor' hproject hread hitems hothers =>
    obtain ⟨-, -, ⟨a, hspells, -⟩, -⟩ := Proposal.readFields_new hread hactor'
    cases hactor
    rw [erase_listing _ _ _ _ _ hspells.same_self, entries_write_of_ne _ _ _ (by decide : users ≠ proposals)]
  | changesInvalid hactor' hproject howner hnames hread => rfl
  | projectChanged hactor' hproject howner hnames hread =>
    simp only [entries_write_of_ne _ _ _ (by decide : users ≠ projects)]
  | projectDeleted hactor' hproject howner hitems =>
    cases hactor
    rw [entries_without_of_ne _ _ (by decide : users ≠ projects), erase_unlisting]
  | freelancerHired hproject hproposal hothers => cases hactor
  | freelancerUnlisted hproject hproposal hothers => cases hactor

theorem users_eq (h : Deed ids o s outcome t) (hnone : o.actor? = none) :
    t.1.entries users = s.1.entries users := by
  cases h with
  | read h => rfl
  | refused hissued he => rfl
  | freelancerHired hproject hproposal hothers =>
    simp only [entries_write_of_ne _ _ _ (by decide : users ≠ projects),
      entries_write_of_ne _ _ _ (by decide : users ≠ proposals)]
  | freelancerUnlisted hproject hproposal hothers =>
    simp only [entries_write_of_ne _ _ _ (by decide : users ≠ proposals)]
  | _ => cases hnone

end Deed

open Collection in
/-- Whatever a store holds at first, at every step of every run a project is deleted or edited only
where its owner calls for that, and otherwise it stays with its id, its owner and whether it is
published; and no user's record is written but that of the caller. -/
theorem steps_respect_owners {ids : Nat → String} (hids : Function.Injective ids) {m : Memory} {n : Nat}
    (hfresh : ∀ i, n ≤ i → (m.entries projects).slotOf? (.text (ids i)) = none)
    (ops : List Operation) (o : Operation) :
    let s := (Operation.runAll (Board.withIds ids Memory.handle) ops (m, n)).2
    let t := (o.program.run (Board.withIds ids Memory.handle) s).2
    (s.1.entries projects).Becomes o.Removes o.Turns (t.1.entries projects) ∧
      (∀ actor, o.actor? = some actor →
        (t.1.entries users).erase actor = (s.1.entries users).erase actor) ∧
      (o.actor? = none → t.1.entries users = s.1.entries users) := by
  intro s t
  -- along the run no later id becomes that of a project, so what is added replaces nothing
  have hready : ReadyFor ids (s.1.entries projects) s.2 :=
    Operation.runAll_kept (fun s => ReadyFor ids (s.1.entries projects) s.2)
      (fun o a outcome b h ha => h.projectsStep.readyFor hids ha) ops hfresh
  have hdeed := Operation.run_deed ids s o
  exact ⟨hdeed.projectsStep.becomes (s.1.distinctKeys projects) hready,
    fun actor => hdeed.erase_users, hdeed.users_eq⟩

/-- A store with a number for an id: `True` names the project and `7.0` its owner as well. -/
theorem steps_respect_owners_deleted :
    let m : Memory := .holding [
      ("projects", [⟨.int 1, [("id", .int 1), ("owner", .int 7)]⟩,
        ⟨.text "b", [("id", .text "b"), ("owner", .text "u"), ("title", .text "Shop")]⟩]),
      ("users", [⟨.int 7, [("projects", .list [.int 1])]⟩, ⟨.text "u", []⟩])]
    let ops : List Operation :=
      [.updateProject (.text "u") (.text "b") (.object [("title", .text "Site")]),
       .deleteProject (.text "u") (.int 1)]
    let o := Operation.deleteProject (.float (.finite 7)) (.bool true)
    let s := (Operation.runAll (Board.withIds longerIds Memory.handle) ops (m, 0)).2
    let t := (o.program.run (Board.withIds longerIds Memory.handle) s).2
    (Function.Injective longerIds ∧
      ∀ i, 0 ≤ i → (m.entries "projects").slotOf? (.text (longerIds i)) = none) ∧
    ((s.1.entries "projects").map Entry.key = [.int 1, .text "b"] ∧
      (t.1.entries "projects").map (fun e => e.record.lookup "title") = [some (.text "Site")] ∧
      (t.1.entries "users").map Entry.record = [[("projects", .list [])], []]) ∧
    (s.1.entries "projects").Becomes o.Removes o.Turns (t.1.entries "projects") ∧
      (∀ actor, o.actor? = some actor →
        (t.1.entries "users").erase actor = (s.1.entries "users").erase actor) ∧
      (o.actor? = none → t.1.entries "users" = s.1.entries "users") := by
  intro m ops o s t
  have hfresh : ∀ i, 0 ≤ i → (m.entries "projects").slotOf? (.text (longerIds i)) = none := by
    intro i _
    have hne : "b" ≠ longerIds i := by
      intro h
      have hchars := congrArg String.toList h
      simp [longerIds] at hchars
    rw [Entries.slotOf?_eq_none_iff]
    intro e he
    rcases List.mem_pair.1 he with rfl | rfl
    · rfl
    · simpa using hne
  exact ⟨⟨longerIds_injective, hfresh⟩, ⟨rfl, rfl, rfl⟩,
    steps_respect_owners longerIds_injective hfresh ops o⟩

end FreelanceBoard
