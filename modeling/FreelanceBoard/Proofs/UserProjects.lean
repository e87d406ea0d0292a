import FreelanceBoard.Proofs.MemoryRuns

/-! The projects that belong to a user, joined from three collections: the lists of ids in the record
of the user, the proposals with such an id, and the projects with an id that was found. Each reading
is a filter of the stored projects, so ids that lead nowhere, that are repeated, or that several
proposals share neither fail nor lose nor repeat a project. -/
namespace FreelanceBoard

theorem Value.memberOf_iff_mem {v : Value} {items : List Value} (h : ∀ w ∈ items, ∃ t, w = .text t) :
    v.memberOf items = true ↔ v ∈ items := by
  rw [memberOf, List.any_eq_true]
  constructor
  · rintro ⟨w, hw, hsame⟩
    obtain ⟨t, rfl⟩ := h w hw
    rw [text_same_iff.1 hsame]
    exact hw
  · intro hv
    obtain ⟨t, rfl⟩ := h v hv
    exact ⟨_, hv, text_same_iff.2 rfl⟩

namespace Memory

open Collection

variable {ids : Nat → String} {m : Memory} {n : Nat} {user : Value}

/-- The lists of ids of a user are lists of texts, or are not there, and every proposal names the
project that it is for. -/
structure Referring (m : Memory) : Prop where
  lists : ∀ e ∈ m.entries users, ∀ field ∈ ["projects", "proposals"],
    Fields.get e.record field = .null ∨
      ∃ items, Fields.get e.record field = .list items ∧ ∀ v ∈ items, ∃ t, v = .text t
  projects : ∀ e ∈ m.entries proposals, ∃ t, e.record.lookup "project_id" = some (.text t)

def Lists (m : Memory) (user : Value) (field : String) (id : Value) : Prop :=
  ∃ r items, m.record? users user = some r ∧ Fields.get r field = .list items ∧ id ∈ items

def Owned (m : Memory) (user : Value) (project : Fields) : Prop :=
  m.Lists user "projects" (Fields.get project "id")

/-- A proposal that the user lists, and of which `P` holds, is for the project. -/
def ProposedFor (m : Memory) (user : Value) (P : Fields → Prop) (project : Fields) : Prop :=
  ∃ e ∈ m.entries proposals, m.Lists user "proposals" (Fields.get e.record "id") ∧ P e.record ∧
    Fields.get e.record "project_id" = Fields.get project "id"

def Accepted (proposal : Fields) : Prop := Fields.get proposal "verdict" = .text "hired"

/-- A project that is published and has freelancers. -/
def Current (project : Fields) : Prop :=
  (Fields.get project "is_published").truthy = true ∧
    (Fields.get project "freelancers").truthy = true

/-- A program changes nothing and gives the stored projects of which `P` holds, each once and in the
order in which they are stored. -/
def GivesProjects (ids : Nat → String) (m : Memory) (n : Nat) (p : BoardProgram (List Value))
    (P : Fields → Prop) : Prop :=
  ∃ wanted : Fields → Bool, (∀ r, wanted r = true ↔ P r) ∧
    Ends ids p (m, n)
      (.ok (Entries.records ((m.entries projects).filter fun e => wanted e.record))) (m, n)

namespace Referring

theorem exists_items (h : m.Referring) (hkey : user.isKey = true) (field : String)
    (hfield : field ∈ ["projects", "proposals"]) :
    ∃ items, m.userItems user field = .ok items ∧ (∀ v ∈ items, ∃ t, v = .text t) ∧
      ∀ id, id ∈ items ↔ m.Lists user field id := by
  rw [userItems, if_pos hkey]
  cases hr : m.record? users user with
  | none => exact ⟨[], rfl, by simp, by simp [Lists, hr]⟩
  | some r =>
    have hitems : Catalog.itemsOf (.object r) field = (Fields.get r field).elementsOrNone := rfl
    obtain ⟨e, he, rfl⟩ := slotOf?_of_record? hr
    simp only [hitems, Lists, hr]
    obtain hnull | ⟨items, hlist, htexts⟩ := h.lists e (Entries.mem_of_slotOf? he) field hfield
    · rw [hnull]
      exact ⟨[], rfl, by simp, by simp [hnull]⟩
    · rw [hlist]
      refine ⟨items, ?_, htexts, by simp [hlist]⟩
      cases items <;> rfl

end Referring

theorem Ends.find_of_admits (ids : Nat → String) (n : Nat) {name : String} {p : Predicate}
    (keep : Fields → Bool)
    (h : ∀ e ∈ m.entries name, p.admits (.object e.record) = .ok (keep e.record)) :
    Ends ids (Catalog.find name p) (m, n)
      (.ok (Entries.records ((m.entries name).filter fun e => keep e.record))) (m, n) := by
  have hselect : select (some p) (m.contents name) =
      .ok (Entries.records ((m.entries name).filter fun e => keep e.record)) := Value.keepIf_map h
  rw [Ends, Catalog.find, Board.run_onStore, Store.find, Program.run_call, handle, hselect]
  rfl

namespace GivesProjects

variable {p : BoardProgram (List Value)} {P Q : Fields → Prop}

theorem bind {α : Type} {p : BoardProgram α} {f : α → BoardProgram (List Value)} {a : α}
    (hp : Ends ids p (m, n) (.ok a) (m, n)) (hf : GivesProjects ids m n (f a) P) :
    GivesProjects ids m n (p.bind f) P := by
  obtain ⟨wanted, hwanted, hends⟩ := hf
  exact ⟨wanted, hwanted, .bind hp hends⟩

theorem congr (h : GivesProjects ids m n p P) (hPQ : ∀ r, P r ↔ Q r) : GivesProjects ids m n p Q := by
  obtain ⟨wanted, hwanted, hends⟩ := h
  exact ⟨wanted, fun r => (hwanted r).trans (hPQ r), hends⟩

theorem none (h : ∀ r, ¬ P r) : GivesProjects ids m n (.done []) P := by
  refine ⟨fun _ => false, fun r => by simp [h r], ?_⟩
  rw [List.filter_eq_nil_iff.2 fun _ _ => by simp]
  exact .done _

theorem sublist {q : BoardProgram (List Value)} (hp : GivesProjects ids m n p P)
    (hq : GivesProjects ids m n q Q) (hQP : ∀ r, Q r → P r) :
    ∃ all some : List Value, Ends ids p (m, n) (.ok all) (m, n) ∧
      Ends ids q (m, n) (.ok some) (m, n) ∧ some.Sublist all := by
  obtain ⟨wanted, hwanted, hall⟩ := hp
  obtain ⟨narrowed, hnarrowed, hsome⟩ := hq
  refine ⟨_, _, hall, hsome, ?_⟩
  have hboth : ((m.entries projects).filter fun e => narrowed e.record) =
      ((m.entries projects).filter fun e => wanted e.record).filter fun e => narrowed e.record := by
    rw [List.filter_filter]
    refine List.filter_congr fun e _ => ?_
    cases hn : narrowed e.record with
    | false => rfl
    | true => rw [(hwanted _).2 (hQP _ ((hnarrowed _).1 hn)), Bool.and_self]
  rw [hboth]
  exact List.filter_sublist.map _

theorem projectsByIds (ids : Nat → String) (m : Memory) (n : Nat) {items : List Value}
    (hitems : ∀ v ∈ items, ∃ t, v = .text t) :
    GivesProjects ids m n (Catalog.projectsByIds items) fun r => Fields.get r "id" ∈ items := by
  cases items with
  | nil => exact none fun r => List.not_mem_nil
  | cons v vs =>
    have hends := Ends.find_of_admits ids n (p := .among "id" (v :: vs))
      (fun r => (Fields.get r "id").memberOf (v :: vs)) fun e (_ : e ∈ m.entries projects) => rfl
    exact ⟨_, fun r => Value.memberOf_iff_mem hitems, hends⟩

theorem projectsOfProposals (hm : m.Referring) {q : Predicate} {keep : Fields → Bool}
    (hkeep : ∀ r, q.admits (.object r) = .ok (keep r)) :
    GivesProjects ids m n (Catalog.projectsOfProposals q) fun r =>
      ∃ e ∈ m.entries proposals, keep e.record = true ∧
        Fields.get e.record "project_id" = Fields.get r "id" := by
  have hget : ∀ e ∈ m.entries proposals, ∃ t,
      e.record.lookup "project_id" = some (.text t) ∧ Fields.get e.record "project_id" = .text t := by
    intro e he
    obtain ⟨t, ht⟩ := hm.projects e he
    exact ⟨t, ht, Fields.get_of_lookup ht⟩
  have hfind : Ends ids (Catalog.find proposals q) (m, n)
      (.ok (Entries.records ((m.entries proposals).filter fun e => keep e.record))) (m, n) :=
    Ends.find_of_admits ids n keep fun e _ => hkeep e.record
  have hcollect : Value.collect (fun v => v.item "project_id")
      (Entries.records ((m.entries proposals).filter fun e => keep e.record)) =
        .ok (((m.entries proposals).filter fun e => keep e.record).map fun e =>
          Fields.get e.record "project_id") := by
    refine Value.collect_map fun e he => ?_
    obtain ⟨t, hlookup, hvalue⟩ := hget e (List.mem_of_mem_filter he)
    rw [Value.item, hlookup, hvalue]
  refine bind hfind (bind (Ends.attempt_ok hcollect) ((projectsByIds ids m n ?_).congr fun r => ?_))
  · intro v hv
    obtain ⟨e, he, rfl⟩ := List.mem_map.1 hv
    obtain ⟨t, -, hvalue⟩ := hget e (List.mem_of_mem_filter he)
    exact ⟨t, hvalue⟩
  · simp only [List.mem_map, List.mem_filter, and_assoc]

/-- Of a user who lists no proposals nothing is looked up. -/
theorem ofListed (hm : m.Referring) (hkey : user.isKey = true) {q : List Value → Predicate}
    (keep : List Value → Fields → Bool)
    (hq : ∀ items r, (q items).admits (.object r) = .ok (keep items r))
    (hkeep : ∀ items, (∀ v ∈ items, ∃ t, v = .text t) → ∀ r,
      keep items r = true ↔ Fields.get r "id" ∈ items ∧ P r) :
    GivesProjects ids m n ((Catalog.userItems user "proposals").bind fun items =>
      if items.isEmpty then .done [] else Catalog.projectsOfProposals (q items))
      (m.ProposedFor user P) := by
  obtain ⟨items, hitems, htexts, hlists⟩ := hm.exists_items hkey "proposals" (by simp)
  have hread := Ends.userItems ids m n user "proposals"
  rw [hitems] at hread
  refine bind hread ?_
  have hfound : ∀ r, m.ProposedFor user P r ↔ ∃ e ∈ m.entries proposals,
      keep items e.record = true ∧ Fields.get e.record "project_id" = Fields.get r "id" := by
    intro r
    simp only [ProposedFor, hkeep items htexts, hlists, and_assoc]
  cases items with
  | nil =>
    refine none fun r hr => ?_
    obtain ⟨e, -, hlisted, -⟩ := hr
    exact List.not_mem_nil ((hlists _).2 hlisted)
  | cons v vs => exact (projectsOfProposals hm (hq _)).congr fun r => (hfound r).symm

theorem owned (ids : Nat → String) (hm : m.Referring) (n : Nat) (hkey : user.isKey = true) :
    GivesProjects ids m n (Catalog.getUserProjects user) (m.Owned user) := by
  obtain ⟨items, hitems, htexts, hlists⟩ := hm.exists_items hkey "projects" (by simp)
  have hread := Ends.userItems ids m n user "projects"
  rw [hitems] at hread
  exact bind hread ((projectsByIds ids m n htexts).congr fun r => hlists _)

theorem proposed (ids : Nat → String) (hm : m.Referring) (n : Nat) (hkey : user.isKey = true) :
    GivesProjects ids m n (Catalog.getProjectsByUserProposals user)
      (m.ProposedFor user fun _ => True) := by
  refine ofListed hm hkey (q := fun items => .among "id" items)
    (fun items r => (Fields.get r "id").memberOf items) (fun _ _ => rfl) ?_
  intro items htexts r
  rw [Value.memberOf_iff_mem htexts, and_true]

theorem active (ids : Nat → String) (hm : m.Referring) (n : Nat) (hkey : user.isKey = true) :
    GivesProjects ids m n (Catalog.getUserActiveProjects user) (m.ProposedFor user Accepted) := by
  refine ofListed hm hkey (q := fun items => .all [.among "id" items, .eq "verdict" Catalog.hired])
    (fun items r => (Fields.get r "id").memberOf items &&
      (Fields.get r "verdict").same Catalog.hired) ?_ ?_
  · intro items r
    have hid : (Predicate.among "id" items).admits (.object r) =
        .ok ((Fields.get r "id").memberOf items) := rfl
    have hverdict : (Predicate.eq "verdict" Catalog.hired).admits (.object r) =
        .ok ((Fields.get r "verdict").same Catalog.hired) := rfl
    have hboth : ∀ a b, (Predicate.all [a, b]).admits (.object r) =
        Predicate.admitsAll [a, b] (.object r) := fun _ _ => rfl
    rw [hboth, Predicate.admitsAll, Predicate.admitsAll, hid, hverdict]
    cases (Fields.get r "id").memberOf items <;>
      cases (Fields.get r "verdict").same Catalog.hired <;> rfl
  · intro items htexts r
    rw [Bool.and_eq_true, Value.memberOf_iff_mem htexts]
    exact and_congr_right fun _ => Value.same_text_iff

theorem current (ids : Nat → String) (hm : m.Referring) (n : Nat) (hkey : user.isKey = true) :
    GivesProjects ids m n (Catalog.getUserCurrentProjects user)
      fun r => m.Owned user r ∧ Current r := by
  obtain ⟨wanted, hwanted, howned⟩ := owned ids hm n hkey
  let keep : Fields → Bool := fun r =>
    (Fields.get r "is_published").truthy && (Fields.get r "freelancers").truthy
  have htest : ∀ r, Catalog.isCurrent (.object r) = .ok (keep r) := by
    intro r
    have hfield : ∀ key, (Value.object r).field key = .ok (Fields.get r key) := fun _ => rfl
    rw [Catalog.isCurrent, hfield, hfield]
    cases hp : (Fields.get r "is_published").truthy <;> simp [keep, hp, Except.map]
  have hkept : Value.keepIf Catalog.isCurrent
      (Entries.records ((m.entries projects).filter fun e => wanted e.record)) =
        .ok (Entries.records ((m.entries projects).filter fun e => wanted e.record && keep e.record)) := by
    rw [Entries.records, Value.keepIf_map fun e _ => htest e.record, List.filter_filter]
    simp only [Bool.and_comm]
    rfl
  refine ⟨fun r => wanted r && keep r, fun r => ?_, .bind howned (Ends.attempt_ok hkept)⟩
  rw [Bool.and_eq_true, Bool.and_eq_true, hwanted]
  rfl

end GivesProjects

end Memory

/-- Asked for the projects of a user, for those that the user has made proposals for, for those of
them with an accepted proposal, and for the current ones, the catalog gives exactly these of the
stored projects, whatever the lists of the user and the proposals refer to. -/
theorem projects_of_user_joined (ids : Nat → String) {m : Memory} (hm : m.Referring) (n : Nat)
    {user : Value} (hkey : user.isKey = true) :
    Memory.GivesProjects ids m n (Catalog.getUserProjects user) (m.Owned user) ∧
    Memory.GivesProjects ids m n (Catalog.getProjectsByUserProposals user)
      (m.ProposedFor user fun _ => True) ∧
    Memory.GivesProjects ids m n (Catalog.getUserActiveProjects user)
      (m.ProposedFor user Memory.Accepted) ∧
    Memory.GivesProjects ids m n (Catalog.getUserCurrentProjects user)
      (fun r => m.Owned user r ∧ Memory.Current r) ∧
    ∃ proposed active : List Value,
      Memory.Ends ids (Catalog.getProjectsByUserProposals user) (m, n) (.ok proposed) (m, n) ∧
      Memory.Ends ids (Catalog.getUserActiveProjects user) (m, n) (.ok active) (m, n) ∧
      active.Sublist proposed := by
  have hproposed := Memory.GivesProjects.proposed ids hm n hkey
  have hactive := Memory.GivesProjects.active ids hm n hkey
  refine ⟨.owned ids hm n hkey, hproposed, hactive, .current ids hm n hkey,
    hproposed.sublist hactive fun r hr => ?_⟩
  obtain ⟨e, he, hlisted, -, hproject⟩ := hr
  exact ⟨e, he, hlisted, trivial, hproject⟩

/-- A user with repeated ids and with ids of what is not there, and with two proposals for a project. -/
theorem projects_of_user_joined_dangling :
    let first : Fields := [("id", .text "P1"), ("is_published", .bool true),
      ("freelancers", .texts ["U2"])]
    let second : Fields := [("id", .text "P2"), ("freelancers", .texts ["U2"])]
    let third : Fields := [("id", .text "P3")]
    let proposal (id project : String) (verdict : Value) : Entry := ⟨.text id, [("id", .text id),
      ("project_id", .text project), ("verdict", verdict)]⟩
    let m : Memory := .holding [
      ("projects", [⟨.text "P3", third⟩, ⟨.text "P1", first⟩, ⟨.text "P2", second⟩]),
      ("proposals", [proposal "R1" "P3" .null, proposal "R2" "P1" (.text "hired"),
        proposal "R3" "P3" (.text "declined"), proposal "R4" "P8" (.text "hired")]),
      ("users", [⟨.text "U1", [("id", .text "U1"), ("projects", .texts ["P2", "P9", "P1", "P2"]),
        ("proposals", .texts ["R4", "R3", "R2", "R1", "R7"])]⟩, ⟨.text "U2", [("projects", .null)]⟩])]
    let user : Value := .text "U1"
    m.Referring ∧
      Memory.GivesProjects longerIds m 0 (Catalog.getUserProjects user) (m.Owned user) ∧
      Memory.Ends longerIds (Catalog.getUserProjects user) (m, 0)
        (.ok [.object first, .object second]) (m, 0) ∧
      Memory.GivesProjects longerIds m 0 (Catalog.getUserActiveProjects user)
        (m.ProposedFor user Memory.Accepted) ∧
      Memory.Ends longerIds (Catalog.getProjectsByUserProposals user) (m, 0)
        (.ok [.object third, .object first]) (m, 0) ∧
      Memory.Ends longerIds (Catalog.getUserActiveProjects user) (m, 0) (.ok [.object first]) (m, 0) ∧
      Memory.Ends longerIds (Catalog.getUserCurrentProjects user) (m, 0) (.ok [.object first]) (m, 0) := by
  intro first second third proposal m user
  have htexts : ∀ (ts : List String), ∀ v ∈ ts.map Value.text, ∃ t, v = .text t := by
    intro ts v hv
    obtain ⟨t, -, rfl⟩ := List.mem_map.1 hv
    exact ⟨t, rfl⟩
  have hm : m.Referring := by
    refine ⟨fun e he field hfield => ?_, fun e he => ?_⟩
    · have hmem : e ∈ [⟨.text "U1", [("id", .text "U1"), ("projects", .texts ["P2", "P9", "P1", "P2"]),
        ("proposals", .texts ["R4", "R3", "R2", "R1", "R7"])]⟩,
        (⟨.text "U2", [("projects", .null)]⟩ : Entry)] := he
      simp only [List.mem_cons, List.not_mem_nil, or_false] at hmem hfield
      rcases hmem with rfl | rfl
      · rcases hfield with rfl | rfl <;> exact .inr ⟨_, rfl, htexts _⟩
      · rcases hfield with rfl | rfl <;> exact .inl rfl
    · have hmem : e ∈ [proposal "R1" "P3" .null, proposal "R2" "P1" (.text "hired"),
        proposal "R3" "P3" (.text "declined"), proposal "R4" "P8" (.text "hired")] := he
      simp only [List.mem_cons, List.not_mem_nil, or_false] at hmem
      rcases hmem with rfl | rfl | rfl | rfl <;> exact ⟨_, rfl⟩
  obtain ⟨howned, -, hactive, -, -⟩ := projects_of_user_joined longerIds hm 0 (Value.isKey_text "U1")
  exact ⟨hm, howned, rfl, hactive, rfl, rfl, rfl⟩

end FreelanceBoard
