import FreelanceBoard.Proofs.ConfinedWrites
import FreelanceBoard.Proofs.MadeProposals

/-! Hirings one after the other on a store in memory. Each of them reads the freelancers of a project,
appends one and writes them back; in the end each project lists those that were hired for it, in the
order in which they first were. A hiring that is made again changes nothing, and the order in which
hirings are made only shows in the order of the lists. -/
namespace FreelanceBoard

namespace Fields

theorem put_put (fields : Fields) (key : String) (v w : Value) :
    (fields.put key v).put key w = fields.put key w := by
  induction fields with
  | nil => simp [put]
  | cons entry rest ih =>
    obtain ⟨k, u⟩ := entry
    by_cases h : k = key
    · simp [put, h]
    · simp [put, h, ih]

theorem put_of_lookup {fields : Fields} {key : String} {v : Value} (h : fields.lookup key = some v) :
    fields.put key v = fields := by
  induction fields with
  | nil => cases h
  | cons entry rest ih =>
    obtain ⟨k, u⟩ := entry
    by_cases hk : k = key
    · subst hk
      rw [List.lookup_cons_self, Option.some_inj] at h
      simp [put, h]
    · have hbeq : (key == k) = false := by simpa using fun e => hk e.symm
      rw [List.lookup_cons, hbeq] at h
      simp [put, hk, ih h]

theorem items_put_self (fields : Fields) (field : String) (items : List Value) :
    (fields.put field (.list items)).items field = items := by
  rw [Fields.items, get_put_self]

end Fields

namespace Entries

variable {es : Entries} {key : Value} {e : Entry}

theorem put_of_slotOf? (h : es.slotOf? key = some e) : es.put key e.record = es := by
  induction es with
  | nil => cases h
  | cons a rest ih =>
    rw [put]
    by_cases ha : a.key.same key = true
    · rw [slotOf?_cons_of_same ha] at h
      cases h
      rw [if_pos ha]
    · rw [slotOf?_cons_of_not_same ha] at h
      rw [if_neg ha, ih h]

theorem slotOf?_map {f : Entry → Entry} (hf : ∀ e, (f e).key = e.key) (es : Entries) (key : Value) :
    slotOf? (es.map f) key = (es.slotOf? key).map f := by
  rw [slotOf?, slotOf?, List.find?_map]
  congr 2
  funext e
  rw [Function.comp, hf]

/-- A record put among changed records is one more change. -/
theorem put_map {f g : Entry → Entry} {r : Fields} (h : es.DistinctKeys) (hf : ∀ e, (f e).key = e.key)
    (hslot : es.slotOf? key = some e) (hput : g e = ⟨e.key, r⟩)
    (hrest : ∀ a, ¬ a.key.same key = true → g a = f a) : put (es.map f) key r = es.map g := by
  induction es with
  | nil => cases hslot
  | cons a rest ih =>
    rw [List.map_cons, List.map_cons, put, hf]
    by_cases ha : a.key.same key = true
    · rw [slotOf?_cons_of_same ha] at hslot
      cases hslot
      have hother : ∀ b ∈ rest, f b = g b := fun b hb => (hrest b (h.not_same ha hb)).symm
      rw [if_pos ha, hput, List.map_congr_left hother]
    · rw [slotOf?_cons_of_not_same ha] at hslot
      rw [if_neg ha, hrest a ha, ih h.tail hslot]

end Entries

namespace Memory

variable {m : Memory} {name : String} {key : Value} {r : Fields}

theorem putTable_of_lookup {tables : List (String × Table)} {t : Table}
    (h : tables.lookup name = some t) : putTable tables name t = tables := by
  induction tables with
  | nil => cases h
  | cons entry rest ih =>
    obtain ⟨n, u⟩ := entry
    by_cases hn : n = name
    · subst hn
      rw [List.lookup_cons_self, Option.some_inj] at h
      simp [putTable, h]
    · have hbeq : (name == n) = false := by simpa using fun e => hn e.symm
      rw [List.lookup_cons, hbeq] at h
      simp [putTable, hn, ih h]

theorem write_of_record? (h : m.record? name key = some r) : m.write name key r = m := by
  obtain ⟨e, hslot, rfl⟩ := slotOf?_of_record? h
  have hput : (m.table name).put key e.record = m.table name := Table.ext (Entries.put_of_slotOf? hslot)
  rw [write, hput]
  cases hlookup : m.tables.lookup name with
  | none =>
    rw [entries, table, hlookup] at hslot
    cases hslot
  | some t =>
    rw [setTable, table, hlookup, Option.getD_some, putTable_of_lookup hlookup]

end Memory

namespace Value

/-- Some items and then the texts that are not among them, each once and in order. -/
def followedBy (items : List Value) (texts : List String) : List Value :=
  items ++ (texts.eraseDups.filter fun s => !(Value.text s).memberOf items).map .text

theorem followedBy_nil (items : List Value) : followedBy items [] = items := by
  simp [followedBy]

theorem mem_followedBy_iff {items : List Value} {texts : List String} {v : Value} :
    v ∈ followedBy items texts ↔ v ∈ items ∨ ∃ s ∈ texts, v = .text s := by
  rw [followedBy, List.mem_append, List.mem_map]
  constructor
  · rintro (hv | ⟨s, hs, rfl⟩)
    · exact .inl hv
    · exact .inr ⟨s, List.mem_eraseDups.1 (List.mem_of_mem_filter hs), rfl⟩
  · rintro (hv | ⟨s, hs, rfl⟩)
    · exact .inl hv
    · by_cases hmem : (Value.text s).memberOf items = true
      · exact .inl (text_memberOf_iff.1 hmem)
      · exact .inr ⟨s, List.mem_filter.2 ⟨List.mem_eraseDups.2 hs, by simpa using hmem⟩, rfl⟩

theorem followedBy_concat (items : List Value) (texts : List String) (s : String) :
    followedBy items (texts ++ [s]) =
      if (Value.text s).memberOf (followedBy items texts) then followedBy items texts
      else followedBy items texts ++ [.text s] := by
  by_cases hs : s ∈ texts
  · have hmem : (Value.text s).memberOf (followedBy items texts) = true :=
      text_memberOf_iff.2 (mem_followedBy_iff.2 (.inr ⟨s, hs, rfl⟩))
    rw [if_pos hmem, followedBy, eraseDups_concat, if_pos hs]
    rfl
  · have hiff : (Value.text s).memberOf (followedBy items texts) = (Value.text s).memberOf items := by
      rw [Bool.eq_iff_iff, text_memberOf_iff, text_memberOf_iff, mem_followedBy_iff]
      simp [hs]
    rw [hiff, followedBy, eraseDups_concat, if_neg hs, List.filter_append, List.map_append,
      ← List.append_assoc, followedBy]
    by_cases hmem : (Value.text s).memberOf items = true <;> simp [hmem]

end Value

/-- A freelancer that is hired for a project, and the proposal that is accepted with it. -/
structure Hiring where
  project : Value
  proposal : Value
  freelancer : String

namespace Hiring

def operation (h : Hiring) : Operation :=
  .hireFreelancer h.project h.proposal (.text h.freelancer)

def hiredFor (hirings : List Hiring) (key : Value) : List String :=
  (hirings.filter fun h => key.same h.project).map Hiring.freelancer

def accept (hirings : List Hiring) (key : Value) : Bool := hirings.any fun h => key.same h.proposal

variable {hirings others : List Hiring} {h : Hiring} {key : Value}

theorem hiredFor_concat_of_same (hsame : key.same h.project = true) :
    hiredFor (hirings ++ [h]) key = hiredFor hirings key ++ [h.freelancer] := by
  simp [hiredFor, hsame]

theorem hiredFor_concat_of_not_same (hsame : ¬ key.same h.project = true) :
    hiredFor (hirings ++ [h]) key = hiredFor hirings key := by
  simp [hiredFor, hsame]

theorem mem_hiredFor (hmem : h ∈ hirings) (hsame : key.same h.project = true) :
    h.freelancer ∈ hiredFor hirings key :=
  List.mem_map_of_mem (List.mem_filter.2 ⟨hmem, hsame⟩)

theorem hiredFor_perm (hperm : others.Perm hirings) (key : Value) :
    (hiredFor others key).Perm (hiredFor hirings key) := (hperm.filter _).map _

end Hiring

namespace Entry

open Hiring

/-- A project once all have been hired. -/
def hiring (e : Entry) (hirings : List Hiring) : Entry :=
  if hiredFor hirings e.key = [] then e
  else ⟨e.key, e.record.put "freelancers"
    (.list (Value.followedBy (e.record.items "freelancers") (hiredFor hirings e.key)))⟩

/-- A proposal once all have been hired. -/
def accepting (e : Entry) (hirings : List Hiring) : Entry :=
  if accept hirings e.key then ⟨e.key, e.record.put "verdict" Catalog.hired⟩ else e

variable {e : Entry} {hirings others : List Hiring} {h : Hiring}

theorem key_hiring (e : Entry) (hirings : List Hiring) : (e.hiring hirings).key = e.key := by
  rw [hiring]
  split <;> rfl

theorem key_accepting (e : Entry) (hirings : List Hiring) : (e.accepting hirings).key = e.key := by
  rw [accepting]
  split <;> rfl

theorem items_hiring (e : Entry) (hirings : List Hiring) :
    (e.hiring hirings).record.items "freelancers" =
      Value.followedBy (e.record.items "freelancers") (hiredFor hirings e.key) := by
  rw [hiring]
  by_cases hnone : hiredFor hirings e.key = []
  · rw [if_pos hnone, hnone, Value.followedBy_nil]
  · rw [if_neg hnone]
    exact Fields.items_put_self _ _ _

theorem put_hiring (e : Entry) (hirings : List Hiring) (v : Value) :
    (e.hiring hirings).record.put "freelancers" v = e.record.put "freelancers" v := by
  rw [hiring]
  by_cases hnone : hiredFor hirings e.key = []
  · rw [if_pos hnone]
  · rw [if_neg hnone]
    exact Fields.put_put _ _ _ _

theorem listOrNull_hiring (hlist : (Fields.get e.record "freelancers").ListOrNull)
    (hirings : List Hiring) :
    (Fields.get (e.hiring hirings).record "freelancers").ListOrNull := by
  rw [hiring]
  by_cases hnone : hiredFor hirings e.key = []
  · rw [if_pos hnone]
    exact hlist
  · rw [if_neg hnone, Fields.get_put_self]
    exact .inr ⟨_, rfl⟩

theorem hiring_concat_of_same (hsame : e.key.same h.project = true) :
    e.hiring (hirings ++ [h]) =
      ⟨e.key, Memory.hiring (e.hiring hirings).record ((e.hiring hirings).record.items "freelancers")
        (.text h.freelancer)⟩ := by
  rw [Memory.hiring, put_hiring, items_hiring, ← Value.followedBy_concat,
    ← hiredFor_concat_of_same hsame, hiring]
  refine if_neg ?_
  rw [hiredFor_concat_of_same hsame]
  exact List.concat_ne_nil _ _

theorem hiring_concat_of_not_same (hsame : ¬ e.key.same h.project = true) :
    e.hiring (hirings ++ [h]) = e.hiring hirings := by
  rw [hiring, hiredFor_concat_of_not_same hsame, hiring]

theorem accepting_concat (e : Entry) (hirings : List Hiring) (h : Hiring) :
    e.accepting (hirings ++ [h]) =
      if e.key.same h.proposal then ⟨e.key, (e.accepting hirings).record.put "verdict" Catalog.hired⟩
      else e.accepting hirings := by
  have haccept : accept (hirings ++ [h]) e.key = (accept hirings e.key || e.key.same h.proposal) := by
    simp [accept]
  rw [accepting, accepting, haccept]
  by_cases hsame : e.key.same h.proposal = true <;> by_cases hmem : accept hirings e.key = true <;>
    simp [hsame, hmem, Fields.put_put]

/-- Who has been hired is listed, and listing the same again changes nothing. -/
theorem hiring_self (hmem : h ∈ hirings) (hsame : e.key.same h.project = true) :
    Memory.hiring (e.hiring hirings).record ((e.hiring hirings).record.items "freelancers")
      (.text h.freelancer) = (e.hiring hirings).record := by
  have hfreelancer := mem_hiredFor hmem hsame
  have hthere : (Value.text h.freelancer).memberOf
      ((e.hiring hirings).record.items "freelancers") = true := by
    rw [items_hiring, Value.text_memberOf_iff, Value.mem_followedBy_iff]
    exact .inr ⟨_, hfreelancer, rfl⟩
  rw [Memory.hiring, if_pos hthere]
  refine Fields.put_of_lookup ?_
  rw [items_hiring, hiring, if_neg (List.ne_nil_of_mem hfreelancer), Fields.lookup_put_self]

theorem accepting_self (hmem : h ∈ hirings) (hsame : e.key.same h.proposal = true) :
    (e.accepting hirings).record.put "verdict" Catalog.hired = (e.accepting hirings).record := by
  have haccept : accept hirings e.key = true := List.any_eq_true.2 ⟨h, hmem, hsame⟩
  rw [accepting, if_pos haccept]
  exact Fields.put_put _ _ _ _

theorem accepting_perm (hperm : others.Perm hirings) (e : Entry) :
    e.accepting others = e.accepting hirings := by
  rw [accepting, accepting, accept, accept, hperm.any_eq]

end Entry

namespace Memory

open Collection

/-- A store in which all have been hired: of the projects and proposals that were named the lists and
the verdicts are changed, and nothing else is. -/
structure HiredAll (m : Memory) (hirings : List Hiring) (t : Memory) : Prop where
  projects : t.entries projects = (m.entries projects).map fun e => e.hiring hirings
  proposals : t.entries proposals = (m.entries proposals).map fun e => e.accepting hirings
  others : ∀ name, name ≠ Collection.projects → name ≠ Collection.proposals →
    t.entries name = m.entries name

/-- The project and the proposal of a hiring are found. -/
def Names (m : Memory) (h : Hiring) : Prop :=
  (∃ e, m.lookup projects h.project = .ok (some e)) ∧
    ∃ q, m.lookup proposals h.proposal = .ok (some q)

/-- Two stores with the same proposals, whose projects list the same freelancers, if in another order. -/
structure SameHired (t u : Memory) : Prop where
  proposals : t.entries proposals = u.entries proposals
  projects : List.Forall₂ (fun e f : Entry => e.key = f.key ∧
    ∀ v, v ∈ e.record.items "freelancers" ↔ v ∈ f.record.items "freelancers")
    (t.entries projects) (u.entries projects)

theorem lookup_eq_some_iff {m : Memory} {name : String} {id : Value} {e : Entry} :
    m.lookup name id = .ok (some e) ↔ id.isKey = true ∧ (m.entries name).slotOf? id = some e := by
  by_cases hkey : id.isKey = true
  · simp [lookup_eq hkey, hkey]
  · simp [lookup, hkey]

namespace HiredAll

variable {m t u : Memory} {hirings others : List Hiring} {h : Hiring}

theorem nil (m : Memory) : m.HiredAll [] m where
  projects := (List.map_id _).symm
  proposals := (List.map_id _).symm
  others _ _ _ := rfl

/-- A hiring goes through where its project and its proposal were there at first; it changes nothing if
it has been made before. -/
theorem step (ht : m.HiredAll hirings t)
    (hlists : ∀ e ∈ m.entries Collection.projects, (Fields.get e.record "freelancers").ListOrNull)
    (hnamed : m.Names h) (ids : Nat → String) (n : Nat) :
    ∃ v u, Ends ids h.operation.program (t, n) (.ok v) (u, n) ∧ m.HiredAll (hirings ++ [h]) u ∧
      (h ∈ hirings → u = t) := by
  obtain ⟨⟨e, he⟩, ⟨q, hq⟩⟩ := hnamed
  obtain ⟨hkey, hslot⟩ := lookup_eq_some_iff.1 he
  obtain ⟨hkey', hslot'⟩ := lookup_eq_some_iff.1 hq
  have hsame := Entries.same_of_slotOf? hslot
  have hsame' := Entries.same_of_slotOf? hslot'
  have hproject : t.record? Collection.projects h.project = some (e.hiring hirings).record := by
    rw [record?, ht.projects, Entries.slotOf?_map fun a => a.key_hiring hirings, hslot]
    rfl
  have hproposal : t.record? Collection.proposals h.proposal = some (q.accepting hirings).record := by
    rw [record?, ht.proposals, Entries.slotOf?_map fun a => a.key_accepting hirings, hslot']
    rfl
  have hlist := Entry.listOrNull_hiring (hlists e (Entries.mem_of_slotOf? hslot)) hirings
  obtain ⟨items, hitems⟩ := Catalog.exists_itemsOf hlist
  rw [← Fields.items_of_itemsOf hlist hitems] at hitems
  have hends := Ends.hireFreelancer_found ids n (.text h.freelancer) hkey hkey' hproject hproposal hitems
  refine ⟨_, _, hends.map fun v => v.getD .null, ⟨?_, ?_, ?_⟩, ?_⟩
  · rw [entries_write_self, entries_write_of_ne _ _ _ (by decide), ht.projects]
    exact Entries.put_map (m.distinctKeys _) (fun a => a.key_hiring hirings) hslot
      (Entry.hiring_concat_of_same hsame) fun a => Entry.hiring_concat_of_not_same
  · rw [entries_write_of_ne _ _ _ (by decide), entries_write_self, ht.proposals]
    refine Entries.put_map (m.distinctKeys _) (fun a => a.key_accepting hirings) hslot' ?_ fun a ha => ?_
    · rw [Entry.accepting_concat, if_pos hsame']
    · rw [Entry.accepting_concat, if_neg ha]
  · intro name hprojects hproposals
    rw [entries_write_of_ne _ _ _ hprojects, entries_write_of_ne _ _ _ hproposals,
      ht.others name hprojects hproposals]
  · intro hmem
    rw [Entry.accepting_self hmem hsame', write_of_record? hproposal, Entry.hiring_self hmem hsame,
      write_of_record? hproject]

/-- In which order all have been hired only shows in the order of the lists. -/
theorem sameHired (hu : m.HiredAll others u) (ht : m.HiredAll hirings t) (hperm : others.Perm hirings) :
    u.SameHired t where
  proposals := by
    rw [hu.proposals, ht.proposals]
    exact List.map_congr_left fun e _ => e.accepting_perm hperm
  projects := by
    rw [hu.projects, ht.projects, List.forall₂_map_left_iff, List.forall₂_map_right_iff,
      List.forall₂_same]
    intro e _
    refine ⟨(e.key_hiring others).trans (e.key_hiring hirings).symm, fun v => ?_⟩
    have hmem : ∀ s, s ∈ Hiring.hiredFor others e.key ↔ s ∈ Hiring.hiredFor hirings e.key :=
      fun s => (Hiring.hiredFor_perm hperm e.key).mem_iff
    rw [e.items_hiring, e.items_hiring, Value.mem_followedBy_iff, Value.mem_followedBy_iff]
    simp only [hmem]

end HiredAll

end Memory

namespace Hiring

open Memory

def runAll (ids : Nat → String) (hirings : List Hiring) (s : Memory × Nat) :
    List (Except Failure Value) × (Memory × Nat) :=
  Operation.runAll (Board.withIds ids Memory.handle) (hirings.map operation) s

variable {ids : Nat → String} {m : Memory} {n : Nat} {hirings : List Hiring}

theorem runAll_append (ids : Nat → String) (hirings others : List Hiring) (s : Memory × Nat) :
    runAll ids (hirings ++ others) s =
      ((runAll ids hirings s).1 ++ (runAll ids others (runAll ids hirings s).2).1,
        (runAll ids others (runAll ids hirings s).2).2) := by
  rw [runAll, List.map_append, Operation.runAll_append]
  rfl

theorem runAll_single {h : Hiring} {s t : Memory × Nat} {o : Except Failure Value}
    (hends : Ends ids h.operation.program s o t) : runAll ids [h] s = ([o], t) := by
  rw [runAll, List.map_singleton, Operation.runAll_cons, hends]
  rfl

theorem runAll_hiredAll (ids : Nat → String) (n : Nat)
    (hlists : ∀ e ∈ m.entries Collection.projects, (Fields.get e.record "freelancers").ListOrNull)
    (hnamed : ∀ h ∈ hirings, m.Names h) :
    ∃ outcomes t, runAll ids hirings (m, n) = (outcomes, (t, n)) ∧ (∀ o ∈ outcomes, ∃ v, o = .ok v) ∧
      m.HiredAll hirings t := by
  induction hirings using List.reverseRecOn with
  | nil => exact ⟨[], m, rfl, List.forall_mem_nil _, .nil m⟩
  | append_singleton hirings h ih =>
    obtain ⟨outcomes, t, hrun, hok, ht⟩ := ih fun g hg => hnamed g (List.mem_append_left _ hg)
    obtain ⟨v, u, hends, hu, -⟩ :=
      ht.step hlists (hnamed h (List.mem_append_right _ List.mem_cons_self)) ids n
    refine ⟨outcomes ++ [.ok v], u, ?_, ?_, hu⟩
    · rw [runAll_append, hrun, runAll_single hends]
    · intro o ho
      rcases List.mem_append.1 ho with ho | ho
      · exact hok o ho
      · exact ⟨v, List.mem_singleton.1 ho⟩

theorem runAll_again (ids : Nat → String) (n : Nat)
    (hlists : ∀ e ∈ m.entries Collection.projects, (Fields.get e.record "freelancers").ListOrNull)
    {before after : List Hiring} {h : Hiring} (hnamed : ∀ g ∈ before, m.Names g) (hmem : h ∈ before) :
    (runAll ids (before ++ h :: after) (m, n)).2 = (runAll ids (before ++ after) (m, n)).2 := by
  obtain ⟨outcomes, t, hrun, -, ht⟩ := runAll_hiredAll ids n hlists hnamed
  obtain ⟨v, u, hends, -, hsame⟩ := ht.step hlists (hnamed h hmem) ids n
  obtain rfl := hsame hmem
  have hagain : runAll ids (h :: after) (u, n) = (.ok v :: (runAll ids after (u, n)).1,
      (runAll ids after (u, n)).2) := by
    rw [← List.singleton_append, runAll_append, runAll_single hends]
    rfl
  rw [runAll_append, runAll_append, hrun, hagain]

end Hiring

/-- Hirings of existing projects and proposals all go through, on a store whose projects have lists of
freelancers, or none. In the end a project lists the freelancers that it had and then those who were
hired for it and were not among them, each once and in the order in which they first were; each
proposal that was named is marked as hired; and nothing else has changed. A hiring that is made again
changes nothing, and in another order the hirings come to the same verdicts and the same freelancers. -/
theorem hirings_list_each_once (ids : Nat → String) (n : Nat) {m : Memory} {hirings : List Hiring}
    (hlists : ∀ e ∈ m.entries Collection.projects, (Fields.get e.record "freelancers").ListOrNull)
    (hnamed : ∀ h ∈ hirings, m.Names h) :
    let run (calls : List Hiring) := Hiring.runAll ids calls (m, n)
    (∀ o ∈ (run hirings).1, ∃ v, o = .ok v) ∧
      m.HiredAll hirings (run hirings).2.1 ∧
      (∀ before h after, hirings = before ++ after → h ∈ before →
        (run (before ++ h :: after)).2 = (run hirings).2) ∧
      ∀ others, others.Perm hirings → (run others).2.1.SameHired (run hirings).2.1 := by
  intro run
  obtain ⟨outcomes, t, hrun, hok, ht⟩ := Hiring.runAll_hiredAll ids n hlists hnamed
  refine ⟨?_, ?_, ?_, ?_⟩
  · intro o ho
    rw [show run hirings = (outcomes, (t, n)) from hrun] at ho
    exact hok o ho
  · rw [show run hirings = (outcomes, (t, n)) from hrun]
    exact ht
  · rintro before h after rfl hmem
    exact Hiring.runAll_again ids n hlists (fun g hg => hnamed g (List.mem_append_left _ hg)) hmem
  · intro others hperm
    obtain ⟨outcomes', u, hrun', -, hu⟩ :=
      Hiring.runAll_hiredAll ids n hlists fun h hmem => hnamed h (hperm.mem_iff.1 hmem)
    rw [show run others = (outcomes', (u, n)) from hrun', show run hirings = (outcomes, (t, n)) from hrun]
    exact hu.sameHired ht hperm

/-- Two freelancers for a project without a list, of whom one is listed by another project before: the
one who is hired there again is not listed twice, and a third proposal keeps its verdict. -/
theorem hirings_list_each_once_shared :
    let m : Memory := .holding [
      ("projects", [⟨.text "P1", [("id", .text "P1"), ("freelancers", .null)]⟩,
        ⟨.text "P2", [("id", .text "P2"), ("freelancers", .texts ["U1"])]⟩]),
      ("proposals", [⟨.text "R1", [("id", .text "R1")]⟩, ⟨.text "R2", [("id", .text "R2")]⟩,
        ⟨.text "R3", [("id", .text "R3"), ("verdict", .text "open")]⟩])]
    let first : Hiring := ⟨.text "P1", .text "R1", "U2"⟩
    let hirings := [first, ⟨.text "P2", .text "R2", "U1"⟩, ⟨.text "P1", .text "R2", "U1"⟩]
    let run (calls : List Hiring) := Hiring.runAll longerIds calls (m, 0)
    let t := (run hirings).2.1
    ((∀ e ∈ m.entries "projects", (Fields.get e.record "freelancers").ListOrNull) ∧
      ∀ h ∈ hirings, m.Names h) ∧
    (t.contents "projects").map (fun q => q.child "freelancers") =
      [.texts ["U2", "U1"], .texts ["U1"]] ∧
    (t.contents "proposals").map (fun r => r.child "verdict") =
      [.text "hired", .text "hired", .text "open"] ∧
    (∀ o ∈ (run hirings).1, ∃ v, o = .ok v) ∧ m.HiredAll hirings t ∧
    (run (hirings ++ [first])).2 = (run hirings).2 ∧
    (run hirings.reverse).2.1.SameHired t := by
  intro m first hirings run t
  have hlists : ∀ e ∈ m.entries "projects", (Fields.get e.record "freelancers").ListOrNull := by
    intro e he
    rcases List.mem_pair.1 he with rfl | rfl
    · exact .inl rfl
    · exact .inr ⟨_, rfl⟩
  have hnamed : ∀ h ∈ hirings, m.Names h := by
    intro h hh
    rcases List.mem_cons.1 hh with rfl | hh
    · exact ⟨⟨_, rfl⟩, _, rfl⟩
    · rcases List.mem_pair.1 hh with rfl | rfl
      · exact ⟨⟨_, rfl⟩, _, rfl⟩
      · exact ⟨⟨_, rfl⟩, _, rfl⟩
  obtain ⟨hok, hall, hagain, hreordered⟩ := hirings_list_each_once longerIds 0 hlists hnamed
  have hleft : (Hiring.runAll longerIds hirings (m, 0)).2.1 = t := rfl
  simp only [hleft] at hall hreordered
  have hprojects : (t.contents "projects").map (fun q => q.child "freelancers") =
      [.texts ["U2", "U1"], .texts ["U1"]] := by
    have hentries : t.entries "projects" = _ := hall.projects
    rw [Memory.contents, hentries]
    rfl
  have hproposals : (t.contents "proposals").map (fun r => r.child "verdict") =
      [.text "hired", .text "hired", .text "open"] := by
    have hentries : t.entries "proposals" = _ := hall.proposals
    rw [Memory.contents, hentries]
    rfl
  exact ⟨⟨hlists, hnamed⟩, hprojects, hproposals, hok, hall,
    hagain hirings first [] (List.append_nil _).symm List.mem_cons_self,
    hreordered _ (List.reverse_perm _)⟩

end FreelanceBoard
