import FreelanceBoard.Proofs.Desk

/-! The moves that an operation of the catalog makes while another may do anything to the store between
its calls, as long as the shared lists that the operation sets are as it found them. -/
namespace FreelanceBoard

/-- What a program has done up to now: its calls, and the moves that these have made. -/
structure Trail where
  events : List Event
  moves : List Move

namespace Trail

def start : Trail := ⟨[], []⟩

def and (s : Trail) (c : StoreCall) (m : Memory) (xs : List Move) : Trail :=
  ⟨s.events ++ [⟨c, m⟩], s.moves ++ xs⟩

variable {s : Trail} {c : StoreCall} {m : Memory} {xs : List Move}

theorem mem_and : ⟨c, m⟩ ∈ (s.and c m xs).events :=
  List.mem_append_right _ (List.mem_singleton_self _)

theorem mem_and_of_mem {e : Event} (h : e ∈ s.events) : e ∈ (s.and c m xs).events :=
  List.mem_append_left _ h

end Trail

/-- What an undisturbed call finds in a list that it sets. -/
theorem Event.Undisturbed.get_eq {e : Event} {c : StoreCall} {m : Memory}
    (h : e.Undisturbed ⟨c, m⟩) {k : Kind} {i : Name} (field : String)
    (hfinds : e.call.Finds k.collection i.value) (hfield : field ∈ sharedLists)
    (hsets : c.Sets k.collection i.value field) {D : Desk} (hD : m.Shows D) {a : k.Item}
    (ha : D ⟨k, i⟩ = some a) :
    Fields.get (k.fields a) field = e.before.listAt k.collection i.value field := by
  have hstored : m.record? k.collection i.value = some (k.fields a) := by
    rw [hD.record?, ha]
    rfl
  have hlist : m.listAt k.collection i.value field = Fields.get (k.fields a) field := by
    rw [hD.listAt, ha]
    rfl
  rw [← hlist]
  exact h _ _ field hfield hfinds hsets (by rw [hstored]; rfl)

/-- Wherever the calls of a program are made, each of them makes some moves if it is undisturbed, and
if the program succeeds, all of its moves are as described. -/
def Leaves {α : Type} : StoreProgram α → Trail → (α → Trail → Prop) → Prop
  | .done a, s, Q => Q a s
  | .failed _, _, _ => True
  | .call c next, s, Q => ∀ m D r m', m.Shows D → (∀ e ∈ s.events, e.Undisturbed ⟨c, m⟩) →
    Memory.handle c m = (.ok r, m') →
      ∃ xs E, Runs xs D E ∧ m'.Shows E ∧ Leaves (next r) (s.and c m xs) Q

theorem Leaves.bind {α β : Type} {p : StoreProgram α} {f : α → StoreProgram β} {s : Trail}
    {Q : β → Trail → Prop} (h : Leaves p s fun a u => Leaves (f a) u Q) :
    Leaves (p.bind f) s Q := by
  induction p generalizing s with
  | done a => exact h
  | failed e => trivial
  | call c next ih =>
    intro m D r m' hD hundisturbed hcall
    obtain ⟨xs, E, hxs, hE, hrest⟩ := h m D r m' hD hundisturbed hcall
    exact ⟨xs, E, hxs, hE, ih r hrest⟩

/-- The moves of two undisturbed programs are mixed in the way in which their calls are. -/
theorem Interleaving.shuffled {α β : Type} {p : StoreProgram α} {q : StoreProgram β} {m t : Memory}
    {es fs : List Event} (h : Interleaving p q m es fs t) {s u : Trail} {P Q : List Move → Prop}
    {D : Desk} (hp : Leaves p s fun _ v => P v.moves) (hq : Leaves q u fun _ v => Q v.moves)
    (hes : (s.events ++ es).Pairwise Event.Undisturbed)
    (hfs : (u.events ++ fs).Pairwise Event.Undisturbed) (hD : m.Shows D) :
    ∃ xs ys F, P (s.moves ++ xs) ∧ Q (u.moves ++ ys) ∧ Shuffled xs ys D F ∧ t.Shows F := by
  induction h generalizing s u D with
  | done a b m =>
    refine ⟨[], [], D, ?_, ?_, .nil D, hD⟩
    · rw [List.append_nil]
      exact hp
    · rw [List.append_nil]
      exact hq
  | @first c next q m m' t r es fs hcall _ ih =>
    have hall := List.pairwise_append.1 hes
    obtain ⟨zs, E, hzs, hE, hrest⟩ := hp m D r m' hD
      (fun e he => hall.2.2 e he _ List.mem_cons_self) hcall
    have hes' : ((s.and c m zs).events ++ es).Pairwise Event.Undisturbed := by
      rw [Trail.and, List.append_assoc]
      exact hes
    obtain ⟨xs, ys, F, hP, hQ, hshuffled, hF⟩ := ih hrest hq hes' hfs hE
    refine ⟨zs ++ xs, ys, F, ?_, hQ, .runs_left hzs hshuffled, hF⟩
    rw [← List.append_assoc]
    exact hP
  | @second p c next m m' t r es fs hcall _ ih =>
    have hall := List.pairwise_append.1 hfs
    obtain ⟨zs, E, hzs, hE, hrest⟩ := hq m D r m' hD
      (fun e he => hall.2.2 e he _ List.mem_cons_self) hcall
    have hfs' : ((u.and c m zs).events ++ fs).Pairwise Event.Undisturbed := by
      rw [Trail.and, List.append_assoc]
      exact hfs
    obtain ⟨xs, ys, F, hP, hQ, hshuffled, hF⟩ := ih hp hrest hes hfs' hE
    refine ⟨xs, zs ++ ys, F, hP, ?_, .runs_right hzs hshuffled, hF⟩
    rw [← List.append_assoc]
    exact hQ

/-- A program on the board that is issued an id does as described. -/
abbrev Traced {α : Type} (id : String) (p : BoardProgram α) (s : Trail) (Q : α → Trail → Prop) : Prop :=
  Leaves (Board.issuing id p) s Q

/-- The user of a name; one who has no record has no projects and no proposals. -/
def Desk.user (D : Desk) (name : Name) : Account := (D ⟨.user, name⟩).getD ⟨name, [], []⟩

theorem Memory.Shows.listAt_user {m : Memory} {D : Desk} (h : m.Shows D) {field : String}
    {items : Account → List String}
    (hitems : ∀ v : Account, Fields.get v.fields field = .texts (items v))
    (hnone : ∀ name, items ⟨name, [], []⟩ = []) (u : Name) :
    m.listAt Collection.users u.value field = .texts (items (D.user u)) := by
  refine (h.listAt .user u field).trans ?_
  rw [Desk.user]
  cases D ⟨.user, u⟩ with
  | none =>
    rw [Option.getD_none, hnone]
    rfl
  | some v => exact hitems v

/-- Where an update has found no record of a user, an insert replaces at most a record with empty
lists. -/
theorem Event.Undisturbed.user_eq {m m' : Memory} {D D' : Desk} {u : Name} {changes record : Fields}
    (h : Undisturbed ⟨.update Collection.users u.value changes, m⟩
      ⟨.insert Collection.users record, m'⟩)
    (hid : record.lookup "id" = some u.value)
    (hkeys : Fields.keys record = ["id", "projects", "proposals"]) (hD : m.Shows D)
    (hu : D ⟨.user, u⟩ = none) (hD' : m'.Shows D') : D'.user u = ⟨u, [], []⟩ := by
  rw [Desk.user]
  cases hv : D' ⟨.user, u⟩ with
  | none => rfl
  | some v =>
    have hnothing : ∀ field, m.listAt Collection.users u.value field = .texts [] := by
      intro field
      refine (hD.listAt .user u field).trans ?_
      rw [hu]
      rfl
    have hfound : ∀ field ∈ sharedLists, field ∈ Fields.keys record →
        Fields.get v.fields field = .texts [] := fun field hshared hkey =>
      (h.get_eq (k := .user) field ⟨rfl, rfl⟩ hshared ⟨rfl, hid, hkey⟩ hD' hv).trans (hnothing field)
    rw [hkeys] at hfound
    have hprojects : v.projects = [] :=
      Value.texts_injective (hfound "projects" (by decide) (by decide))
    have hproposals : v.proposals = [] :=
      Value.texts_injective (hfound "proposals" (by decide) (by decide))
    have hkey : v.name = u := (hD'.plain_eq hv).2
    calc v = ⟨v.name, v.projects, v.proposals⟩ := rfl
      _ = ⟨u, [], []⟩ := by rw [hkey, hprojects, hproposals]

namespace Traced

open Collection

variable {α β : Type} {id : String} {s : Trail}

theorem done {a : α} {Q : α → Trail → Prop} (h : Q a s) : Traced id (.done a) s Q := h

theorem failed {e : Failure} {Q : α → Trail → Prop} : Traced id (.failed e) s Q := trivial

theorem bind {p : BoardProgram α} {f : α → BoardProgram β} {Q : β → Trail → Prop}
    (h : Traced id p s fun a u => Traced id (f a) u Q) : Traced id (p.bind f) s Q := by
  rw [Traced, Board.issuing_bind]
  exact Leaves.bind h

theorem freshId {Q : String → Trail → Prop} (h : Q id s) : Traced id Board.freshId s Q := h

theorem attempt {x : Except Fault α} {Q : α → Trail → Prop} (h : ∀ a, x = .ok a → Q a s) :
    Traced id (Board.attempt x) s Q := by
  cases x with
  | error f => exact failed
  | ok a => exact h a rfl

theorem checked {c : Checked α} {Q : α → Trail → Prop} (h : ∀ a, c = .valid a → Q a s) :
    Traced id (Catalog.checked c) s Q := by
  cases c with
  | valid a => exact h a rfl
  | invalid issues => exact failed

theorem requireActor {actor : Value} {Q : Unit → Trail → Prop} (h : actor.truthy = true → Q () s) :
    Traced id (Catalog.requireActor actor) s Q := by
  rw [Catalog.requireActor]
  split
  · next hactor => exact h hactor
  · exact failed

theorem call {c : StoreCall} {Q : c.Reply → Trail → Prop}
    (h : ∀ m D r m', m.Shows D → (∀ e ∈ s.events, e.Undisturbed ⟨c, m⟩) →
      Memory.handle c m = (.ok r, m') → ∃ xs E, Runs xs D E ∧ m'.Shows E ∧ Q r (s.and c m xs)) :
    Traced id (Board.onStore (.call c .done)) s Q := by
  rw [Traced, Board.issuing_onStore]
  exact h

/-- A call of which the reply is known. -/
theorem answered {c : StoreCall} {Q : c.Reply → Trail → Prop}
    (h : ∀ m D, m.Shows D → (∀ e ∈ s.events, e.Undisturbed ⟨c, m⟩) →
      ∃ r t, Memory.handle c m = (.ok r, t) ∧
        ∃ xs E, Runs xs D E ∧ t.Shows E ∧ Q r (s.and c m xs)) :
    Traced id (Board.onStore (.call c .done)) s Q := by
  refine call fun m D r m' hD hundisturbed hcall => ?_
  obtain ⟨r', t, hreply, h⟩ := h m D hD hundisturbed
  cases hreply.symm.trans hcall
  exact h

/-- A lookup may be counted as moves that change nothing. -/
theorem findById {k : Kind} {i : Name} {Q : Option Value → Trail → Prop}
    (h : ∀ m D, m.Shows D → ∃ xs, Runs xs D D ∧
      Q ((D ⟨k, i⟩).map k.document) (s.and (.findById k.collection i.value) m xs)) :
    Traced id (Catalog.findById k.collection i.value) s Q := by
  refine answered fun m D hD _ => ⟨_, _, hD.findById k i, ?_⟩
  obtain ⟨xs, hxs, hQ⟩ := h m D hD
  exact ⟨xs, D, hxs, hD, hQ⟩

/-- A record that has to be there. -/
theorem found {k : Kind} {v : Value} {e : Failure} {Q : Value → Trail → Prop}
    (h : ∀ m D (i : Name) a, m.Shows D → v = i.value → D ⟨k, i⟩ = some a →
      ∃ xs, Runs xs D D ∧ Q (k.document a) (s.and (.findById k.collection v) m xs)) :
    Traced id ((Catalog.findById k.collection v).bind fun
      | some record => .done record
      | none => .failed e) s Q := by
  by_cases hv : ∃ i : Name, v = i.value
  · obtain ⟨i, rfl⟩ := hv
    refine bind (findById fun m D hD => ?_)
    cases ha : D ⟨k, i⟩ with
    | none => exact ⟨[], rfl, failed⟩
    | some a => exact h m D i a hD rfl ha
  · refine bind (call fun m D r m' hD _ hcall => ?_)
    obtain rfl : m = m' := congrArg Prod.snd hcall
    obtain rfl := hD.findById_of_ne_value k (fun i hi => hv ⟨i, hi⟩) hcall
    exact ⟨[], D, rfl, hD, failed⟩

theorem getProject {v : Value} {Q : Value → Trail → Prop}
    (h : ∀ m D (q : Posting), m.Shows D → v = .text q.id → D ⟨.project, .text q.id⟩ = some q →
      ∃ xs, Runs xs D D ∧ Q q.toDocument (s.and (.findById projects v) m xs)) :
    Traced id (Catalog.getProject v) s Q := by
  refine found (k := .project) fun m D i q hD hv hq => ?_
  obtain rfl : Name.text q.id = i := (hD.plain_eq hq).2
  exact h m D q hD hv hq

theorem getProposal {v : Value} {Q : Value → Trail → Prop}
    (h : ∀ m D (r : Proposal), m.Shows D → v = .text r.id → D ⟨.proposal, .text r.id⟩ = some r →
      ∃ xs, Runs xs D D ∧ Q r.toDocument (s.and (.findById proposals v) m xs)) :
    Traced id (Catalog.getProposal v) s Q := by
  refine found (k := .proposal) fun m D i r hD hv hr => ?_
  obtain rfl : Name.text r.id = i := (hD.plain_eq hr).2
  exact h m D r hD hv hr

/-- An update alters what it finds, and nothing if it finds nothing. -/
theorem update {k : Kind} {i : Name} {changes : Fields} {f : k.Item → k.Item}
    {Q : Option Value → Trail → Prop} (hkey : ∀ a, k.key (f a) = k.key a)
    (hplain : ∀ a, k.plain (f a) = f (k.plain a))
    (hput : ∀ m D a, m.Shows D → D ⟨k, i⟩ = some a →
      (∀ e ∈ s.events, e.Undisturbed ⟨.update k.collection i.value changes, m⟩) →
        (k.fields a).putAll changes = k.fields (f a))
    (h : ∀ r m, Q r (s.and (.update k.collection i.value changes) m [.alter k i f])) :
    Traced id (Catalog.update k.collection i.value changes) s Q := by
  refine answered fun m D hD hundisturbed => ?_
  cases ha : D ⟨k, i⟩ with
  | none =>
    obtain ⟨t, hupdate, ht⟩ := hD.update_missing ha
    exact ⟨_, t, hupdate, _, D, .alter_none ha, ht, h _ m⟩
  | some a =>
    obtain ⟨haplain, hakey⟩ := hD.plain_eq ha
    obtain ⟨t, hupdate, ht⟩ :=
      hD.update ha (hput m D a hD ha hundisturbed) ((hkey a).trans hakey)
    rw [hplain, haplain] at ht
    exact ⟨_, t, hupdate, _, _, .alter ha, ht, h _ m⟩

/-- What is read in a list of a user, who may not have a record. -/
theorem userItems {field : String} {items : Account → List String}
    (hitems : ∀ v : Account, Fields.get v.fields field = .texts (items v))
    (hnone : ∀ name, items ⟨name, [], []⟩ = []) {u : Name} {Q : List Value → Trail → Prop}
    (h : ∀ m D, m.Shows D → ∃ xs, Runs xs D D ∧
      Q ((items (D.user u)).map .text) (s.and (.findById users u.value) m xs)) :
    Traced id (Catalog.userItems u.value field) s Q := by
  refine bind (findById (k := .user) fun m D hD => ?_)
  obtain ⟨xs, hxs, hQ⟩ := h m D hD
  refine ⟨xs, hxs, ?_⟩
  rw [Desk.user] at hQ
  cases hu : D ⟨.user, u⟩ with
  | none =>
    rw [hu, Option.getD_none, hnone] at hQ
    exact done hQ
  | some v =>
    rw [hu, Option.getD_some] at hQ
    refine attempt fun vs hvs => ?_
    have hread : Catalog.itemsOf (Kind.document .user v) field = .ok ((items v).map .text) := by
      show Catalog.itemsOf (.object v.fields) field = _
      rw [Catalog.itemsOf, Value.field, hitems]
      exact Gives.elementsOrNone_texts _
    obtain rfl := Except.ok.inj (hread.symm.trans hvs)
    exact hQ

/-- An id is appended to what the list has at that moment. -/
theorem appendToUser {field i : String} {items : Account → List String} {extend : Account → Account}
    (hfield : field ∈ sharedLists)
    (hitems : ∀ v : Account, Fields.get v.fields field = .texts (items v))
    (hnone : ∀ name, items ⟨name, [], []⟩ = []) (hname : ∀ v, (extend v).name = v.name)
    (hextend : ∀ v : Account, (extend v).fields = v.fields.put field (.texts (items v ++ [i])))
    {u : Name} {Q : Unit → Trail → Prop}
    (h : ∀ v : Trail, s.events ⊆ v.events →
      v.moves = s.moves ++ [.enter .user u ⟨u, [], []⟩ extend] → Q () v) :
    Traced id (Catalog.appendToUser u.value field i (extend ⟨u, [], []⟩).fields) s Q := by
  refine bind (userItems hitems hnone fun m₀ D₀ hD₀ => ⟨[], rfl, bind (answered ?_)⟩)
  intro m D hD hundisturbed
  have hread := hD₀.listAt_user hitems hnone u
  cases hu : D ⟨.user, u⟩ with
  | some v =>
    have hfound := (hundisturbed _ Trail.mem_and).get_eq (k := .user) field ⟨rfl, rfl⟩ hfield
      ⟨rfl, rfl, List.mem_singleton_self _⟩ hD hu
    have hsame : items v = items (D₀.user u) :=
      Value.texts_injective ((hitems v).symm.trans (hfound.trans hread))
    have hput : v.fields.putAll [(field, .list ((items (D₀.user u)).map .text ++ [.text i]))] =
        (extend v).fields := by
      rw [← Value.texts_concat, ← hsame, hextend]
      rfl
    obtain ⟨t, hupdate, ht⟩ := hD.update (k := .user) hu hput ((hname v).trans (hD.plain_eq hu).2)
    have hmove : Runs [.enter .user u ⟨u, [], []⟩ extend] D
        (Function.update D ⟨.user, u⟩ (some (extend v))) :=
      .enter (by rw [hu, Option.getD_some])
    refine ⟨_, t, hupdate, _, _, hmove, ht, ?_⟩
    refine h _ (fun e he => ?_) ?_
    · exact Trail.mem_and_of_mem (Trail.mem_and_of_mem he)
    · exact congrArg (· ++ _) s.moves.append_nil
  | none =>
    obtain ⟨t, hupdate, ht⟩ := hD.update_missing (k := .user) hu
    refine ⟨_, t, hupdate, [], D, rfl, ht, bind (answered fun m' D' hD' hundisturbed' => ?_)⟩
    have hplace : Kind.key .user (extend ⟨u, [], []⟩) = u := hname _
    have hempty : D'.user u = ⟨u, [], []⟩ :=
      (hundisturbed' _ Trail.mem_and).user_eq
        (congrArg (fun k : Name => some k.value) hplace) rfl hD hu hD'
    obtain ⟨t', hinsert, ht'⟩ := hD'.insert .user (extend ⟨u, [], []⟩)
    rw [hplace] at ht'
    refine ⟨_, t', hinsert, _, _, .enter hempty, ht', done (h _ (fun e he => ?_) ?_)⟩
    · exact Trail.mem_and_of_mem (Trail.mem_and_of_mem (Trail.mem_and_of_mem he))
    · simp [Trail.and]

end Traced

end FreelanceBoard
