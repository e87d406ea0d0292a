import FreelanceBoard.Proofs.CatalogMemory

/-! The list of projects in the record of a user. Whatever is done through the catalog, it has the
ids of exactly the projects that the user owns. -/
namespace FreelanceBoard

namespace Posting

/-- What no operation changes of a project. -/
def card (q : Posting) : String × String := (q.id, q.owner)

theorem card_withProposer (q : Posting) (actor : Name) : (q.withProposer actor).card = q.card :=
  Prod.ext (q.id_withProposer actor) (q.owner_withProposer actor)

theorem card_hiring (q : Posting) (freelancer : Value) : (q.hiring freelancer).card = q.card :=
  Prod.ext (q.id_hiring freelancer) (q.owner_hiring freelancer)

theorem Revised.card_eq {q : Posting} {names : List String} {p : Project} (h : q.Revised names p) :
    card { q with project := p } = q.card :=
  Prod.ext h.id h.owner

end Posting

namespace Ledger

/-- The ids of the projects that a user owns, in the order in which they are stored. -/
def ownedIds (L : Ledger) (u : String) : List String :=
  (L.postings.filter fun q => decide (q.owner = u)).map Posting.id

theorem ownedIds_eq_cards (L : Ledger) (u : String) :
    L.ownedIds u = ((L.postings.map Posting.card).filter fun c => decide (c.2 = u)).map Prod.fst := by
  rw [ownedIds, List.filter_map, List.map_map]
  rfl

theorem map_id_eq_cards (L : Ledger) :
    L.postings.map Posting.id = (L.postings.map Posting.card).map Prod.fst := by
  rw [List.map_map]
  rfl

theorem cards_withPosting {L : Ledger} {q q' : Posting} (hq : L.posting? q.id = some q)
    (hcard : q'.card = q.card) :
    (L.withPosting q').postings.map Posting.card = L.postings.map Posting.card := by
  have hid : q'.id = q.id := congrArg Prod.fst hcard
  refine Keyed.map_put_of_find? ?_ hcard
  rw [hid]
  exact hq

theorem user_withUser (L : Ledger) (v : Account) (u : Name) :
    (L.withUser v).user u = if v.name = u then v else L.user u := by
  by_cases h : v.name = u
  · rw [if_pos h, user, user?, withUser, ← h, Keyed.find?_put_self]
    rfl
  · rw [if_neg h, user, user?, withUser, Keyed.find?_put_of_ne h]
    rfl

theorem projects_listing (L : Ledger) (owner : Name) (id : String) (u : Name) :
    ((L.listing owner id).user u).projects =
      (L.user u).projects ++ if owner = u then [id] else [] := by
  rw [listing, user_withUser, L.name_user]
  by_cases h : owner = u
  · rw [if_pos h, if_pos h, h]
  · rw [if_neg h, if_neg h, List.append_nil]

theorem projects_listingProposal (L : Ledger) (actor : Name) (id : String) (u : Name) :
    ((L.listingProposal actor id).user u).projects = (L.user u).projects := by
  rw [listingProposal, user_withUser, L.name_user]
  by_cases h : actor = u
  · rw [if_pos h, h]
  · rw [if_neg h]

theorem projects_unlisting (L : Ledger) (owner : Name) (id : String) (u : Name) :
    ((L.unlisting owner id).user u).projects =
      if owner = u then (L.user u).projects.erase id else (L.user u).projects := by
  by_cases hmem : id ∈ (L.user owner).projects
  · rw [unlisting, if_pos hmem, user_withUser, L.name_user]
    by_cases h : owner = u
    · rw [if_pos h, if_pos h, h]
    · rw [if_neg h, if_neg h]
  · rw [unlisting, if_neg hmem]
    by_cases h : owner = u
    · rw [if_pos h, ← h, List.erase_of_not_mem hmem]
    · rw [if_neg h]

/-- No two projects have the same id, and all have ids that have been issued. -/
structure Issued (ids : Nat → String) (L : Ledger) (n : Nat) : Prop where
  issued : ∀ id ∈ L.postings.map Posting.id, ∃ k < n, id = ids k
  distinct : (L.postings.map Posting.id).Nodup

theorem postings_withoutPosting_unlisting (L : Ledger) (owner : Name) (id : String) :
    ((L.unlisting owner id).withoutPosting id).postings =
      L.postings.filter fun r => decide (r.id ≠ id) := by
  rw [withoutPosting, Keyed.erase, unlisting]
  split <;> rfl

namespace Issued

variable {ids : Nat → String} {L L' : Ledger} {n m : Nat}

theorem empty : Ledger.empty.Issued ids 0 := ⟨fun _ hid => absurd hid List.not_mem_nil, List.nodup_nil⟩

theorem of_ids (h : L.Issued ids n) (hnm : n ≤ m)
    (hpostings : L'.postings.map Posting.id = L.postings.map Posting.id) : L'.Issued ids m where
  issued id hid := by
    rw [hpostings] at hid
    obtain ⟨k, hk, heq⟩ := h.issued id hid
    exact ⟨k, Nat.lt_of_lt_of_le hk hnm, heq⟩
  distinct := hpostings ▸ h.distinct

theorem of_cards (h : L.Issued ids n) (hnm : n ≤ m)
    (hcards : L'.postings.map Posting.card = L.postings.map Posting.card) : L'.Issued ids m :=
  h.of_ids hnm (by rw [map_id_eq_cards, hcards, ← map_id_eq_cards])

/-- A project with the next id comes after the others. -/
theorem postings_withPosting (h : L.Issued ids n) (hids : Function.Injective ids) {q : Posting}
    (hid : q.id = ids n) : (L.withPosting q).postings = L.postings ++ [q] := by
  refine Keyed.put_of_notMem fun hmem => ?_
  obtain ⟨k, hk, heq⟩ := h.issued q.id hmem
  have hkn : k = n := hids (heq.symm.trans hid)
  omega

theorem projectAdded (h : L.Issued ids n) (hids : Function.Injective ids) {q : Posting}
    (hid : q.id = ids n) (hpostings : L'.postings = (L.withPosting q).postings) :
    L'.Issued ids (n + 1) := by
  have hmap : L'.postings.map Posting.id = L.postings.map Posting.id ++ [ids n] := by
    rw [hpostings, h.postings_withPosting hids hid, List.map_append, List.map_singleton, hid]
  have hnew : ids n ∉ L.postings.map Posting.id := by
    intro hmem
    obtain ⟨k, hk, heq⟩ := h.issued _ hmem
    have hkn : k = n := hids heq.symm
    omega
  constructor
  · intro id hmem
    rw [hmap, List.mem_append, List.mem_singleton] at hmem
    rcases hmem with hmem | rfl
    · obtain ⟨k, hk, heq⟩ := h.issued id hmem
      exact ⟨k, by omega, heq⟩
    · exact ⟨n, by omega, rfl⟩
  · rw [hmap, ← List.concat_eq_append]
    exact h.distinct.concat hnew

theorem projectDeleted (h : L.Issued ids n) (owner : Name) (id : String) :
    ((L.unlisting owner id).withoutPosting id).Issued ids n := by
  have hsub : List.Sublist (((L.unlisting owner id).withoutPosting id).postings.map Posting.id)
      (L.postings.map Posting.id) := by
    rw [postings_withoutPosting_unlisting]
    exact List.filter_sublist.map _
  exact ⟨fun k hk => h.issued k (hsub.subset hk), h.distinct.sublist hsub⟩

theorem of_effect (hids : Function.Injective ids) {o : Operation} {a b : Ledger × Nat}
    (he : Effect ids o a b) (h : a.1.Issued ids a.2) : b.1.Issued ids b.2 := by
  cases he with
  | nothing hnm => exact h.of_cards hnm rfl
  | @projectAdded L n _ _ _ _ _ p _ _ hid => exact h.projectAdded (q := ⟨p, [], []⟩) hids hid rfl
  | @projectUnlisted L n _ _ _ _ _ p _ _ hid => exact h.projectAdded (q := ⟨p, [], []⟩) hids hid rfl
  | proposalUnlisted => exact h.of_cards (Nat.le_succ _) rfl
  | @proposalAdded _ _ _ _ actor q _ _ hq =>
    exact h.of_cards (Nat.le_succ _) (cards_withPosting hq (q.card_withProposer actor))
  | projectChanged _ hq hrevised =>
    exact h.of_cards (Nat.le_refl _) (cards_withPosting hq hrevised.card_eq)
  | projectDeleted => exact h.projectDeleted _ _
  | @freelancerHired _ _ q _ freelancer hq =>
    exact h.of_cards (Nat.le_refl _) (cards_withPosting hq (q.card_hiring freelancer))

end Issued

/-- Every user's list has the ids of the projects that the user owns. -/
def Linked (L : Ledger) : Prop := ∀ u, (L.user (.text u)).projects = L.ownedIds u

section

variable {ids : Nat → String} {L L' : Ledger} {n : Nat}

theorem Issued.mem_ownedIds_iff (h : L.Issued ids n) {q : Posting} (hq : q ∈ L.postings) {u : String} :
    q.id ∈ L.ownedIds u ↔ q.owner = u := by
  constructor
  · intro hmem
    obtain ⟨r, hr, hid⟩ := List.mem_map.1 hmem
    rw [List.mem_filter, decide_eq_true_eq] at hr
    have hsame : r = q := List.inj_on_of_nodup_map h.distinct hr.1 hq hid
    exact hsame ▸ hr.2
  · intro howner
    exact List.mem_map_of_mem (List.mem_filter.2 ⟨hq, decide_eq_true howner⟩)

theorem Issued.nodup_ownedIds (h : L.Issued ids n) (u : String) : (L.ownedIds u).Nodup :=
  h.distinct.sublist (List.filter_sublist.map _)

namespace Linked

/-- Changes that touch neither ids, owners nor lists of projects keep everything linked. -/
theorem of_cards (h : L.Linked)
    (hcards : L'.postings.map Posting.card = L.postings.map Posting.card)
    (hprojects : ∀ u, (L'.user (.text u)).projects = (L.user (.text u)).projects) : L'.Linked := by
  intro u
  rw [hprojects, h, ownedIds_eq_cards, ownedIds_eq_cards, hcards]

theorem projectAdded (h : L.Linked) (hissued : L.Issued ids n) (hids : Function.Injective ids)
    {p : Project} (hid : p.id = ids n) :
    ((L.withPosting ⟨p, [], []⟩).listing (.text p.owner) p.id).Linked := by
  intro u
  have hpostings : ((L.withPosting ⟨p, [], []⟩).listing (.text p.owner) p.id).postings =
      L.postings ++ [⟨p, [], []⟩] := hissued.postings_withPosting hids hid
  have hlisted : ((L.withPosting ⟨p, [], []⟩).user (.text u)).projects = L.ownedIds u := h u
  have hlast : ([⟨p, [], []⟩] : List Posting).filter (fun q => decide (q.owner = u)) =
      if p.owner = u then [⟨p, [], []⟩] else [] := by
    by_cases hu : p.owner = u <;> simp [Posting.owner, hu]
  rw [projects_listing, hlisted, ownedIds, ownedIds, hpostings, List.filter_append, hlast,
    List.map_append]
  by_cases hu : p.owner = u
  · rw [if_pos (congrArg Name.text hu), if_pos hu]
    rfl
  · rw [if_neg (Name.text_injective.ne hu), if_neg hu]
    rfl

theorem projectDeleted (h : L.Linked) (hissued : L.Issued ids n) {q : Posting}
    (hq : L.posting? q.id = some q) :
    ((L.unlisting (.text q.owner) q.id).withoutPosting q.id).Linked := by
  intro u
  have hmem : q ∈ L.postings := Keyed.mem_of_find? hq
  have howned : ((L.unlisting (.text q.owner) q.id).withoutPosting q.id).ownedIds u =
      (L.ownedIds u).erase q.id := by
    rw [(hissued.nodup_ownedIds u).erase_eq_filter, ownedIds, ownedIds,
      postings_withoutPosting_unlisting, List.filter_map, List.filter_filter, List.filter_filter]
    refine congrArg (List.map Posting.id) (List.filter_congr fun r _ => ?_)
    have hne : decide (r.id ≠ q.id) = (r.id != q.id) := by
      by_cases hid : r.id = q.id <;> simp [hid]
    rw [Bool.and_comm, hne]
    rfl
  have hunlisted := L.projects_unlisting (.text q.owner) q.id (.text u)
  rw [h u] at hunlisted
  rw [howned]
  refine hunlisted.trans ?_
  by_cases hu : q.owner = u
  · rw [if_pos (congrArg Name.text hu)]
  · rw [if_neg (Name.text_injective.ne hu),
      List.erase_of_not_mem fun e => hu ((hissued.mem_ownedIds_iff hmem).1 e)]

/-- Every effect keeps users and projects linked, unless octets add a project. -/
theorem of_effect (hids : Function.Injective ids) {o : Operation} {a b : Ledger × Nat}
    (ho : ∀ actor title scope budget skills, o = .addProject actor title scope budget skills →
      ¬ actor.IsOctets) (he : Effect ids o a b) (hissued : a.1.Issued ids a.2) (h : a.1.Linked) :
    b.1.Linked := by
  cases he with
  | nothing => exact h
  | projectAdded _ howner hid =>
    rw [Name.eq_text_of_not_isOctets (ho _ _ _ _ _ rfl), howner]
    exact h.projectAdded hissued hids hid
  | projectUnlisted hkey howner => exact absurd (howner.isOctets hkey) (ho _ _ _ _ _ rfl)
  | proposalUnlisted => exact h
  | @proposalAdded L _ _ _ actor q r _ hq =>
    exact h.of_cards (cards_withPosting hq (q.card_withProposer actor))
      fun u => (L.withProposal r).projects_listingProposal actor r.id (.text u)
  | projectChanged _ hq hrevised =>
    exact h.of_cards (cards_withPosting hq hrevised.card_eq) fun _ => rfl
  | projectDeleted _ hq => exact h.projectDeleted hissued hq
  | @freelancerHired _ _ q _ freelancer hq =>
    exact h.of_cards (cards_withPosting hq (q.card_hiring freelancer)) fun _ => rfl

end Linked

end

end Ledger

namespace Memory

variable {ids : Nat → String} {m : Memory} {L : Ledger} {n : Nat}

/-- The stored projects that a user owns, in the order in which they are stored. -/
def ownedProjects (m : Memory) (user : String) : List Value :=
  (m.contents Collection.projects).filter fun r => (r.child "owner").same (.text user)

theorem Holds.ownedProjects_eq (h : m.Holds L.contents) (u : String) :
    m.ownedProjects u =
      (L.postings.filter fun q => decide (q.owner = u)).map Posting.toDocument := by
  have howner : ∀ q : Posting, (q.toDocument.child "owner").same (.text u) = decide (q.owner = u) := by
    intro q
    rw [Posting.toDocument, Value.child_object, q.get_owner]
    exact Value.same_text _ _
  rw [ownedProjects, h.contents Gives.projects_mem_known, Ledger.contents_projects, List.map_map,
    List.filter_map]
  exact congrArg (List.map Posting.toDocument) (List.filter_congr fun q _ => howner q)

theorem Holds.map_id_ownedProjects (h : m.Holds L.contents) (u : String) :
    (m.ownedProjects u).map (fun r => r.child "id") = (L.ownedIds u).map .text := by
  rw [h.ownedProjects_eq, Ledger.ownedIds, List.map_map, List.map_map]
  exact List.map_congr_left fun q _ => q.get_id

/-- Projects are found by their ids in the order in which they are stored. -/
theorem run_projectsByIds (h : m.Holds L.contents) (k : Nat) (names : List String) :
    (Catalog.projectsByIds (names.map .text)).run (Board.withIds ids handle) (m, k) =
      (.ok ((L.postings.filter fun q => decide (q.id ∈ names)).map Posting.toDocument), (m, k)) := by
  cases names with
  | nil =>
    rw [List.filter_eq_nil_iff.2 fun q _ => by simp]
    rfl
  | cons name names =>
    have hcontents : m.contents Collection.projects = L.postings.map Posting.toDocument := by
      rw [h.contents Gives.projects_mem_known, Ledger.contents_projects, List.map_map]
      rfl
    rw [Catalog.projectsByIds, if_neg (by simp), Catalog.find, Board.run_onStore, Store.find,
      Program.run_call, handle, select, hcontents,
      Value.keepIf_map fun q _ => q.admits_among (name :: names)]
    rfl

/-- Reading a list of a user leaves the store as it is. -/
theorem run_userItems (h : m.Holds L.contents) (k : Nat) {field : String}
    {items : Account → List String}
    (hitems : ∀ u : Account, Fields.get u.fields field = .texts (items u))
    (hnone : ∀ name, items ⟨name, [], []⟩ = []) (u : String) :
    (Catalog.userItems (.text u) field).run (Board.withIds ids handle) (m, k) =
      (.ok ((items (L.user (.text u))).map .text), (m, k)) := by
  have hgives : Gives (fun _ => True) ids (Catalog.userItems (.text u) field) (L, k)
      (· = .ok ((items (L.user (.text u))).map .text)) (L, k) :=
    Gives.userItems (u := .text u) trivial hitems hnone
  obtain ⟨_, m', hrun, -, rfl⟩ := hgives serves m h
  have hstate : ((Catalog.userItems (.text u) field).run (Board.withIds ids handle) (m, k)).2 =
      (m, k) :=
    (Catalog.reads_userItems _ _).run_state (fun c hc s => handle_of_isRead hc s) (m, k)
  obtain rfl : m' = m := by
    rw [hrun] at hstate
    exact congrArg Prod.fst hstate
  exact hrun

/-- Asked for the projects of a user, the catalog gives those that the user owns. -/
theorem run_getUserProjects (h : m.Holds L.contents) (hissued : L.Issued ids n)
    (hlinked : L.Linked) (k : Nat) (u : String) :
    (Catalog.getUserProjects (.text u)).run (Board.withIds ids handle) (m, k) =
      (.ok (m.ownedProjects u), (m, k)) := by
  have hitems : (Catalog.userItems (.text u) "projects").run (Board.withIds ids handle) (m, k) =
      (.ok ((L.user (.text u)).projects.map .text), (m, k)) :=
    run_userItems h k (fun _ => rfl) (fun _ => rfl) u
  rw [hlinked u] at hitems
  have howned : (L.postings.filter fun q => decide (q.id ∈ L.ownedIds u)) =
      L.postings.filter fun q => decide (q.owner = u) := by
    refine List.filter_congr fun q hq => ?_
    rw [decide_eq_decide]
    exact hissued.mem_ownedIds_iff hq
  rw [Catalog.getUserProjects, Program.bind_eq, Program.run_bind, hitems, h.ownedProjects_eq, ← howned]
  exact run_projectsByIds h k (L.ownedIds u)

end Memory

end FreelanceBoard
