import FreelanceBoard.Proofs.OwnedProjects
import Mathlib.Data.List.Induction

/-! Who has made a proposal, and on what. The store has it three times: in the proposals, in the
lists of the users and in the proposers of the projects. Whatever is done through the catalog, the
lists say the same as the proposals. -/
namespace FreelanceBoard

section

variable {α : Type} [BEq α] [LawfulBEq α]

theorem eraseDups_concat (as : List α) (b : α) :
    (as ++ [b]).eraseDups = if b ∈ as then as.eraseDups else as.eraseDups ++ [b] := by
  have hlast : [b].removeAll as = if b ∈ as then [] else [b] := by
    by_cases h : b ∈ as <;> simp [List.removeAll, h]
  rw [List.eraseDups_append, hlast]
  by_cases h : b ∈ as
  · simp [h]
  · simp [h, List.eraseDups_cons]

theorem nodup_eraseDups (as : List α) : as.eraseDups.Nodup := by
  induction as using List.reverseRecOn with
  | nil => simp
  | append_singleton as b ih =>
    rw [eraseDups_concat]
    by_cases h : b ∈ as
    · rw [if_pos h]
      exact ih
    · have hnew : b ∉ as.eraseDups := by simpa using h
      rw [if_neg h, ← List.concat_eq_append]
      exact ih.concat hnew

end

namespace Proposal

/-- What no operation changes of a proposal. -/
structure Card where
  id : String
  project : String
  maker : Option String

def card (r : Proposal) : Card := ⟨r.id, r.projectId, r.freelancerId⟩

end Proposal

namespace Ledger

def cards (L : Ledger) : List Proposal.Card := L.proposals.map Proposal.card

def madeIds (L : Ledger) (u : String) : List String :=
  (L.cards.filter fun c => decide (c.maker = some u)).map Proposal.Card.id

/-- Those who have made the proposals on a project, one for each proposal. -/
def makers (L : Ledger) (project : String) : List String :=
  (L.cards.filter fun c => decide (c.project = project)).filterMap Proposal.Card.maker

variable {ids : Nat → String} {L L' : Ledger} {n m : Nat}

/-! One more card. -/
section

variable {i project maker : String}

theorem madeIds_concat (h : L'.cards = L.cards ++ [⟨i, project, some maker⟩]) (u : String) :
    L'.madeIds u = L.madeIds u ++ if maker = u then [i] else [] := by
  rw [madeIds, h, List.filter_append, List.map_append, madeIds]
  by_cases hu : maker = u <;> simp [hu]

theorem makers_concat (h : L'.cards = L.cards ++ [⟨i, project, some maker⟩]) (other : String) :
    L'.makers other = L.makers other ++ if project = other then [maker] else [] := by
  rw [makers, h, List.filter_append, List.filterMap_append, makers]
  by_cases hother : project = other <;> simp [hother]

end

/-- A further proposer is one more who has made a proposal. -/
theorem proposed_withProposer {q : Posting} {makers : List String}
    (h : q.proposed = makers.eraseDups.map Name.text) (actor : String) :
    (q.withProposer (.text actor)).proposed = (makers ++ [actor]).eraseDups.map Name.text := by
  have hfirst : .text actor ∈ q.proposed ↔ actor ∈ makers := by simp [h]
  rw [eraseDups_concat, Posting.withProposer]
  by_cases hactor : actor ∈ makers
  · rw [if_pos hactor, if_pos (hfirst.2 hactor), h]
  · rw [if_neg hactor, if_neg fun e => hactor (hfirst.1 e), List.map_append, ← h]
    rfl

theorem map_id_cards (L : Ledger) :
    L.cards.map Proposal.Card.id = L.proposals.map Proposal.id := by
  rw [cards, List.map_map]
  rfl

theorem cards_withProposal {r r' : Proposal} (hr : L.proposal? r.id = some r)
    (hcard : r'.card = r.card) : (L.withProposal r').cards = L.cards := by
  have hid : r'.id = r.id := congrArg Proposal.Card.id hcard
  have hfound : Keyed.find? Proposal.id r'.id L.proposals = some r := hid ▸ hr
  exact Keyed.map_put_of_find? hfound hcard

theorem cards_withProposal_new {r : Proposal} (hr : r.id ∉ L.cards.map Proposal.Card.id) :
    (L.withProposal r).cards = L.cards ++ [r.card] := by
  rw [map_id_cards] at hr
  have hput : Keyed.put Proposal.id r L.proposals = L.proposals ++ [r] := Keyed.put_of_notMem hr
  simp [cards, withProposal, hput]

theorem proposals_listing (L : Ledger) (owner : Name) (id : String) (u : Name) :
    ((L.listing owner id).user u).proposals = (L.user u).proposals := by
  rw [listing, user_withUser, L.name_user]
  by_cases h : owner = u
  · rw [if_pos h, h]
  · rw [if_neg h]

theorem proposals_listingProposal (L : Ledger) (actor : Name) (id : String) (u : Name) :
    ((L.listingProposal actor id).user u).proposals =
      (L.user u).proposals ++ if actor = u then [id] else [] := by
  rw [listingProposal, user_withUser, L.name_user]
  by_cases h : actor = u
  · rw [if_pos h, if_pos h, h]
  · rw [if_neg h, if_neg h, List.append_nil]

theorem proposals_unlisting (L : Ledger) (owner : Name) (id : String) (u : Name) :
    ((L.unlisting owner id).user u).proposals = (L.user u).proposals := by
  by_cases hmem : id ∈ (L.user owner).projects
  · rw [unlisting, if_pos hmem, user_withUser, L.name_user]
    by_cases h : owner = u
    · rw [if_pos h, h]
    · rw [if_neg h]
  · rw [unlisting, if_neg hmem]

theorem posting?_withPosting (L : Ledger) (q : Posting) (id : String) :
    (L.withPosting q).posting? id = if q.id = id then some q else L.posting? id := by
  by_cases h : q.id = id
  · rw [if_pos h, ← h]
    exact Keyed.find?_put_self q L.postings
  · rw [if_neg h]
    exact Keyed.find?_put_of_ne h L.postings

theorem posting?_withoutPosting (L : Ledger) (k id : String) :
    (L.withoutPosting k).posting? id = if k = id then none else L.posting? id := by
  by_cases h : k = id
  · rw [if_pos h, ← h]
    exact Keyed.find?_erase_self k L.postings
  · rw [if_neg h]
    exact Keyed.find?_erase_of_ne h L.postings

/-- A project that is there once another one has been put is that one, or was there before. -/
theorem posting?_withPosting_cases {q p : Posting} (h : (L.withPosting q).posting? p.id = some p) :
    p = q ∨ q.id ≠ p.id ∧ L.posting? p.id = some p := by
  rw [posting?_withPosting] at h
  by_cases hid : q.id = p.id
  · rw [if_pos hid, Option.some_inj] at h
    exact .inl h.symm
  · rw [if_neg hid] at h
    exact .inr ⟨hid, h⟩

theorem posting?_of_deleted {owner : Name} {id : String} {p : Posting}
    (h : ((L.unlisting owner id).withoutPosting id).posting? p.id = some p) :
    L.posting? p.id = some p := by
  rw [posting?_withoutPosting, posting?_unlisting] at h
  by_cases hid : id = p.id
  · rw [if_pos hid] at h
    cases h
  · rwa [if_neg hid] at h

/-- Users, projects and proposals agree on who has made which proposal on what: no two proposals have
the same id, these ids and those of the projects meant have been issued, every user's list has the
ids of the proposals that the user has made, and the proposers of a project are those who have made
one on it, in the order of their first. -/
structure Booked (ids : Nat → String) (L : Ledger) (n : Nat) : Prop where
  stored : L.Issued ids n
  issued : ∀ c ∈ L.cards, ∃ k < n, c.id = ids k
  meant : ∀ c ∈ L.cards, ∃ k < n, c.project = ids k
  made : ∀ c ∈ L.cards, ∃ u, c.maker = some u
  distinct : (L.cards.map Proposal.Card.id).Nodup
  listed : ∀ u, (L.user (.text u)).proposals = L.madeIds u
  proposed : ∀ q : Posting, L.posting? q.id = some q →
    q.proposed = (L.makers q.id).eraseDups.map Name.text

namespace Booked

theorem empty : Ledger.empty.Booked ids 0 where
  stored := .empty
  issued c hc := absurd hc List.not_mem_nil
  meant c hc := absurd hc List.not_mem_nil
  made c hc := absurd hc List.not_mem_nil
  distinct := List.nodup_nil
  listed u := rfl
  proposed q hq := by cases hq

/-- Changes that leave the proposals and the lists of them alone keep everything booked, if those
that they make in projects do. -/
theorem of_cards (h : L.Booked ids n) (hnm : n ≤ m) (hstored : L'.Issued ids m)
    (hcards : L'.cards = L.cards)
    (hproposals : ∀ u, (L'.user (.text u)).proposals = (L.user (.text u)).proposals)
    (hproposed : ∀ q : Posting, L'.posting? q.id = some q →
      q.proposed = (L.makers q.id).eraseDups.map Name.text) : L'.Booked ids m where
  stored := hstored
  issued c hc := by
    obtain ⟨k, hk, hid⟩ := h.issued c (hcards ▸ hc)
    exact ⟨k, by omega, hid⟩
  meant c hc := by
    obtain ⟨k, hk, hproject⟩ := h.meant c (hcards ▸ hc)
    exact ⟨k, by omega, hproject⟩
  made c hc := h.made c (hcards ▸ hc)
  distinct := hcards ▸ h.distinct
  listed u := by
    have hmade : L'.madeIds u = L.madeIds u := by rw [madeIds, hcards, madeIds]
    rw [hproposals, h.listed, hmade]
  proposed q hq := by
    have hmakers : L'.makers q.id = L.makers q.id := by rw [makers, hcards, makers]
    rw [hproposed q hq, hmakers]

/-- A project is put in the place of one of the same id, with the same proposers. -/
theorem of_posting (h : L.Booked ids n) {q q' : Posting} (hq : L.posting? q.id = some q)
    (hid : q'.id = q.id) (hproposed : q'.proposed = q.proposed) :
    ∀ p : Posting, (L.withPosting q').posting? p.id = some p →
      p.proposed = (L.makers p.id).eraseDups.map Name.text := by
  intro p hp
  obtain rfl | ⟨-, hp⟩ := posting?_withPosting_cases hp
  · rw [hproposed, h.proposed q hq, hid]
  · exact h.proposed p hp

theorem notMem_cards (h : L.Booked ids n) (hids : Function.Injective ids) :
    ids n ∉ L.cards.map Proposal.Card.id := by
  intro hmem
  obtain ⟨c, hc, hsame⟩ := List.mem_map.1 hmem
  obtain ⟨k, hk, hissued⟩ := h.issued c hc
  have hkn : k = n := hids (by rw [← hissued, hsame])
  omega

theorem projectAdded (h : L.Booked ids n) (hids : Function.Injective ids) {p : Project}
    (hid : p.id = ids n) (hstored : L'.Issued ids (n + 1)) (hcards : L'.cards = L.cards)
    (hproposals : ∀ u, (L'.user (.text u)).proposals = (L.user (.text u)).proposals)
    (hpostings : ∀ id, L'.posting? id = (L.withPosting ⟨p, [], []⟩).posting? id) :
    L'.Booked ids (n + 1) := by
  -- the id is issued only now, so no proposal can mean the new project
  have hnone : L.makers p.id = [] := by
    have hfilter : (L.cards.filter fun c => decide (c.project = p.id)) = [] := by
      rw [List.filter_eq_nil_iff]
      intro c hc hproject
      obtain ⟨k, hk, hmeant⟩ := h.meant c hc
      have hsame : c.project = p.id := by simpa using hproject
      have hkn : k = n := hids (by rw [← hmeant, hsame, hid])
      omega
    rw [makers, hfilter, List.filterMap_nil]
  refine h.of_cards (Nat.le_succ n) hstored hcards hproposals fun q hq => ?_
  rw [hpostings] at hq
  obtain rfl | ⟨-, hfound⟩ := posting?_withPosting_cases hq
  · have hmakers : L.makers (⟨p, [], []⟩ : Posting).id = [] := hnone
    rw [hmakers, List.eraseDups_nil, List.map_nil]
  · exact h.proposed q hfound

/-- One more proposal is known by its card, by the list of its maker and by its project. -/
theorem proposalAdded (h : L.Booked ids n) (hids : Function.Injective ids) {actor : String}
    {q : Posting} (hq : L.posting? q.id = some q) (hstored : L'.Issued ids (n + 1))
    (hcards : L'.cards = L.cards ++ [⟨ids n, q.id, some actor⟩])
    (hproposals : ∀ u, (L'.user (.text u)).proposals =
      (L.user (.text u)).proposals ++ if actor = u then [ids n] else [])
    (hpostings : ∀ id, L'.posting? id =
      if q.id = id then some (q.withProposer (.text actor)) else L.posting? id) :
    L'.Booked ids (n + 1) := by
  have hmem : ∀ c ∈ L'.cards, c ∈ L.cards ∨ c = ⟨ids n, q.id, some actor⟩ := by
    intro c hc
    rw [hcards] at hc
    simpa using hc
  have hnew : ids n ∉ L.cards.map Proposal.Card.id := h.notMem_cards hids
  refine ⟨hstored, ?_, ?_, ?_, ?_, ?_, ?_⟩
  · intro c hc
    rcases hmem c hc with hc | rfl
    · obtain ⟨k, hk, hissued⟩ := h.issued c hc
      exact ⟨k, by omega, hissued⟩
    · exact ⟨n, by omega, rfl⟩
  · intro c hc
    rcases hmem c hc with hc | rfl
    · obtain ⟨k, hk, hmeant⟩ := h.meant c hc
      exact ⟨k, by omega, hmeant⟩
    · have hmem : q.id ∈ L.postings.map Posting.id :=
        List.mem_map_of_mem (Keyed.mem_of_find? hq)
      obtain ⟨k, hk, hmeant⟩ := h.stored.issued q.id hmem
      exact ⟨k, by omega, hmeant⟩
  · intro c hc
    rcases hmem c hc with hc | rfl
    · exact h.made c hc
    · exact ⟨actor, rfl⟩
  · rw [hcards, List.map_append, List.map_singleton, ← List.concat_eq_append]
    exact h.distinct.concat hnew
  · intro u
    rw [hproposals, h.listed, madeIds_concat hcards]
  · intro p hp
    rw [hpostings] at hp
    rw [makers_concat hcards]
    by_cases hpq : q.id = p.id
    · rw [if_pos hpq, Option.some_inj] at hp
      rw [if_pos hpq, ← hpq, ← hp]
      exact proposed_withProposer (h.proposed q hq) actor
    · rw [if_neg hpq] at hp
      rw [if_neg hpq, List.append_nil]
      exact h.proposed p hp

theorem projectDeleted (h : L.Booked ids n) (owner : Name) (id : String) :
    ((L.unlisting owner id).withoutPosting id).Booked ids n := by
  have hcards : ((L.unlisting owner id).withoutPosting id).cards = L.cards := by
    rw [cards, withoutPosting, unlisting]
    split <;> rfl
  refine h.of_cards (Nat.le_refl n) (h.stored.projectDeleted owner id) hcards
    (fun u => L.proposals_unlisting owner id (.text u)) fun p hp => ?_
  exact h.proposed p (posting?_of_deleted hp)

theorem freelancerHired (h : L.Booked ids n) {q : Posting} {r : Proposal} {freelancer : Value}
    (hq : L.posting? q.id = some q) (hr : L.proposal? r.id = some r)
    (hstored : ((L.withProposal { r with verdict := some "hired" }).withPosting
      (q.hiring freelancer)).Issued ids n) :
    ((L.withProposal { r with verdict := some "hired" }).withPosting
      (q.hiring freelancer)).Booked ids n := by
  have hcards : ((L.withProposal { r with verdict := some "hired" }).withPosting
      (q.hiring freelancer)).cards = L.cards := by
    have hcard : ({ r with verdict := some "hired" } : Proposal).card = r.card := rfl
    exact cards_withProposal hr hcard
  have hproposed : (q.hiring freelancer).proposed = q.proposed := by
    rw [Posting.hiring]
    split <;> rfl
  exact h.of_cards (Nat.le_refl n) hstored hcards (fun u => rfl)
    (h.of_posting hq (q.id_hiring freelancer) hproposed)

/-- Every effect keeps everything booked, unless octets make a proposal. -/
theorem of_effect (hids : Function.Injective ids) {o : Operation} {a b : Ledger × Nat}
    (ho : ∀ actor project letter budget, o = .addProposal actor project letter budget →
      ¬ actor.IsOctets) (he : Effect ids o a b) (h : a.1.Booked ids a.2) : b.1.Booked ids b.2 := by
  have hstored : b.1.Issued ids b.2 := h.stored.of_effect hids he
  cases he with
  | nothing hnm => exact h.of_cards hnm hstored rfl (fun u => rfl) h.proposed
  | @projectAdded L _ _ _ _ _ _ p _ _ hid =>
    exact h.projectAdded hids hid hstored rfl
      (fun u => (L.withPosting ⟨p, [], []⟩).proposals_listing _ p.id (.text u)) fun _ => rfl
  | projectUnlisted _ _ hid =>
    exact h.projectAdded hids hid hstored rfl (fun _ => rfl) fun _ => rfl
  | @proposalAdded L n _ _ actor q r _ hq hid hproject hfreelancer =>
    obtain ⟨s, rfl⟩ : ∃ s, actor = .text s := ⟨_, Name.eq_text_of_not_isOctets (ho _ _ _ _ rfl)⟩
    have hcard : r.card = ⟨ids n, q.id, some s⟩ := by
      rw [Proposal.card, hid, hproject, hfreelancer]
      rfl
    have hcards : (L.withProposal r).cards = L.cards ++ [⟨ids n, q.id, some s⟩] := by
      rw [← hcard]
      exact cards_withProposal_new (hid ▸ h.notMem_cards hids)
    have hproposals : ∀ u, (((L.withProposal r).listingProposal (.text s) r.id).user
        (.text u)).proposals = (L.user (.text u)).proposals ++ if s = u then [ids n] else [] := by
      intro u
      have hlisted := (L.withProposal r).proposals_listingProposal (.text s) r.id (.text u)
      simp only [Name.text.injEq] at hlisted
      rw [← hid]
      exact hlisted
    have hpostings := ((L.withProposal r).listingProposal (.text s) r.id).posting?_withPosting
      (q.withProposer (.text s))
    rw [q.id_withProposer] at hpostings
    exact h.proposalAdded hids hq hstored hcards hproposals hpostings
  | proposalUnlisted hkey hactor => exact absurd (hactor.isOctets hkey) (ho _ _ _ _ rfl)
  | projectChanged _ hq hrevised =>
    exact h.of_cards (Nat.le_refl _) hstored rfl (fun u => rfl) (h.of_posting hq hrevised.id rfl)
  | projectDeleted => exact h.projectDeleted _ _
  | freelancerHired hq hr => exact h.freelancerHired hq hr hstored

end Booked

end Ledger

namespace Memory

def madeProposals (m : Memory) (user : String) : List Value :=
  (m.contents Collection.proposals).filter fun r => (r.child "freelancer_id").same (.text user)

def proposalsOn (m : Memory) (project : Value) : List Value :=
  (m.contents Collection.proposals).filter fun r => (r.child "project_id").same project

namespace Holds

variable {m : Memory} {L : Ledger}

theorem contents_proposals (h : m.Holds L.contents) :
    m.contents Collection.proposals = L.proposals.map Proposal.toDocument := by
  rw [h.contents Gives.proposals_mem_known, Ledger.contents_proposals, List.map_map]
  rfl

theorem map_id_madeProposals (h : m.Holds L.contents) (user : String) :
    (m.madeProposals user).map (fun r => r.child "id") = (L.madeIds user).map .text := by
  have hmaker : ∀ r : Proposal, (r.toDocument.child "freelancer_id").same (.text user) =
      decide (r.freelancerId = some user) := by
    intro r
    show (Value.ofOption .text r.freelancerId).same (.text user) = _
    cases r.freelancerId <;> simp [Value.ofOption, Value.same]
  rw [madeProposals, h.contents_proposals, Ledger.madeIds, Ledger.cards, List.filter_map,
    List.filter_map, List.map_map, List.map_map, List.map_map]
  have hfilter : L.proposals.filter
      ((fun r => (r.child "freelancer_id").same (.text user)) ∘ Proposal.toDocument) =
      L.proposals.filter ((fun c => decide (c.maker = some user)) ∘ Proposal.card) :=
    List.filter_congr fun r _ => hmaker r
  rw [hfilter]
  rfl

theorem map_maker_proposalsOn (h : m.Holds L.contents) (hmade : ∀ c ∈ L.cards, ∃ u, c.maker = some u)
    (project : String) : (m.proposalsOn (.text project)).map (fun r => r.child "freelancer_id") =
      (L.makers project).map .text := by
  have hmakers : ∀ cs : List Proposal.Card, (∀ c ∈ cs, ∃ u, c.maker = some u) →
      cs.map (fun c => Value.ofOption .text c.maker) =
        (cs.filterMap Proposal.Card.maker).map .text := by
    intro cs hcs
    induction cs with
    | nil => rfl
    | cons c cs ih =>
      obtain ⟨u, hu⟩ := hcs c (by simp)
      have htail := ih fun d hd => hcs d (by simp [hd])
      rw [List.map_cons, List.filterMap_cons, hu, htail]
      rfl
  have hproject : ∀ r : Proposal, (r.toDocument.child "project_id").same (.text project) =
      decide (r.projectId = project) := fun r => Value.same_text _ _
  have hfilter : L.proposals.filter
      ((fun r => (r.child "project_id").same (.text project)) ∘ Proposal.toDocument) =
      L.proposals.filter ((fun c => decide (c.project = project)) ∘ Proposal.card) :=
    List.filter_congr fun r _ => hproject r
  rw [Ledger.makers, ← hmakers _ fun c hc => hmade c (List.mem_of_mem_filter hc), proposalsOn,
    h.contents_proposals, Ledger.cards, List.filter_map, List.filter_map, hfilter, List.map_map,
    List.map_map]
  rfl

end Holds

end Memory

end FreelanceBoard
