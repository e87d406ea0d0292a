import FreelanceBoard.Proofs.MadeProposals

/-! Who has been hired for a project. The store has it twice: as the freelancers of the project and
as the verdicts of its proposals. A hiring is given a project, a proposal and a freelancer apart, so
the two agree as long as every hiring names the project of its proposal and the user who made it. -/
namespace FreelanceBoard

/-- What is asked of the state before each operation of a run. -/
def Operation.Throughout {σ : Type} (handle : Handler Board Failure σ)
    (Allowed : σ → Operation → Prop) : List Operation → σ → Prop
  | [], _ => True
  | o :: rest, s => Allowed s o ∧ Throughout handle Allowed rest (o.program.run handle s).2

/-- A hiring names the project of its proposal and the user who made it, where both the project and
the proposal are stored. -/
def Memory.HiresMaker (m : Memory) : Operation → Prop
  | .hireFreelancer project proposal freelancer =>
    ∀ q ∈ m.contents Collection.projects, q.child "id" = project →
      ∀ r ∈ m.contents Collection.proposals, r.child "id" = proposal →
        r.child "project_id" = project ∧ r.child "freelancer_id" = freelancer
  | _ => True

theorem Memory.Holds.mem_projects {m : Memory} {L : Ledger} (h : m.Holds L.contents) {q : Posting}
    (hq : L.posting? q.id = some q) : q.toDocument ∈ m.contents Collection.projects := by
  rw [h.contents Gives.projects_mem_known, Ledger.contents_projects, List.map_map]
  exact List.mem_map_of_mem (Keyed.mem_of_find? hq)

theorem Memory.Holds.mem_proposals {m : Memory} {L : Ledger} (h : m.Holds L.contents) {r : Proposal}
    (hr : L.proposal? r.id = some r) : r.toDocument ∈ m.contents Collection.proposals := by
  rw [h.contents_proposals]
  exact List.mem_map_of_mem (Keyed.mem_of_find? hr)

theorem Value.ofOption_text_eq_iff {t : Option String} {s : String} :
    Value.ofOption .text t = .text s ↔ t = some s := by
  cases t <;> simp [Value.ofOption]

namespace Ledger

variable {ids : Nat → String} {L L' : Ledger} {n m : Nat}

def Accepted (L : Ledger) (project user : String) : Prop :=
  ∃ r : Proposal, L.proposal? r.id = some r ∧ r.projectId = project ∧
    r.freelancerId = some user ∧ r.verdict = some "hired"

theorem proposal?_withProposal (L : Ledger) (r : Proposal) (id : String) :
    (L.withProposal r).proposal? id = if r.id = id then some r else L.proposal? id := by
  by_cases h : r.id = id
  · rw [if_pos h, ← h]
    exact Keyed.find?_put_self r L.proposals
  · rw [if_neg h]
    exact Keyed.find?_put_of_ne h L.proposals

/-- A proposal put among the others is accepted or not for itself, and takes the place of one that
was not, or was for the same project and user. -/
theorem accepted_withProposal_iff {r : Proposal} {project user : String}
    (h : ∀ old, L.proposal? r.id = some old → old.verdict = some "hired" →
      r.verdict = some "hired" ∧ r.projectId = old.projectId ∧ r.freelancerId = old.freelancerId) :
    (L.withProposal r).Accepted project user ↔ L.Accepted project user ∨
      r.projectId = project ∧ r.freelancerId = some user ∧ r.verdict = some "hired" := by
  constructor
  · rintro ⟨s, hs, hproject, huser, hverdict⟩
    rw [proposal?_withProposal] at hs
    by_cases hid : r.id = s.id
    · rw [if_pos hid, Option.some_inj] at hs
      subst hs
      exact .inr ⟨hproject, huser, hverdict⟩
    · rw [if_neg hid] at hs
      exact .inl ⟨s, hs, hproject, huser, hverdict⟩
  · rintro (⟨s, hs, hproject, huser, hverdict⟩ | ⟨hproject, huser, hverdict⟩)
    · by_cases hid : r.id = s.id
      · obtain ⟨hhired, hsame, hmaker⟩ := h s (hid ▸ hs) hverdict
        refine ⟨r, ?_, hsame.trans hproject, hmaker.trans huser, hhired⟩
        rw [proposal?_withProposal, if_pos rfl]
      · refine ⟨s, ?_, hproject, huser, hverdict⟩
        rw [proposal?_withProposal, if_neg hid, hs]
    · refine ⟨r, ?_, hproject, huser, hverdict⟩
      rw [proposal?_withProposal, if_pos rfl]

theorem Booked.mem_madeIds_iff (h : L.Booked ids n) {r : Proposal} (hr : r ∈ L.proposals)
    {user : String} : r.id ∈ L.madeIds user ↔ r.freelancerId = some user := by
  have hcard : r.card ∈ L.cards := List.mem_map_of_mem hr
  constructor
  · intro hmem
    obtain ⟨c, hc, hid⟩ := List.mem_map.1 hmem
    rw [List.mem_filter, decide_eq_true_eq] at hc
    have hsame : c = r.card := List.inj_on_of_nodup_map h.distinct hc.1 hcard hid
    rw [hsame] at hc
    exact hc.2
  · intro hmaker
    exact List.mem_map.2 ⟨r.card, List.mem_filter.2 ⟨hcard, decide_eq_true hmaker⟩, rfl⟩

theorem Booked.proposal?_of_mem (h : L.Booked ids n) {r : Proposal} (hr : r ∈ L.proposals) :
    L.proposal? r.id = some r :=
  (Keyed.find?_eq_some_iff (L.map_id_cards ▸ h.distinct)).2 ⟨hr, rfl⟩

/-- All is booked, and the freelancers of a project are the users with an accepted proposal on
it. -/
structure Tied (ids : Nat → String) (L : Ledger) (n : Nat) : Prop where
  booked : L.Booked ids n
  hired : ∀ q : Posting, L.posting? q.id = some q →
    ∀ user, .text user ∈ q.hired ↔ L.Accepted q.id user

namespace Tied

theorem empty : Ledger.empty.Tied ids 0 where
  booked := .empty
  hired q hq := by cases hq

theorem of_posting (h : L.Tied ids n) {q q' : Posting} (hq : L.posting? q.id = some q)
    (hid : q'.id = q.id) (hhired : q'.hired = q.hired) (p : Posting)
    (hp : (L.withPosting q').posting? p.id = some p) (user : String) :
    .text user ∈ p.hired ↔ L.Accepted p.id user := by
  obtain rfl | ⟨-, hp⟩ := posting?_withPosting_cases hp
  · rw [hhired, hid]
    exact h.hired q hq user
  · exact h.hired p hp user

theorem projectAdded (h : L.Tied ids n) (hids : Function.Injective ids) {p : Project}
    (hid : p.id = ids n) (hbooked : L'.Booked ids (n + 1)) (hproposals : L'.proposals = L.proposals)
    (hpostings : ∀ id, L'.posting? id = (L.withPosting ⟨p, [], []⟩).posting? id) :
    L'.Tied ids (n + 1) where
  booked := hbooked
  hired q hq user := by
    have haccepted : L'.Accepted q.id user ↔ L.Accepted q.id user := by
      simp only [Accepted, proposal?, hproposals]
    rw [hpostings] at hq
    rw [haccepted]
    obtain rfl | ⟨-, hfound⟩ := posting?_withPosting_cases hq
    · refine iff_of_false List.not_mem_nil ?_
      rintro ⟨r, hr, hproject, -⟩
      obtain ⟨k, hk, hmeant⟩ := h.booked.meant r.card (List.mem_map_of_mem (Keyed.mem_of_find? hr))
      have hkn : k = n := hids (by rw [← hmeant, ← hid]; exact hproject)
      omega
    · exact h.hired q hfound user

theorem proposalAdded (h : L.Tied ids n) (hids : Function.Injective ids) {actor : Name}
    {q : Posting} {r : Proposal} (hq : L.posting? q.id = some q) (hid : r.id = ids n)
    (hverdict : r.verdict = none)
    (hbooked : (((L.withProposal r).listingProposal actor r.id).withPosting
      (q.withProposer actor)).Booked ids (n + 1)) :
    (((L.withProposal r).listingProposal actor r.id).withPosting
      (q.withProposer actor)).Tied ids (n + 1) where
  booked := hbooked
  hired p hp user := by
    have hnew : ∀ old, L.proposal? r.id = some old → old.verdict = some "hired" →
        r.verdict = some "hired" ∧ r.projectId = old.projectId ∧
          r.freelancerId = old.freelancerId := by
      intro old hold
      have hmem : old.id ∈ L.proposals.map Proposal.id :=
        List.mem_map_of_mem (Keyed.mem_of_find? hold)
      rw [Keyed.key_of_find? hold, hid, ← map_id_cards] at hmem
      exact absurd hmem (h.booked.notMem_cards hids)
    have hhired : (q.withProposer actor).hired = q.hired := by
      rw [Posting.withProposer]
      split <;> rfl
    rw [h.of_posting hq (q.id_withProposer actor) hhired p hp user]
    have haccepted : (L.withProposal r).Accepted p.id user ↔ _ := accepted_withProposal_iff hnew
    refine Iff.trans ?_ haccepted.symm
    simp [hverdict]

theorem projectDeleted (h : L.Tied ids n) {owner : Name} {id : String}
    (hbooked : ((L.unlisting owner id).withoutPosting id).Booked ids n) :
    ((L.unlisting owner id).withoutPosting id).Tied ids n where
  booked := hbooked
  hired p hp user := by
    have hproposals : ((L.unlisting owner id).withoutPosting id).Accepted p.id user ↔
        L.Accepted p.id user := by
      rw [withoutPosting, unlisting]
      split <;> rfl
    rw [hproposals]
    exact h.hired p (posting?_of_deleted hp) user

theorem freelancerHired (h : L.Tied ids n) {q : Posting} {r : Proposal} {user : String}
    (hq : L.posting? q.id = some q) (hr : L.proposal? r.id = some r) (hproject : r.projectId = q.id)
    (huser : r.freelancerId = some user)
    (hbooked : ((L.withProposal { r with verdict := some "hired" }).withPosting
      (q.hiring (.text user))).Booked ids n) :
    ((L.withProposal { r with verdict := some "hired" }).withPosting
      (q.hiring (.text user))).Tied ids n where
  booked := hbooked
  hired p hp other := by
    have hsame : ∀ old, L.proposal? r.id = some old → old.verdict = some "hired" →
        (some "hired" : Option String) = some "hired" ∧ r.projectId = old.projectId ∧
          r.freelancerId = old.freelancerId := by
      intro old hold _
      rw [hr] at hold
      cases hold
      exact ⟨rfl, rfl, rfl⟩
    have haccepted : ((L.withProposal { r with verdict := some "hired" }).withPosting
        (q.hiring (.text user))).Accepted p.id other ↔
          L.Accepted p.id other ∨ q.id = p.id ∧ user = other := by
      refine (accepted_withProposal_iff (r := { r with verdict := some "hired" }) hsame).trans ?_
      simp [hproject, huser]
    have hmem : .text other ∈ (q.hiring (.text user)).hired ↔
        .text other ∈ q.hired ∨ user = other := by
      rw [Posting.hiring]
      split
      · rename_i hold
        rw [Value.text_memberOf_iff] at hold
        constructor
        · exact .inl
        · rintro (hother | rfl)
          · exact hother
          · exact hold
      · simp [eq_comm]
    rw [haccepted]
    obtain rfl | ⟨hpq, hp⟩ := posting?_withPosting_cases hp
    · rw [hmem, q.id_hiring, h.hired q hq]
      simp
    · rw [q.id_hiring] at hpq
      rw [h.hired p hp]
      simp [hpq]

/-- Every effect keeps freelancers and proposals tied, if a hiring is for the proposal's own project
and maker and no proposal is made by octets. -/
theorem of_effect (hids : Function.Injective ids) {o : Operation} {a b : Ledger × Nat}
    (ho : ∀ actor project letter budget, o = .addProposal actor project letter budget →
      ¬ actor.IsOctets) (he : Effect ids o a b) {s : Memory} (hs : s.Holds a.1.contents)
    (hmaker : s.HiresMaker o) (h : a.1.Tied ids a.2) : b.1.Tied ids b.2 := by
  have hbooked : b.1.Booked ids b.2 := h.booked.of_effect hids ho he
  cases he with
  | nothing _ => exact ⟨hbooked, h.hired⟩
  | projectAdded _ _ hid => exact h.projectAdded hids hid hbooked rfl fun _ => rfl
  | projectUnlisted _ _ hid => exact h.projectAdded hids hid hbooked rfl fun _ => rfl
  | proposalUnlisted hkey hactor => exact absurd (hactor.isOctets hkey) (ho _ _ _ _ rfl)
  | proposalAdded _ hq hid _ _ hverdict => exact h.proposalAdded hids hq hid hverdict hbooked
  | projectChanged _ hq hrevised => exact ⟨hbooked, h.of_posting hq hrevised.id rfl⟩
  | projectDeleted => exact h.projectDeleted hbooked
  | @freelancerHired L _ q r freelancer hq hr =>
    have hmade : ∃ user, r.freelancerId = some user :=
      h.booked.made r.card (List.mem_map_of_mem (Keyed.mem_of_find? hr))
    obtain ⟨user, huser⟩ := hmade
    obtain ⟨hon, hby⟩ := hmaker q.toDocument (hs.mem_projects hq) q.resolve_id r.toDocument
      (hs.mem_proposals hr) rfl
    have hproject : r.projectId = q.id := Value.text.inj hon
    have hfreelancer : freelancer = .text user := by
      rw [← hby]
      show Value.ofOption .text r.freelancerId = .text user
      rw [huser]
      rfl
    subst hfreelancer
    exact h.freelancerHired hq hr hproject huser hbooked

end Tied

end Ledger

def Value.hires (project : Value) (user : String) : Bool :=
  match project.child "freelancers" with
  | .list hired => (Value.text user).memberOf hired
  | _ => false

theorem Posting.hires_toDocument_iff {q : Posting} {user : String} :
    q.toDocument.hires user = true ↔ .text user ∈ q.hired := by
  have hfreelancers : q.toDocument.child "freelancers" = .list q.hired := q.get_freelancers
  rw [Value.hires, hfreelancers]
  exact Value.text_memberOf_iff

theorem Proposal.admits_accepted (r : Proposal) (names : List String) :
    (Predicate.all [.among "id" (names.map .text), .eq "verdict" Catalog.hired]).admits
      r.toDocument = .ok (decide (r.id ∈ names ∧ r.verdict = some "hired")) := by
  have hid : (Predicate.among "id" (names.map .text)).admits r.toDocument =
      .ok (decide (r.id ∈ names)) := by
    refine congrArg Except.ok ?_
    rw [Bool.eq_iff_iff, decide_eq_true_eq]
    exact Value.text_memberOf_texts
  have hverdict : (Predicate.eq "verdict" Catalog.hired).admits r.toDocument =
      .ok (decide (r.verdict = some "hired")) := by
    refine congrArg Except.ok ?_
    show (Value.ofOption .text r.verdict).same (.text "hired") = _
    cases r.verdict <;> simp [Value.ofOption, Value.same]
  rw [Predicate.admits_all, Predicate.admitsAll, hid]
  by_cases hmem : r.id ∈ names <;> by_cases hhired : r.verdict = some "hired" <;>
    simp [hmem, hhired, Predicate.admitsAll, hverdict]

namespace Memory

variable {ids : Nat → String} {m : Memory} {L : Ledger} {n : Nat}

theorem Holds.accepted_iff (h : m.Holds L.contents) (hbooked : L.Booked ids n) (q : Posting)
    (user : String) : L.Accepted q.id user ↔
      ∃ r ∈ m.contents Collection.proposals, r.child "project_id" = q.toDocument.child "id" ∧
        r.child "freelancer_id" = .text user ∧ r.child "verdict" = .text "hired" := by
  have hid : q.toDocument.child "id" = .text q.id := q.resolve_id
  rw [hid, h.contents_proposals]
  constructor
  · rintro ⟨r, hr, hproject, hmaker, hverdict⟩
    exact ⟨_, List.mem_map_of_mem (Keyed.mem_of_find? hr), congrArg Value.text hproject,
      Value.ofOption_text_eq_iff.2 hmaker, Value.ofOption_text_eq_iff.2 hverdict⟩
  · rintro ⟨_, hmem, hproject, hmaker, hverdict⟩
    obtain ⟨r, hr, rfl⟩ := List.mem_map.1 hmem
    exact ⟨r, hbooked.proposal?_of_mem hr, Value.text.inj hproject,
      Value.ofOption_text_eq_iff.1 hmaker, Value.ofOption_text_eq_iff.1 hverdict⟩

theorem run_tied (hids : Function.Injective ids) {ops : List Operation}
    (hops : ∀ actor project letter budget, .addProposal actor project letter budget ∈ ops →
      ¬ actor.IsOctets) (h : m.Holds L.contents) (htied : L.Tied ids n)
    (hmaker : Operation.Throughout (Board.withIds ids handle)
      (fun s o => s.1.HiresMaker o) ops (m, n)) :
    ∃ (m' : Memory) (L' : Ledger) (n' : Nat),
      (Operation.runAll (Board.withIds ids handle) ops (m, n)).2 = (m', n') ∧
        m'.Holds L'.contents ∧ L'.Tied ids n' := by
  induction ops generalizing m L n with
  | nil => exact ⟨m, L, n, rfl, h, htied⟩
  | cons o rest ih =>
    obtain ⟨ho, hrest⟩ := hmaker
    obtain ⟨m', L', n', hrun, hholds, heffect⟩ := run_operation h n o
    rw [hrun] at hrest
    rw [Operation.runAll_cons, hrun]
    simp only [List.mem_cons] at hops
    exact ih (fun _ _ _ _ hmem => hops _ _ _ _ (.inr hmem)) hholds
      (htied.of_effect hids (fun _ _ _ _ hadds => hops _ _ _ _ (.inl hadds.symm)) heffect h ho) hrest

theorem run_projectsOfProposals (h : m.Holds L.contents) (k : Nat) {p : Predicate}
    {keep : Proposal → Bool} (hkeep : ∀ r ∈ L.proposals, p.admits r.toDocument = .ok (keep r)) :
    (Catalog.projectsOfProposals p).run (Board.withIds ids handle) (m, k) =
      (.ok ((L.postings.filter fun q =>
        decide (q.id ∈ (L.proposals.filter keep).map Proposal.projectId)).map Posting.toDocument),
        (m, k)) := by
  have hfind : (Catalog.find Collection.proposals p).run (Board.withIds ids handle) (m, k) =
      (.ok ((L.proposals.filter keep).map Proposal.toDocument), (m, k)) := by
    rw [Catalog.find, Board.run_onStore, Store.find, Program.run_call, handle, select,
      h.contents_proposals, Value.keepIf_map hkeep]
    rfl
  have hcollect : Value.collect (fun v => v.item "project_id")
      ((L.proposals.filter keep).map Proposal.toDocument) =
        .ok (((L.proposals.filter keep).map Proposal.projectId).map .text) := by
    rw [List.map_map]
    exact Value.collect_map fun r _ => rfl
  rw [Catalog.projectsOfProposals, Program.bind_eq, Program.run_bind, hfind]
  simp only [hcollect, Board.attempt, Fault.lift, Program.ofExcept, Program.bind_eq,
    Program.done_bind]
  exact run_projectsByIds h k _

theorem run_getUserActiveProjects (h : m.Holds L.contents) (htied : L.Tied ids n) (k : Nat)
    (user : String) :
    (Catalog.getUserActiveProjects (.text user)).run (Board.withIds ids handle) (m, k) =
      (.ok ((m.contents Collection.projects).filter fun q => q.hires user), (m, k)) := by
  let keep : Proposal → Bool := fun r =>
    decide (r.id ∈ (L.user (.text user)).proposals ∧ r.verdict = some "hired")
  have hhires : ∀ q ∈ L.postings, q.toDocument.hires user =
      decide (q.id ∈ (L.proposals.filter keep).map Proposal.projectId) := by
    intro q hq
    have hfound : L.posting? q.id = some q :=
      (Keyed.find?_eq_some_iff htied.booked.stored.distinct).2 ⟨hq, rfl⟩
    rw [Bool.eq_iff_iff, Posting.hires_toDocument_iff, htied.hired q hfound, decide_eq_true_eq,
      List.mem_map]
    constructor
    · rintro ⟨r, hr, hproject, hmaker, hverdict⟩
      have hmem := Keyed.mem_of_find? hr
      have hmade := (htied.booked.mem_madeIds_iff hmem).2 hmaker
      rw [← htied.booked.listed] at hmade
      exact ⟨r, List.mem_filter.2 ⟨hmem, decide_eq_true ⟨hmade, hverdict⟩⟩, hproject⟩
    · rintro ⟨r, hr, hproject⟩
      obtain ⟨hmem, hkeep⟩ := List.mem_filter.1 hr
      obtain ⟨hmade, hverdict⟩ := of_decide_eq_true hkeep
      rw [htied.booked.listed] at hmade
      exact ⟨r, htied.booked.proposal?_of_mem hmem, hproject,
        (htied.booked.mem_madeIds_iff hmem).1 hmade, hverdict⟩
  have hfilter : (m.contents Collection.projects).filter (fun q => q.hires user) =
      (L.postings.filter fun q =>
        decide (q.id ∈ (L.proposals.filter keep).map Proposal.projectId)).map Posting.toDocument := by
    rw [h.contents Gives.projects_mem_known, Ledger.contents_projects, List.map_map,
      List.filter_map]
    exact congrArg (List.map Posting.toDocument) (List.filter_congr hhires)
  have hitems : (Catalog.userItems (.text user) "proposals").run (Board.withIds ids handle)
      (m, k) = (.ok ((L.user (.text user)).proposals.map .text), (m, k)) :=
    run_userItems h k (fun _ => rfl) (fun _ => rfl) user
  rw [Catalog.getUserActiveProjects, Program.bind_eq, Program.run_bind, hitems, hfilter]
  simp only [List.isEmpty_map]
  by_cases hnone : (L.user (.text user)).proposals = []
  · have hkept : L.proposals.filter keep = [] := List.filter_eq_nil_iff.2 fun r _ => by
      simp [keep, hnone]
    rw [if_pos (by rw [hnone]; rfl), hkept]
    simp
  · rw [if_neg (by simpa using hnone)]
    exact run_projectsOfProposals h k fun r _ => r.admits_accepted _

end Memory

/-- After any run from an empty store with ids that are all different, in which no proposal is made by
octets and every hiring is for the project of its proposal and the user who made it, a user is among
the freelancers of a stored project exactly if some stored proposal of the user on that project is
marked as hired; and asked for the active projects of a user, the catalog gives those with the user
among their freelancers. -/
theorem freelancers_eq_accepted {ids : Nat → String} (hids : Function.Injective ids)
    {ops : List Operation} (hops : ∀ actor project letter budget,
      .addProposal actor project letter budget ∈ ops → ¬ actor.IsOctets)
    (hmaker : Operation.Throughout (Board.withIds ids Memory.handle)
      (fun s o => s.1.HiresMaker o) ops (Memory.empty, 0)) :
    let s := (Operation.runAll (Board.withIds ids Memory.handle) ops (Memory.empty, 0)).2
    (∀ q ∈ s.1.contents Collection.projects, ∀ user : String, q.hires user = true ↔
      ∃ r ∈ s.1.contents Collection.proposals, r.child "project_id" = q.child "id" ∧
        r.child "freelancer_id" = .text user ∧ r.child "verdict" = .text "hired") ∧
      ∀ user : String,
        (Catalog.getUserActiveProjects (.text user)).run (Board.withIds ids Memory.handle) s =
          (.ok ((s.1.contents Collection.projects).filter fun q => q.hires user), s) := by
  obtain ⟨m, L, n, hrun, hholds, htied⟩ :=
    Memory.run_tied hids hops Memory.holds_empty Ledger.Tied.empty hmaker
  intro s
  have hs : s = (m, n) := hrun
  rw [hs]
  refine ⟨fun q hq user => ?_, Memory.run_getUserActiveProjects hholds htied n⟩
  rw [hholds.contents Gives.projects_mem_known, Ledger.contents_projects, List.map_map] at hq
  obtain ⟨p, hp, rfl⟩ := List.mem_map.1 hq
  have hfound : L.posting? p.id = some p :=
    (Keyed.find?_eq_some_iff htied.booked.stored.distinct).2 ⟨hp, rfl⟩
  exact Posting.hires_toDocument_iff.trans
    ((htied.hired p hfound user).trans (hholds.accepted_iff htied.booked p user))

/-- Two users propose, one of them is hired twice, and then a project is named that is not
there. -/
theorem freelancers_eq_accepted_twice :
    let ops : List Operation :=
      [.addProject (.text "U1") (.text "Site") .null .null .null,
       .addProposal (.text "U2") (.text "p") .null .null,
       .addProposal (.text "U3") (.text "p") .null .null,
       .hireFreelancer (.text "p") (.text "p00") (.text "U3"),
       .hireFreelancer (.text "p") (.text "p00") (.text "U3"),
       .hireFreelancer (.text "q") (.text "p0") (.text "U4")]
    let s := (Operation.runAll (Board.withIds longerIds Memory.handle) ops (Memory.empty, 0)).2
    Function.Injective longerIds ∧
      Operation.Throughout (Board.withIds longerIds Memory.handle) (fun s o => s.1.HiresMaker o) ops
        (Memory.empty, 0) ∧
      (s.1.contents Collection.projects).map (fun q => q.child "freelancers") = [.texts ["U3"]] ∧
      (∀ q ∈ s.1.contents Collection.projects, ∀ user : String, q.hires user = true ↔
        ∃ r ∈ s.1.contents Collection.proposals, r.child "project_id" = q.child "id" ∧
          r.child "freelancer_id" = .text user ∧ r.child "verdict" = .text "hired") ∧
      ∀ user : String,
        (Catalog.getUserActiveProjects (.text user)).run (Board.withIds longerIds Memory.handle) s =
          (.ok ((s.1.contents Collection.projects).filter fun q => q.hires user), s) := by
  intro ops s
  have hmaker : Operation.Throughout (Board.withIds longerIds Memory.handle)
      (fun s o => s.1.HiresMaker o) ops (Memory.empty, 0) := by
    refine ⟨trivial, trivial, trivial, ?_, ?_, ?_, trivial⟩
    · intro q _ _ r hr hid
      rcases List.mem_pair.1 hr with rfl | rfl
      · exact absurd (Value.text.inj hid) (by decide)
      · exact ⟨rfl, rfl⟩
    · intro q _ _ r hr hid
      rcases List.mem_pair.1 hr with rfl | rfl
      · exact absurd (Value.text.inj hid) (by decide)
      · exact ⟨rfl, rfl⟩
    · intro q hq hid
      obtain rfl := List.mem_singleton.1 hq
      exact absurd (Value.text.inj hid) (by decide)
  have hops : ∀ actor project letter budget, .addProposal actor project letter budget ∈ ops →
      ¬ actor.IsOctets := by
    intro actor project letter budget hmem
    simp only [ops, List.mem_cons, List.not_mem_nil, Operation.addProposal.injEq, reduceCtorEq,
      or_false, false_or] at hmem
    rcases hmem with ⟨rfl, -⟩ | ⟨rfl, -⟩ <;> exact Value.not_isOctets_text _
  exact ⟨longerIds_injective, hmaker, rfl, freelancers_eq_accepted longerIds_injective hops hmaker⟩

/-- Whoever is named in a hiring becomes a freelancer, whoever has made the proposal. -/
theorem freelancers_ne_accepted :
    let ops : List Operation :=
      [.addProject (.text "U1") (.text "Site") .null .null .null,
       .addProposal (.text "U2") (.text "p") .null .null,
       .hireFreelancer (.text "p") (.text "p0") (.text "U3")]
    let s := (Operation.runAll (Board.withIds longerIds Memory.handle) ops (Memory.empty, 0)).2
    Function.Injective longerIds ∧
      (∃ q ∈ s.1.contents Collection.projects, q.hires "U3" = true ∧
        ¬ ∃ r ∈ s.1.contents Collection.proposals, r.child "project_id" = q.child "id" ∧
          r.child "freelancer_id" = .text "U3" ∧ r.child "verdict" = .text "hired") ∧
      (Catalog.getUserActiveProjects (.text "U3")).run (Board.withIds longerIds Memory.handle) s =
        (.ok [], s) := by
  intro ops s
  refine ⟨longerIds_injective, ⟨_, List.mem_singleton_self _, rfl, ?_⟩, rfl⟩
  rintro ⟨r, hr, -, hmaker, -⟩
  obtain rfl := List.mem_singleton.1 hr
  exact absurd (Value.text.inj hmaker) (by decide)

end FreelanceBoard
