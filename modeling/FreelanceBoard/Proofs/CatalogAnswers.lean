import FreelanceBoard.Proofs.CatalogReads
import FreelanceBoard.Proofs.CatalogRun

/-! What the operations of the catalog answer on every store that can be relied on. Those that look
for records find the same ones on all of these stores, but not in the same order. -/
namespace FreelanceBoard

/-- The same value, or the same values in a list, whatever their order is. -/
def Value.Reorders (v w : Value) : Prop :=
  v = w ∨ ∃ vs ws, v = .list vs ∧ w = .list ws ∧ vs.Perm ws

namespace Value.Reorders

variable {u v w : Value}

theorem refl (v : Value) : v.Reorders v := .inl rfl

theorem symm (h : v.Reorders w) : w.Reorders v := by
  rcases h with rfl | ⟨vs, ws, rfl, rfl, hperm⟩
  · exact .inl rfl
  · exact .inr ⟨ws, vs, rfl, rfl, hperm.symm⟩

theorem trans (h : u.Reorders v) (h' : v.Reorders w) : u.Reorders w := by
  rcases h with rfl | ⟨us, vs, rfl, rfl, hperm⟩
  · exact h'
  · rcases h' with rfl | ⟨_, ws, hvs, rfl, hperm'⟩
    · exact .inr ⟨us, vs, rfl, rfl, hperm⟩
    · cases hvs
      exact .inr ⟨us, ws, rfl, rfl, hperm.trans hperm'⟩

end Value.Reorders

/-- The same failure, or results that are the same but for the order of a list. -/
inductive SameUpToOrder : Except Failure Value → Except Failure Value → Prop
  | result {v w : Value} (h : v.Reorders w) : SameUpToOrder (.ok v) (.ok w)
  | failure (e : Failure) : SameUpToOrder (.error e) (.error e)

namespace SameUpToOrder

variable {a b c : Except Failure Value}

theorem refl (a : Except Failure Value) : SameUpToOrder a a := by
  cases a with
  | error e => exact .failure e
  | ok v => exact .result (.refl v)

theorem symm (h : SameUpToOrder a b) : SameUpToOrder b a := by
  cases h with
  | result h => exact .result h.symm
  | failure e => exact .failure e

theorem trans (h : SameUpToOrder a b) (h' : SameUpToOrder b c) : SameUpToOrder a c := by
  cases h with
  | result h =>
    cases h' with
    | result h' => exact .result (h.trans h')
  | failure e => exact h'

end SameUpToOrder

/-- The outcome of a search that has found some items, in whatever order. -/
def Finds {α : Type} (f : α → Value) (as : List α) (o : Except Failure (List Value)) : Prop :=
  ∃ found : List α, o = .ok (found.map f) ∧ found.Perm as

theorem finds_iff {α : Type} {f : α → Value} {as : List α} {o : Except Failure (List Value)} :
    Finds f as o ↔ ∃ vs, o = .ok vs ∧ vs.Perm (as.map f) := by
  constructor
  · rintro ⟨found, rfl, hfound⟩
    exact ⟨_, rfl, hfound.map f⟩
  · rintro ⟨vs, rfl, hvs⟩
    have hcomp : Relation.Comp (fun l l' => l = List.map f l') List.Perm vs as := by
      rw [List.eq_map_comp_perm]
      exact hvs
    obtain ⟨found, hfound, hperm⟩ := hcomp
    exact ⟨found, congrArg Except.ok hfound, hperm⟩

theorem Value.textOrNull_ofOption (s : Option String) : (Value.ofOption .text s).TextOrNull := by
  cases s with
  | none => exact .inl rfl
  | some s => exact .inr ⟨s, rfl⟩

theorem Predicate.suits_among {r : Value} {path id : String} (h : r.resolve path = .text id)
    (names : List String) : (Predicate.among path (names.map .text)).Suits r := by
  refine ⟨?_, .inr ⟨id, h⟩⟩
  intro v hv
  obtain ⟨s, -, rfl⟩ := List.mem_map.1 hv
  exact ⟨s, rfl⟩

/-- Whether a predicate admits a record that suits it. -/
def Predicate.keeps (p : Predicate) (r : Fields) : Bool := p.toQuery.holds (fun _ _ => none) (.object r)

/-- The projects that the proposals are for which a predicate admits. -/
def Ledger.proposedTo (L : Ledger) (p : Predicate) : List Posting :=
  L.postings.filter fun q =>
    decide (q.id ∈ (L.proposals.filter fun r => p.keeps r.fields).map Proposal.projectId)

namespace Gives

open Collection

variable {allowed : Value → Prop} {ids : Nat → String} {L : Ledger} {n : Nat}

theorem bind_finds {α β : Type} {f : α → Value} {as : List α} {p : BoardProgram (List Value)}
    {g : List Value → BoardProgram β} {P : Except Failure β → Prop}
    {before middle after : Ledger × Nat}
    (hp : Gives allowed ids p before (Finds f as) middle)
    (hg : ∀ found : List α, found.Perm as → Gives allowed ids (g (found.map f)) middle P after) :
    Gives allowed ids (p.bind g) before P after := by
  have hfound : Gives allowed ids p before
      (fun o => ∃ vs, o = .ok vs ∧ ∃ found : List α, vs = found.map f ∧ found.Perm as) middle :=
    hp.mono fun o ⟨found, ho, hfound⟩ => ⟨_, ho, found, rfl, hfound⟩
  refine bind_of hfound ?_
  rintro _ ⟨found, rfl, hperm⟩
  exact hg found hperm

theorem upToOrder {p : BoardProgram Value} {outcome : Except Failure Value}
    {before after : Ledger × Nat}
    (hp : Gives allowed ids p before (· = outcome) after) :
    Gives allowed ids p before (SameUpToOrder outcome) after := by
  refine hp.mono fun o ho => ?_
  rw [ho]
  exact SameUpToOrder.refl outcome

theorem giveList {α : Type} {f : α → Value} {as : List α} {p : BoardProgram (List Value)}
    {before after : Ledger × Nat} (hp : Gives allowed ids p before (Finds f as) after) :
    Gives allowed ids (Operation.giveList p) before (SameUpToOrder (.ok (.list (as.map f)))) after :=
  bind_finds hp fun _ hfound => done (.result (.inr ⟨_, _, rfl, rfl, (hfound.map f).symm⟩))

/-- The records that a predicate admits are found, in some order. -/
theorem findAdmitted {α : Type} {name : String} (hname : name ∈ known) {f : α → Fields} {as : List α}
    (hcontents : L.contents name = as.map f) {p : Predicate} {keep : α → Bool}
    (hsuits : ∀ a ∈ as, p.Suits (.object (f a)))
    (hkeep : ∀ a ∈ as, p.admits (.object (f a)) = .ok (keep a)) :
    Gives allowed ids (Catalog.find name p) (L, n) (Finds (fun a => .object (f a)) (as.filter keep))
      (L, n) := by
  have hsuitsAll : ∀ r ∈ L.contents name, p.Suits (.object r) := by
    intro r hr
    rw [hcontents] at hr
    obtain ⟨a, ha, rfl⟩ := List.mem_map.1 hr
    exact hsuits a ha
  have hkeepAll : ∀ r ∈ L.contents name, p.admits (.object r) = .ok (p.keeps r) :=
    fun r hr => Predicate.admits_eq_holds _ p (hsuitsAll r hr)
  have hsame : ∀ a ∈ as, p.keeps (f a) = keep a := fun a ha =>
    Except.ok.inj ((Predicate.admits_eq_holds _ p (hsuits a ha)).symm.trans (hkeep a ha))
  have hvalues : ((L.contents name).filter p.keeps).map Value.object =
      (as.filter keep).map fun a => .object (f a) := by
    rw [hcontents, List.filter_map, List.map_map, ← List.filter_congr hsame]
    rfl
  refine (find hname hsuitsAll hkeepAll).mono fun o ho => ?_
  rw [hvalues] at ho
  exact finds_iff.2 ho

/-- The projects of some ids, whatever the order of these. -/
theorem projectsByIds {asked names : List String} (hnames : asked.Perm names) :
    Gives allowed ids (Catalog.projectsByIds (asked.map .text)) (L, n)
      (Finds Posting.toDocument (L.postings.filter fun q => decide (q.id ∈ names))) (L, n) := by
  cases asked with
  | nil =>
    rw [hnames.nil_eq.symm, List.filter_eq_nil_iff.2 fun q _ => by simp]
    exact done ⟨[], rfl, List.Perm.refl _⟩
  | cons name rest =>
    have hsuits : ∀ q ∈ L.postings,
        (Predicate.among "id" ((name :: rest).map .text)).Suits (.object q.fields) :=
      fun q _ => Predicate.suits_among q.resolve_id _
    have hkeep : ∀ q ∈ L.postings,
        (Predicate.among "id" ((name :: rest).map .text)).admits (.object q.fields) =
          .ok (decide (q.id ∈ names)) := by
      intro q _
      rw [← decide_eq_decide.2 hnames.mem_iff]
      exact q.admits_among (name :: rest)
    exact findAdmitted projects_mem_known L.contents_projects hsuits hkeep

/-- The proposals that a predicate finds. -/
theorem findProposals {p : Predicate} (hsuits : ∀ r ∈ L.proposals, p.Suits r.toDocument) :
    Gives allowed ids (Catalog.find proposals p) (L, n)
      (Finds Proposal.toDocument (L.proposals.filter fun r => p.keeps r.fields)) (L, n) :=
  findAdmitted proposals_mem_known L.contents_proposals hsuits
    fun r hr => Predicate.admits_eq_holds _ p (hsuits r hr)

theorem projectsOfProposals {p : Predicate} (hsuits : ∀ r ∈ L.proposals, p.Suits r.toDocument) :
    Gives allowed ids (Catalog.projectsOfProposals p) (L, n)
      (Finds Posting.toDocument (L.proposedTo p)) (L, n) := by
  refine bind_finds (findProposals hsuits) fun rs hrs => ?_
  have hcollect : Value.collect (fun v => v.item "project_id") (rs.map Proposal.toDocument) =
      .ok ((rs.map Proposal.projectId).map .text) := by
    rw [List.map_map]
    exact Value.collect_map fun r _ => rfl
  exact bind (attempt hcollect) (projectsByIds (hrs.map Proposal.projectId))

section

variable (hallowed : ∀ s, allowed (.text s))
include hallowed

theorem getUserProjects (user : String) :
    Gives allowed ids (Catalog.getUserProjects (.text user)) (L, n)
      (Finds Posting.toDocument
        (L.postings.filter fun q => decide (q.id ∈ (L.user (.text user)).projects))) (L, n) := by
  have hkey : allowed (Name.text user).value := hallowed user
  exact bind (userItems hkey Account.get_projects fun _ => rfl) (projectsByIds (List.Perm.refl _))

theorem getUserCurrentProjects (user : String) :
    Gives allowed ids (Catalog.getUserCurrentProjects (.text user)) (L, n)
      (Finds Posting.toDocument ((L.postings.filter fun q =>
        decide (q.id ∈ (L.user (.text user)).projects)).filter
          fun q => q.project.isPublished && !q.hired.isEmpty)) (L, n) := by
  refine bind_finds (getUserProjects hallowed user) fun qs hqs => ?_
  have hkeep := Value.keepIf_map fun q (_ : q ∈ qs) => q.isCurrent_toDocument
  exact (attempt hkeep).mono fun o ho => ⟨_, ho, hqs.filter _⟩

/-- What proposals of a user are for; one who has none is not asked about. -/
theorem ofUserProposals {p : List Value → Predicate} {user : String}
    (hsuits : ∀ r ∈ L.proposals,
      (p ((L.user (.text user)).proposals.map .text)).Suits r.toDocument) :
    Gives allowed ids ((Catalog.userItems (.text user) "proposals").bind fun found =>
        if found.isEmpty then pure [] else Catalog.projectsOfProposals (p found)) (L, n)
      (Finds Posting.toDocument (if (L.user (.text user)).proposals.isEmpty then []
        else L.proposedTo (p ((L.user (.text user)).proposals.map .text)))) (L, n) := by
  have hkey : allowed (Name.text user).value := hallowed user
  refine bind (userItems hkey Account.get_proposals fun _ => rfl) ?_
  rw [List.isEmpty_map]
  by_cases hnone : (L.user (.text user)).proposals.isEmpty = true
  · rw [if_pos hnone, if_pos hnone]
    exact done ⟨[], rfl, List.Perm.refl _⟩
  · rw [if_neg hnone, if_neg hnone]
    exact projectsOfProposals hsuits

end

end Gives

namespace Proposal

theorem suits_among (r : Proposal) (names : List String) :
    (Predicate.among "id" (names.map .text)).Suits r.toDocument := Predicate.suits_among rfl names

theorem suits_verdict (r : Proposal) (s : String) :
    (Predicate.eq "verdict" (.text s)).Suits r.toDocument :=
  ⟨⟨s, rfl⟩, Value.textOrNull_ofOption r.verdict⟩

theorem suits_freelancer (r : Proposal) (s : String) :
    (Predicate.eq "freelancer_id" (.text s)).Suits r.toDocument :=
  ⟨⟨s, rfl⟩, Value.textOrNull_ofOption r.freelancerId⟩

theorem suits_project (r : Proposal) (s : String) :
    (Predicate.eq "project_id" (.text s)).Suits r.toDocument :=
  ⟨⟨s, rfl⟩, .inr ⟨r.projectId, rfl⟩⟩

end Proposal

namespace Operation

/-- An operation that only reads has the same outcome on every store, but for the order. -/
theorem gives_found (ids : Nat → String) (L : Ledger) (n : Nat) {o : Operation}
    (ho : o.Allows Value.IsText) (hreads : o.OnlyReads) :
    ∃ outcome, Gives Value.IsText ids o.program (L, n) (SameUpToOrder outcome) (L, n) := by
  have hallowed : ∀ s, Value.IsText (.text s) := fun s => ⟨s, rfl⟩
  cases o with
  | getProject id =>
    have hid : Value.IsText id := ho
    obtain ⟨q, rfl, hq⟩ | ⟨e, hmissing⟩ := Gives.getProject_cases ids L n hid
    · exact ⟨_, (Gives.getProject_found hallowed hq).upToOrder⟩
    · exact ⟨_, hmissing.upToOrder⟩
  | getProposal id =>
    have hid : Value.IsText id := ho
    obtain ⟨r, rfl, hr⟩ | ⟨e, hmissing⟩ := Gives.getProposal_cases ids L n hid
    · exact ⟨_, (Gives.getProposal_found hallowed hr).upToOrder⟩
    · exact ⟨_, hmissing.upToOrder⟩
  | getUserProjects user =>
    obtain ⟨u, rfl⟩ := ho
    exact ⟨_, Gives.giveList (Gives.getUserProjects hallowed u)⟩
  | getUserCurrentProjects user =>
    obtain ⟨u, rfl⟩ := ho
    exact ⟨_, Gives.giveList (Gives.getUserCurrentProjects hallowed u)⟩
  | getUserActiveProjects user =>
    obtain ⟨u, rfl⟩ := ho
    have hsuits : ∀ r ∈ L.proposals, (Predicate.all [.among "id" ((L.user (.text u)).proposals.map .text),
        .eq "verdict" Catalog.hired]).Suits r.toDocument :=
      fun r _ => Predicate.suits_all ⟨r.suits_among _, r.suits_verdict _, trivial⟩
    exact ⟨_, Gives.giveList (Gives.ofUserProposals hallowed hsuits)⟩
  | getProjectsByUserProposals user =>
    obtain ⟨u, rfl⟩ := ho
    exact ⟨_, Gives.giveList (Gives.ofUserProposals hallowed fun r _ => r.suits_among _)⟩
  | getProposalsByUser user =>
    obtain ⟨u, rfl⟩ := ho
    exact ⟨_, Gives.giveList (Gives.findProposals fun r _ => r.suits_freelancer u)⟩
  | getProjectProposals project =>
    have hid : Value.IsText project := ho
    obtain ⟨q, rfl, hq⟩ | ⟨e, hmissing⟩ := Gives.getProject_cases ids L n hid
    · exact ⟨_, Gives.giveList (Gives.bind (Gives.getProject_found hallowed hq)
        (Gives.findProposals fun r _ => r.suits_project q.id))⟩
    · exact ⟨.error e, Gives.bind_error (Gives.bind_error hmissing rfl) (SameUpToOrder.refl _)⟩
  | addProposal actor project letter budget => cases hreads
  | addProject actor title scope budget skills => cases hreads
  | updateProject actor id changes => cases hreads
  | deleteProject actor id => cases hreads
  | hireFreelancer project proposal freelancer => cases hreads

/-- Every operation has an outcome and an effect that do not depend on the store. -/
theorem gives_outcome (ids : Nat → String) (L : Ledger) (n : Nat) {o : Operation}
    (ho : o.Allows Value.IsText) :
    ∃ outcome after, Gives Value.IsText ids o.program (L, n) (SameUpToOrder outcome) after := by
  by_cases hreads : o.OnlyReads
  · obtain ⟨outcome, hgives⟩ := gives_found ids L n ho hreads
    exact ⟨outcome, (L, n), hgives⟩
  · obtain ⟨outcome, after, -, hgives⟩ := o.gives_effect (fun s => ⟨s, rfl⟩) ids L n ho hreads
    exact ⟨outcome, after, hgives.upToOrder⟩

/-- Two stores to be relied on that hold the same records at first hold the same records after any
run, and all operations have had the same outcomes, but for the order. -/
theorem runAll_alike {σ τ : Type} {handle : Handler Store Failure σ} {other : Handler Store Failure τ}
    {holds : σ → (String → List Fields) → Prop} {holds' : τ → (String → List Fields) → Prop}
    (hserves : Serves Value.IsText handle holds) (hserves' : Serves Value.IsText other holds')
    (ids : Nat → String) {ops : List Operation} (hops : ∀ o ∈ ops, o.Allows Value.IsText)
    {L : Ledger} {n : Nat} {s : σ} {t : τ} (hs : holds s L.contents) (ht : holds' t L.contents) :
    ∃ L' : Ledger,
      holds (runAll (Board.withIds ids handle) ops (s, n)).2.1 L'.contents ∧
      holds' (runAll (Board.withIds ids other) ops (t, n)).2.1 L'.contents ∧
      List.Forall₂ SameUpToOrder (runAll (Board.withIds ids handle) ops (s, n)).1
        (runAll (Board.withIds ids other) ops (t, n)).1 := by
  -- both runs go along one ledger, which says after each operation what either store holds
  induction ops generalizing L n s t with
  | nil => exact ⟨L, hs, ht, .nil⟩
  | cons o rest ih =>
    obtain ⟨outcome, ⟨L', m⟩, hgives⟩ := gives_outcome ids L n (hops o (by simp))
    obtain ⟨a, s', hrun, hs', ha⟩ := hgives hserves s hs
    obtain ⟨b, t', hrun', ht', hb⟩ := hgives hserves' t ht
    obtain ⟨L'', hs'', ht'', hrest⟩ := ih (fun p hp => hops p (by simp [hp])) hs' ht'
    rw [runAll_cons, runAll_cons, hrun, hrun']
    exact ⟨L'', hs'', ht'', .cons (ha.symm.trans hb) hrest⟩

end Operation

end FreelanceBoard
