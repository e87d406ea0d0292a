import FreelanceBoard.Proofs.MemoryRuns

/-! What the operations of the catalog do to a store in memory, whatever its records are. Each
operation is one of a few deeds, told with all that it writes. -/
namespace FreelanceBoard

namespace Catalog

open Board Collection in
/-- The part of adding a proposal that comes once it is stored. -/
def listProposal (actor project : Value) (record : Fields) (id : String) (created : Value) :
    BoardProgram Value := do
  appendToUser actor "proposals" id (proposerRecord actor id)
  let proposers ← attempt (itemsOf (.object record) "proposers")
  if actor.memberOf proposers then pure created
  else
    let _ ← update projects project [("proposers", .list (proposers ++ [actor]))]
    pure created

/-- The changed fields of a project as they were read. -/
def revision (changed : Fields) (p : Project) : Fields :=
  changed.map fun (k, _) => (k, Fields.get p.fields k)

theorem issues?_of_refuseLocked {changes : Value} {e : Failure} (h : refuseLocked changes = .failed e) :
    e.issues? = none := by
  rw [refuseLocked] at h
  cases hlocked : lockedFields changes with
  | error f =>
    rw [hlocked] at h
    cases h
    rfl
  | ok locked =>
    rw [hlocked] at h
    cases locked with
    | nil => cases h
    | cons v vs =>
      cases hsorted : Value.sorted (v :: vs) with
      | error f =>
        simp [Board.attempt, Fault.lift, Program.ofExcept, hsorted] at h
        rw [← h]
        rfl
      | ok names =>
        simp [Board.attempt, Fault.lift, Program.ofExcept, hsorted] at h
        rw [← h]
        rfl

end Catalog

open Memory Collection Catalog in
/-- What an operation does to a store in memory, to the number of ids that have been issued, and its
outcome. An operation may fail after its first write where a list that it extends cannot be read. -/
inductive Deed (ids : Nat → String) :
    Operation → Memory × Nat → Except Failure Value → Memory × Nat → Prop
  | read {o : Operation} {s : Memory × Nat} {outcome : Except Failure Value} (h : o.OnlyReads) :
      Deed ids o s outcome s
  | refused {o : Operation} {m : Memory} {n k : Nat} {e : Failure} (hissued : n ≤ k)
      (he : ∀ id issues, e ≠ .projectInvalid id issues) : Deed ids o (m, n) (.error e) (m, k)
  | projectAdded {m : Memory} {n : Nat} {actor title scope budget skills : Value} {p : Project}
      {items : List Value} (hactor : actor.truthy = true)
      (hread : Project.readFields (newProject (ids n) actor title scope budget skills) = .valid p)
      (hitems : m.userItems actor "projects" = .ok items) :
      Deed ids (.addProject actor title scope budget skills) (m, n) (.ok p.toDocument)
        ((m.write projects (.text (ids n)) p.fields).listing actor "projects" items (ids n)
          (ownerRecord actor (ids n)), n + 1)
  | projectUnlisted {m : Memory} {n : Nat} {actor title scope budget skills : Value} {p : Project}
      {f : Fault} (hactor : actor.truthy = true)
      (hread : Project.readFields (newProject (ids n) actor title scope budget skills) = .valid p)
      (hitems : m.userItems actor "projects" = .error f) :
      Deed ids (.addProject actor title scope budget skills) (m, n) (.error (.fault f))
        (m.write projects (.text (ids n)) p.fields, n + 1)
  | proposalAdded {m : Memory} {n : Nat} {actor project letter budget : Value} {record : Fields}
      {r : Proposal} {items others : List Value} (hactor : actor.truthy = true)
      (hproject : m.record? projects project = some record)
      (hread : Proposal.readFields (newProposal (ids n) actor project letter budget) = .valid r)
      (hitems : m.userItems actor "proposals" = .ok items)
      (hothers : itemsOf (.object record) "proposers" = .ok others) :
      Deed ids (.addProposal actor project letter budget) (m, n) (.ok r.toDocument)
        (((m.write proposals (.text (ids n)) r.fields).listing actor "proposals" items (ids n)
          (proposerRecord actor (ids n))).proposing project record others actor, n + 1)
  | proposalUnlisted {m : Memory} {n : Nat} {actor project letter budget : Value} {record : Fields}
      {r : Proposal} {f : Fault} (hactor : actor.truthy = true)
      (hproject : m.record? projects project = some record)
      (hread : Proposal.readFields (newProposal (ids n) actor project letter budget) = .valid r)
      (hitems : m.userItems actor "proposals" = .error f) :
      Deed ids (.addProposal actor project letter budget) (m, n) (.error (.fault f))
        (m.write proposals (.text (ids n)) r.fields, n + 1)
  | proposerUnlisted {m : Memory} {n : Nat} {actor project letter budget : Value} {record : Fields}
      {r : Proposal} {items : List Value} {f : Fault} (hactor : actor.truthy = true)
      (hproject : m.record? projects project = some record)
      (hread : Proposal.readFields (newProposal (ids n) actor project letter budget) = .valid r)
      (hitems : m.userItems actor "proposals" = .ok items)
      (hothers : itemsOf (.object record) "proposers" = .error f) :
      Deed ids (.addProposal actor project letter budget) (m, n) (.error (.fault f))
        ((m.write proposals (.text (ids n)) r.fields).listing actor "proposals" items (ids n)
          (proposerRecord actor (ids n)), n + 1)
  | changesInvalid {m : Memory} {n : Nat} {actor id : Value} {record changed : Fields}
      {issues : List Issue} (hactor : actor.truthy = true)
      (hproject : m.record? projects id = some record)
      (howner : (Fields.get record "owner").same actor = true)
      (hnames : ∀ key ∈ Fields.keys changed, key ∈ editableFields)
      (hread : Project.readFields (record.putAll changed) = .invalid issues) :
      Deed ids (.updateProject actor id (.object changed)) (m, n) (.error (.projectInvalid id issues))
        (m, n)
  | projectChanged {m : Memory} {n : Nat} {actor id : Value} {record changed : Fields} {p : Project}
      (hactor : actor.truthy = true) (hproject : m.record? projects id = some record)
      (howner : (Fields.get record "owner").same actor = true)
      (hnames : ∀ key ∈ Fields.keys changed, key ∈ editableFields)
      (hread : Project.readFields (record.putAll changed) = .valid p) :
      Deed ids (.updateProject actor id (.object changed)) (m, n)
        (.ok (.object (record.putAll (revision changed p))))
        (m.write projects id (record.putAll (revision changed p)), n)
  | projectDeleted {m : Memory} {n : Nat} {actor id : Value} {record : Fields} {items : List Value}
      (hactor : actor.truthy = true) (hproject : m.record? projects id = some record)
      (howner : (Fields.get record "owner").same actor = true)
      (hitems : m.userItems actor "projects" = .ok items) :
      Deed ids (.deleteProject actor id) (m, n) (.ok .null)
        ((m.unlisting actor items id).without projects id, n)
  | freelancerHired {m : Memory} {n : Nat} {project proposal freelancer : Value} {record r : Fields}
      {others : List Value} (hproject : m.record? projects project = some record)
      (hproposal : m.record? proposals proposal = some r)
      (hothers : itemsOf (.object record) "freelancers" = .ok others) :
      Deed ids (.hireFreelancer project proposal freelancer) (m, n)
        (.ok (.object (hiring record others freelancer)))
        ((m.write proposals proposal (r.put "verdict" hired)).write projects project
          (hiring record others freelancer), n)
  | freelancerUnlisted {m : Memory} {n : Nat} {project proposal freelancer : Value}
      {record r : Fields} {f : Fault} (hproject : m.record? projects project = some record)
      (hproposal : m.record? proposals proposal = some r)
      (hothers : itemsOf (.object record) "freelancers" = .error f) :
      Deed ids (.hireFreelancer project proposal freelancer) (m, n) (.error (.fault f))
        (m.write proposals proposal (r.put "verdict" hired), n)

namespace Memory.Ends

open Collection

variable {ids : Nat → String} {m : Memory} {n : Nat}

theorem refusal {e : Failure} (he : e.issues? = none) (id : Value) (issues : List Issue) :
    e ≠ .projectInvalid id issues := by
  rintro rfl
  cases he

theorem addProject (ids : Nat → String) (m : Memory) (n : Nat) (actor title scope budget skills : Value) :
    ∃ outcome t, Ends ids (Catalog.addProject actor title scope budget skills) (m, n) outcome t ∧
      Deed ids (.addProject actor title scope budget skills) (m, n) outcome t := by
  by_cases hactor : actor.truthy = true
  · cases hread : Project.readFields (Catalog.newProject (ids n) actor title scope budget skills) with
    | invalid issues =>
      have hrun : Ends ids (Catalog.addProject actor title scope budget skills) (m, n)
          (.error (.invalid issues)) (m, n + 1) := by
        refine bind (requireActor hactor) (bind freshId (bind_error ?_))
        rw [hread]
        exact failed _
      exact ⟨_, _, hrun, .refused (Nat.le_succ n) fun _ _ h => by cases h⟩
    | valid p =>
      obtain ⟨hid, -⟩ := Project.readFields_new hread
      have hinsert : Ends ids (Catalog.insert projects p.fields) (m, n + 1) (.ok p.toDocument)
          (m.write projects (.text (ids n)) p.fields, n + 1) :=
        insert (congrArg (fun k => some (Value.text k)) hid) (Value.isKey_text _)
      have hsame : (m.write projects (.text (ids n)) p.fields).userItems actor "projects" =
          m.userItems actor "projects" := userItems_write_of_ne m _ _ _ _ (by decide)
      have hrun : ∀ outcome t,
          Ends ids ((Catalog.appendToUser actor "projects" (ids n)
            (Catalog.ownerRecord actor (ids n))).bind fun _ => .done p.toDocument)
            (m.write projects (.text (ids n)) p.fields, n + 1) outcome t →
          Ends ids (Catalog.addProject actor title scope budget skills) (m, n) outcome t := by
        intro outcome t hrest
        refine bind (requireActor hactor) (bind freshId ?_)
        rw [hread]
        exact bind (done p) (bind hinsert hrest)
      cases hitems : m.userItems actor "projects" with
      | error f =>
        exact ⟨_, _, hrun _ _ (bind_error (appendToUser_error _ (hsame.trans hitems))),
          .projectUnlisted hactor hread hitems⟩
      | ok items =>
        have happend := appendToUser ids (n + 1) (ids n) (hsame.trans hitems)
          (rfl : (Catalog.ownerRecord actor (ids n)).lookup "id" = some actor)
        exact ⟨_, _, hrun _ _ (bind happend (done _)), .projectAdded hactor hread hitems⟩
  · exact ⟨_, _, bind_error (requireActor_refused hactor), .refused (Nat.le_refl n) (refusal rfl)⟩

/-- What comes of a proposal that can be read: it is stored, and then listed twice. -/
theorem addProposal_of_read {actor project letter budget : Value} {record : Fields} {r : Proposal}
    {outcome : Except Failure Value} {t : Memory × Nat} (hactor : actor.truthy = true)
    (hkey : project.isKey = true) (hproject : m.record? projects project = some record)
    (hread : Proposal.readFields (Catalog.newProposal (ids n) actor project letter budget) = .valid r)
    (hrest : Ends ids (Catalog.listProposal actor project record (ids n) r.toDocument)
      (m.write proposals (.text (ids n)) r.fields, n + 1) outcome t) :
    Ends ids (Catalog.addProposal actor project letter budget) (m, n) outcome t := by
  obtain ⟨hid, -⟩ := Proposal.readFields_new hread hactor
  have hinsert : Ends ids (Catalog.insert proposals r.fields) (m, n + 1) (.ok r.toDocument)
      (m.write proposals (.text (ids n)) r.fields, n + 1) :=
    insert (congrArg (fun k => some (Value.text k)) hid) (Value.isKey_text _)
  refine bind (requireActor hactor) (bind (getProject ids n hkey hproject) (bind freshId ?_))
  rw [hread]
  exact bind (done r) (bind hinsert hrest)

theorem listProposal {actor project : Value} {record : Fields} {items others : List Value} {id : String}
    (created : Value) (hkey : project.isKey = true)
    (hproject : m.record? projects project = some record)
    (hitems : m.userItems actor "proposals" = .ok items)
    (hothers : Catalog.itemsOf (.object record) "proposers" = .ok others) :
    Ends ids (Catalog.listProposal actor project record id created) (m, n) (.ok created)
      ((m.listing actor "proposals" items id (Catalog.proposerRecord actor id)).proposing project record
        others actor, n) := by
  have hthere : (m.listing actor "proposals" items id (Catalog.proposerRecord actor id)).record? projects
      project = some record := by
    rw [record?_listing_of_ne _ _ _ _ _ _ _ (by decide), hproject]
  refine bind (appendToUser ids n id hitems rfl) (bind (attempt_ok hothers) ?_)
  rw [proposing]
  by_cases hmem : actor.memberOf others = true
  · rw [if_pos hmem, if_pos hmem]
    exact done created
  · rw [if_neg hmem, if_neg hmem]
    exact bind (update ids n _ hkey hthere) (done created)

theorem addProposal (ids : Nat → String) (m : Memory) (n : Nat) (actor project letter budget : Value) :
    ∃ outcome t, Ends ids (Catalog.addProposal actor project letter budget) (m, n) outcome t ∧
      Deed ids (.addProposal actor project letter budget) (m, n) outcome t := by
  by_cases hactor : actor.truthy = true
  · obtain ⟨record, hkey, hproject⟩ | ⟨e, he, hmissing⟩ := getProject_cases ids m n project
    · cases hread : Proposal.readFields (Catalog.newProposal (ids n) actor project letter budget) with
      | invalid issues =>
        have hrun : Ends ids (Catalog.addProposal actor project letter budget) (m, n)
            (.error (.invalid issues)) (m, n + 1) := by
          refine bind (requireActor hactor) (bind (getProject ids n hkey hproject)
            (bind freshId (bind_error ?_)))
          rw [hread]
          exact failed _
        exact ⟨_, _, hrun, .refused (Nat.le_succ n) fun _ _ h => by cases h⟩
      | valid r =>
        have hrun : ∀ outcome t,
            Ends ids (Catalog.listProposal actor project record (ids n) r.toDocument)
              (m.write proposals (.text (ids n)) r.fields, n + 1) outcome t →
            Ends ids (Catalog.addProposal actor project letter budget) (m, n) outcome t :=
          fun _ _ => addProposal_of_read hactor hkey hproject hread
        have hsame : (m.write proposals (.text (ids n)) r.fields).userItems actor "proposals" =
            m.userItems actor "proposals" := userItems_write_of_ne m _ _ _ _ (by decide)
        have hthere : (m.write proposals (.text (ids n)) r.fields).record? projects project =
            some record := by
          rw [record?_write_of_ne _ _ _ _ (by decide), hproject]
        cases hitems : m.userItems actor "proposals" with
        | error f =>
          exact ⟨_, _, hrun _ _ (bind_error (appendToUser_error _ (hsame.trans hitems))),
            .proposalUnlisted hactor hproject hread hitems⟩
        | ok items =>
          cases hothers : Catalog.itemsOf (.object record) "proposers" with
          | error f =>
            have happend := appendToUser ids (n + 1) (ids n) (hsame.trans hitems)
              (rfl : (Catalog.proposerRecord actor (ids n)).lookup "id" = some actor)
            exact ⟨_, _, hrun _ _ (bind happend (bind_error (attempt_error hothers))),
              .proposerUnlisted hactor hproject hread hitems hothers⟩
          | ok others =>
            have hlist := hrun _ _ (listProposal r.toDocument hkey hthere
              (hsame.trans hitems) hothers)
            exact ⟨_, _, hlist, .proposalAdded hactor hproject hread hitems hothers⟩
    · exact ⟨_, _, bind (requireActor hactor) (bind_error hmissing),
        .refused (Nat.le_refl n) (refusal he)⟩
  · exact ⟨_, _, bind_error (requireActor_refused hactor), .refused (Nat.le_refl n) (refusal rfl)⟩

theorem updateProject (ids : Nat → String) (m : Memory) (n : Nat) (actor id changes : Value) :
    ∃ outcome t, Ends ids (Catalog.updateProject actor id changes) (m, n) outcome t ∧
      Deed ids (.updateProject actor id changes) (m, n) (outcome.map fun v => v.getD .null) t := by
  by_cases hactor : actor.truthy = true
  · obtain ⟨record, hkey, hproject, howner⟩ | ⟨e, he, hrefused⟩ := ownedProject_cases ids m n actor id
    · have howned := ownedProject ids n hkey hproject howner
      obtain ⟨hlocked, hnames⟩ | ⟨e, hlocked⟩ := Gives.refuseLocked_cases changes
      · have hrun : ∀ outcome t,
            Ends ids ((Program.ofExcept (Catalog.changedProject id (.object record) changes)).bind
              fun updates => Catalog.update projects id updates) (m, n) outcome t →
            Ends ids (Catalog.updateProject actor id changes) (m, n) outcome t := by
          intro outcome t hrest
          refine bind (requireActor hactor) (bind howned ?_)
          rw [hlocked]
          exact bind (done ()) hrest
        cases changes with
        | object changed =>
          cases hread : Project.readFields (record.putAll changed) with
          | invalid issues =>
            refine ⟨_, _, hrun _ _ (bind_error (e := .projectInvalid id issues) ?_),
              .changesInvalid hactor hproject howner (hnames changed rfl) hread⟩
            rw [Catalog.changedProject, hread]
            exact failed _
          | valid p =>
            refine ⟨_, _, hrun _ _ (bind (a := Catalog.revision changed p) ?_ (update _ _ _ hkey hproject)),
              .projectChanged hactor hproject howner (hnames changed rfl) hread⟩
            rw [Catalog.changedProject, hread]
            exact done _
        | _ => exact ⟨_, _, hrun _ _ (bind_error (failed _)), .refused (Nat.le_refl n) (refusal rfl)⟩
      · refine ⟨_, _, bind (requireActor hactor) (bind howned (bind_error (e := e) ?_)),
          .refused (Nat.le_refl n) (refusal (Catalog.issues?_of_refuseLocked hlocked))⟩
        rw [hlocked]
        exact failed e
    · exact ⟨_, _, bind (requireActor hactor) (bind_error hrefused),
        .refused (Nat.le_refl n) (refusal he)⟩
  · exact ⟨_, _, bind_error (requireActor_refused hactor), .refused (Nat.le_refl n) (refusal rfl)⟩

theorem deleteProject (ids : Nat → String) (m : Memory) (n : Nat) (actor id : Value) :
    ∃ outcome t, Ends ids (Catalog.deleteProject actor id) (m, n) outcome t ∧
      Deed ids (.deleteProject actor id) (m, n) (outcome.map fun _ => .null) t := by
  by_cases hactor : actor.truthy = true
  · obtain ⟨record, hkey, hproject, howner⟩ | ⟨e, he, hrefused⟩ := ownedProject_cases ids m n actor id
    · have howned := ownedProject ids n hkey hproject howner
      have hlist := userItems ids m n actor "projects"
      cases hitems : m.userItems actor "projects" with
      | error f =>
        rw [hitems] at hlist
        exact ⟨_, _, bind (requireActor hactor) (bind howned (bind_error hlist)),
          .refused (Nat.le_refl n) (refusal rfl)⟩
      | ok items =>
        rw [hitems] at hlist
        refine ⟨.ok (), _, ?_, .projectDeleted hactor hproject howner hitems⟩
        refine bind (requireActor hactor) (bind howned (bind hlist ?_))
        have hthere : (m.unlisting actor items id).record? projects id = some record := by
          rw [record?, entries_unlisting_of_ne m actor items id (by decide)]
          exact hproject
        have hdelete := delete ids n hkey hthere
        by_cases hmem : id.memberOf items = true
        · obtain ⟨r, hactorKey, hr, hunlisting⟩ := unlisting_of_memberOf hitems hmem
          rw [if_pos hmem]
          rw [hunlisting] at hdelete ⊢
          exact bind (update _ _ _ hactorKey hr) (bind hdelete (done ()))
        · rw [if_neg hmem]
          rw [unlisting_of_not_memberOf hmem] at hdelete ⊢
          exact bind hdelete (done ())
    · exact ⟨_, _, bind (requireActor hactor) (bind_error hrefused),
        .refused (Nat.le_refl n) (refusal he)⟩
  · exact ⟨_, _, bind_error (requireActor_refused hactor), .refused (Nat.le_refl n) (refusal rfl)⟩

/-- A hiring whose project and proposal are there marks the proposal and lists the freelancer. -/
theorem hireFreelancer_found (ids : Nat → String) (n : Nat) {project proposal : Value}
    {record r : Fields} {others : List Value} (freelancer : Value) (hkey : project.isKey = true)
    (hkey' : proposal.isKey = true) (hproject : m.record? projects project = some record)
    (hproposal : m.record? proposals proposal = some r)
    (hothers : Catalog.itemsOf (.object record) "freelancers" = .ok others) :
    Ends ids (Catalog.hireFreelancer project proposal freelancer) (m, n)
      (.ok (some (.object (hiring record others freelancer))))
      ((m.write proposals proposal (r.put "verdict" Catalog.hired)).write projects project
        (hiring record others freelancer), n) := by
  have hthere : (m.write proposals proposal (r.put "verdict" Catalog.hired)).record? projects project =
      some record := by
    rw [record?_write_of_ne _ _ _ _ (by decide), hproject]
  exact bind (getProject ids n hkey hproject) (bind (getProposal ids n hkey' hproposal)
    (bind (update ids n _ hkey' hproposal) (bind (attempt_ok hothers) (update _ _ _ hkey hthere))))

theorem hireFreelancer (ids : Nat → String) (m : Memory) (n : Nat)
    (project proposal freelancer : Value) :
    ∃ outcome t, Ends ids (Catalog.hireFreelancer project proposal freelancer) (m, n) outcome t ∧
      Deed ids (.hireFreelancer project proposal freelancer) (m, n)
        (outcome.map fun v => v.getD .null) t := by
  obtain ⟨record, hkey, hproject⟩ | ⟨e, he, hmissing⟩ := getProject_cases ids m n project
  · have hfound := getProject ids n hkey hproject
    obtain ⟨r, hkey', hproposal⟩ | ⟨e, he, hmissing⟩ := getProposal_cases ids m n proposal
    · cases hothers : Catalog.itemsOf (.object record) "freelancers" with
      | error f =>
        have hverdict := update ids n [("verdict", Catalog.hired)] hkey' hproposal
        exact ⟨_, _, bind hfound (bind (getProposal ids n hkey' hproposal)
          (bind hverdict (bind_error (attempt_error hothers)))),
          .freelancerUnlisted hproject hproposal hothers⟩
      | ok others =>
        exact ⟨_, _, hireFreelancer_found ids n freelancer hkey hkey' hproject hproposal hothers,
          .freelancerHired hproject hproposal hothers⟩
    · exact ⟨_, _, bind hfound (bind_error hmissing), .refused (Nat.le_refl n) (refusal he)⟩
  · exact ⟨_, _, bind_error hmissing, .refused (Nat.le_refl n) (refusal he)⟩

end Memory.Ends

namespace Operation

open Memory

/-- Every operation is a deed, on every store in memory and with all arguments. -/
theorem run_deed (ids : Nat → String) (s : Memory × Nat) (o : Operation) :
    Deed ids o s (o.program.run (Board.withIds ids handle) s).1
      (o.program.run (Board.withIds ids handle) s).2 := by
  obtain ⟨m, n⟩ := s
  have of_ends : ∀ {outcome t}, Ends ids o.program (m, n) outcome t → Deed ids o (m, n) outcome t →
      Deed ids o (m, n) (o.program.run (Board.withIds ids handle) (m, n)).1
        (o.program.run (Board.withIds ids handle) (m, n)).2 := by
    intro outcome t hends hdeed
    rw [hends]
    exact hdeed
  by_cases hreads : o.OnlyReads
  · have hstate : (o.program.run (Board.withIds ids handle) (m, n)).2 = (m, n) :=
      hreads.reads.run_state (fun c hc s => handle_of_isRead hc s) (m, n)
    rw [hstate]
    exact .read hreads
  · cases o with
    | addProposal actor project letter budget =>
      obtain ⟨outcome, t, hends, hdeed⟩ := Ends.addProposal ids m n actor project letter budget
      exact of_ends hends hdeed
    | addProject actor title scope budget skills =>
      obtain ⟨outcome, t, hends, hdeed⟩ := Ends.addProject ids m n actor title scope budget skills
      exact of_ends hends hdeed
    | updateProject actor id changes =>
      obtain ⟨outcome, t, hends, hdeed⟩ := Ends.updateProject ids m n actor id changes
      exact of_ends (hends.map _) hdeed
    | deleteProject actor id =>
      obtain ⟨outcome, t, hends, hdeed⟩ := Ends.deleteProject ids m n actor id
      exact of_ends (hends.map _) hdeed
    | hireFreelancer project proposal freelancer =>
      obtain ⟨outcome, t, hends, hdeed⟩ := Ends.hireFreelancer ids m n project proposal freelancer
      exact of_ends (hends.map _) hdeed
    | _ => exact absurd trivial hreads

/-- What every deed preserves holds at the end of a run, if it held at its start. -/
theorem runAll_kept {ids : Nat → String} (Kept : Memory × Nat → Prop)
    (hstep : ∀ o s outcome t, Deed ids o s outcome t → Kept s → Kept t) (ops : List Operation)
    {s : Memory × Nat} (hs : Kept s) : Kept (runAll (Board.withIds ids handle) ops s).2 := by
  induction ops generalizing s with
  | nil => exact hs
  | cons o rest ih =>
    rw [runAll_cons]
    exact ih (hstep o s _ _ (run_deed ids s o) hs)

end Operation

end FreelanceBoard
