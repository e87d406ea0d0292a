import FreelanceBoard.Indexing
import FreelanceBoard.Proofs.FailFast

/-! Programs that close their client. Whatever a script replies, the last request is to close, and what
fails in closing or else in the work before it is what the caller is told. Projects are written at most
once, and only when there is an alias for each collection. -/
namespace FreelanceBoard

open Program Exchange

namespace Script

theorem exists_handle (c : ServerCall) (s : Script) : ∃ r t, handle c s = (.ok r, t) := by
  cases c with
  | request r => exact ⟨_, _, rfl⟩
  | pause seconds => exact ⟨_, _, rfl⟩
  | report line => exact ⟨_, _, rfl⟩

end Script

namespace Server

/-- What a caller is told: how closing the client failed, or else what came of the work. -/
def lastWord (reply : ScriptedReply) (o : Except Failure Unit) : Except Failure Unit :=
  match reply with
  | .ok _ => o
  | .error c => .error (.client c)

theorem ran_ensuring_close {work : ServerProgram Unit} {s t : Script} {log : List Exchange}
    {o : Except Failure Unit} (h : Ran Script.handle work s log o t) :
    Ran Script.handle (ensuring close work) s (log ++ [sent .close (t.answer .close).1])
      (lastWord (t.answer .close).1 o) (t.answer .close).2 := by
  induction work generalizing s log with
  | done a =>
    obtain ⟨⟨⟩, rfl⟩ := h
    refine Script.ran_request rfl ?_
    cases (t.answer .close).1 with
    | ok v => exact .done _ _ _
    | error c => exact .failed _ _ _
  | failed e =>
    obtain ⟨⟨⟩, rfl⟩ := h
    refine Script.ran_request rfl ?_
    cases (t.answer .close).1 with
    | ok v => exact .failed _ _ _
    | error c => exact .failed _ _ _
  | call c next ih =>
    obtain ⟨r, u, hcall⟩ := Script.exists_handle c s
    obtain ⟨rest, rfl, hrest⟩ := h.of_call hcall
    exact .call hcall (ih r hrest)

end Server

namespace Exchange

theorem exists_split_of_notMem {x : Exchange} {first second before after : List Exchange}
    (hx : x ∉ first) (h : first ++ second = before ++ x :: after) :
    ∃ mid, before = first ++ mid ∧ second = mid ++ x :: after := by
  rcases List.append_eq_append_iff.1 h with ⟨mid, rfl, hsecond⟩ | ⟨rest, rfl, hrest⟩
  · exact ⟨mid, rfl, hsecond⟩
  · cases rest with
    | nil => exact ⟨[], by simp, by simpa using hrest.symm⟩
    | cons y ys =>
      obtain ⟨rfl, -⟩ := List.cons.inj hrest
      exact absurd (List.mem_append_right _ List.mem_cons_self) hx

/-- There is an alias, as the server says, or as it was put. -/
def Prepared (log : List Exchange) (name : String) : Prop :=
  (∃ v : Value, v.truthy = true ∧ sent (.aliasExists name) (.ok v) ∈ log) ∨
    ∃ v, sent (.putAlias (Indices.initialIndex name) name) (.ok v) ∈ log

theorem Prepared.mono {log more : List Exchange} {name : String} (h : Prepared log name)
    (hsub : log ⊆ more) : Prepared more name :=
  h.imp (fun ⟨v, hv, hmem⟩ => ⟨v, hv, hsub hmem⟩) fun ⟨v, hmem⟩ => ⟨v, hsub hmem⟩

end Exchange

theorem Server.log_eq_of_ran_reply {σ : Type} {handle : Handler Server Failure σ} {s t : σ}
    {r : Request} {log : List Exchange} {v : Value} (h : Ran handle (reply r) s log (.ok v) t) :
    log = [sent r (.ok v)] := by
  have hrun := h.run_eq
  rw [reply, run_call] at hrun
  rcases hcall : handle (.request r) s with ⟨e | x, u⟩
  · rw [hcall] at hrun
    cases hrun
  · obtain ⟨rest, rfl, hrest⟩ := h.of_call hcall
    cases x with
    | error c => cases hrest.run_eq
    | ok w =>
      obtain ⟨⟨⟩, rfl⟩ := hrest
      rfl

namespace Indices

variable {σ : Type} {handle : Handler Server Failure σ} {s t : σ} {log : List Exchange}

theorem prepared_of_ensureAlias {collection name : String}
    (h : Ran handle (ensureAlias collection name) s log (.ok ()) t) : Prepared log name := by
  obtain ⟨v, s₁, first, rest, rfl, hasked, hrest⟩ := h.of_bind_ok
  obtain rfl := Server.log_eq_of_ran_reply hasked
  by_cases htruthy : v.truthy = true
  · exact .inl ⟨v, htruthy, by simp⟩
  · rw [if_neg htruthy] at hrest
    obtain ⟨-, s₂, made, rest, rfl, -, hrest⟩ := hrest.of_bind_ok
    obtain ⟨w, s₃, put, rest, rfl, hput, -⟩ := hrest.of_bind_ok
    obtain rfl := Server.log_eq_of_ran_reply hput
    exact .inr ⟨w, by simp⟩

theorem prepared_of_ensureAll {aliases : List (String × String)}
    (h : Ran handle (ensureAll aliases) s log (.ok ()) t) : ∀ a ∈ aliases, Prepared log a.2 := by
  induction aliases generalizing s log with
  | nil => exact fun a ha => absurd ha List.not_mem_nil
  | cons a rest ih =>
    obtain ⟨⟨⟩, s₁, first, second, rfl, hfirst, hsecond⟩ := h.of_bind_ok
    intro b hb
    rcases List.mem_cons.1 hb with rfl | hb
    · exact (prepared_of_ensureAlias hfirst).mono (List.subset_append_left _ _)
    · exact (ih hsecond b hb).mono (List.subset_append_right _ _)

end Indices

/-- What passes before a client is closed, and what comes of it. A request that fails is the last one,
and what comes of it all is that failure; what is written is written once, and after there was an alias
for each collection. -/
structure Orderly (config : ServerConfig) (log : List Exchange) (o : Except Failure Unit) : Prop where
  asked : ∀ r reply, sent r reply ∈ log → r.SetsUp ∨ ∃ actions, r = .bulk actions
  unclosed : ∀ reply, sent .close reply ∉ log
  failed : ∀ before r c after, log = before ++ sent r (.error c) :: after →
    after = [] ∧ o = .error (.client c)
  written : ∀ before actions reply after, log = before ++ sent (.bulk actions) reply :: after →
    (∀ a ∈ config.aliases, Prepared before a.2) ∧
      ∀ others answer, sent (.bulk others) answer ∉ before

namespace Orderly

variable {config : ServerConfig} {work : ServerProgram Unit}
  {σ : Type} {handle : Handler Server Failure σ} {s t : σ} {log : List Exchange}
  {o : Except Failure Unit}

theorem of_failFast (hwork : Server.FailFast (fun r => r.SetsUp ∨ ∃ actions, r = .bulk actions) work)
    (h : Ran handle work s log o t)
    (hwritten : ∀ before actions reply after, log = before ++ sent (.bulk actions) reply :: after →
      (∀ a ∈ config.aliases, Prepared before a.2) ∧
        ∀ others answer, sent (.bulk others) answer ∉ before) : Orderly config log o := by
  have hlog := h.exchanges_eq
  have hasked : ∀ r reply, sent r reply ∈ log → r.SetsUp ∨ ∃ actions, r = .bulk actions :=
    fun r reply hmem => hwork.of_mem_exchanges (hlog ▸ hmem)
  refine ⟨hasked, fun reply hmem => ?_, fun before r c after heq => ?_, hwritten⟩
  · rcases hasked _ _ hmem with hsets | ⟨actions, hbulk⟩
    · cases hsets
    · cases hbulk
  · obtain ⟨hafter, hfailed⟩ := hwork.of_failed (hlog.trans heq)
    rw [h.run_eq] at hfailed
    exact ⟨hafter, hfailed⟩

theorem ensure (h : Ran handle (Indices.ensure config) s log o t) : Orderly config log o := by
  have hfast := Indices.failFast_ensure config
  refine of_failFast (hfast.mono fun _ hr => .inl hr) h fun before actions reply after heq => ?_
  have hmem : sent (.bulk actions) reply ∈ log := heq ▸ List.mem_append_right _ List.mem_cons_self
  cases hfast.of_mem_exchanges (h.exchanges_eq ▸ hmem)

end Orderly

namespace Indexing

open Server

def submit (config : ServerConfig) (data : Value) : ServerProgram Unit := do
  let count ← Server.attempt data.count
  Server.report ("Indexing " ++ toString count ++ " projects into '" ++ config.projectIndex ++
    "'...")
  sendBatch (Batch.ofValue config.projectIndex data)

def prepare (config : ServerConfig) : ServerProgram Unit := do
  Server.report "Starting indexation process..."
  Indices.ensure config

def work (config : ServerConfig) (data : Value) : ServerProgram Unit := do
  prepare config
  submit config data

theorem silent_reportAll (lines : List String) : Silent (reportAll lines) := by
  induction lines with
  | nil => trivial
  | cons line rest ih => exact ih

theorem single_submit (config : ServerConfig) (data : Value) :
    Single (fun r => ∃ actions, r = .bulk actions) (submit config data) := by
  refine Silent.bind_single (.ofExcept _) fun count => Silent.bind_single (.report _) fun _ => ?_
  refine Silent.bind_single (silent_reportAll _) fun _ => ?_
  cases (Batch.ofValue config.projectIndex data).stoppedBy with
  | some f => trivial
  | none => exact ⟨⟨_, rfl⟩, fun _ => rfl, fun v => (FailFast.ofExcept _).bind fun _ => .report _⟩

variable {config : ServerConfig} {data : Value} {s t : Script} {log : List Exchange}
  {o : Except Failure Unit}

theorem failFast_prepare (config : ServerConfig) : FailFast Request.SetsUp (prepare config) :=
  FailFast.bind (.report _) fun _ => Indices.failFast_ensure config

theorem bulk_notMem_prepare (actions : List IndexAction) (reply : ScriptedReply) :
    sent (.bulk actions) reply ∉ (prepare config).exchanges Script.handle s := by
  intro hmem
  cases (failFast_prepare config).of_mem_exchanges hmem

theorem prepared_of_prepare (h : Ran Script.handle (prepare config) s log (.ok ()) t) :
    ∀ a ∈ config.aliases, Prepared log a.2 := by
  obtain ⟨⟨⟩, u, first, second, rfl, -, hensure⟩ := h.of_bind_ok
  intro a ha
  exact (Indices.prepared_of_ensureAll hensure a ha).mono (List.subset_append_right _ _)

theorem orderly_work (h : Ran Script.handle (work config data) s log o t) : Orderly config log o := by
  refine Orderly.of_failFast ?_ h fun before actions reply after heq => ?_
  · exact ((failFast_prepare config).mono fun _ => .inl).bind fun _ =>
      (single_submit config data).failFast.mono fun _ => .inr
  rcases hprepare : (prepare config).run Script.handle s with ⟨e | ⟨⟨⟩⟩, u⟩
  · -- Stopped while the indices are set up, the work has written nothing.
    have hlog := h.exchanges_eq
    rw [work, bind_eq, exchanges_bind, hprepare, List.append_nil] at hlog
    have hmem : sent (.bulk actions) reply ∈ (prepare config).exchanges Script.handle s := by
      rw [hlog, heq]
      exact List.mem_append_right _ List.mem_cons_self
    exact absurd hmem (bulk_notMem_prepare actions reply)
  · obtain ⟨hlog, hsubmit⟩ := h.of_bind hprepare
    obtain ⟨mid, rfl, hmid⟩ :=
      exists_split_of_notMem (bulk_notMem_prepare actions reply) (hlog.symm.trans heq)
    refine ⟨fun a ha => ?_, fun others answer hmem => ?_⟩
    · exact (prepared_of_prepare ⟨hprepare, rfl⟩ a ha).mono (List.subset_append_left _ _)
    · rcases List.mem_append.1 hmem with hfirst | hmid'
      · exact bulk_notMem_prepare others answer hfirst
      · exact (single_submit config data).notMem_before hmid _ _ hmid'

def Yields (content : Option String) (data : Value) : Prop :=
  ∃ text, content = some text ∧ Json.ofChars (normalizeLines text.toList) = .ok data ∧
    data.truthy = true

theorem run_of_yields {content : Option String} (h : Yields content data) (config : ServerConfig)
    (path : String) : run config path content = ensuring close (work config data) := by
  obtain ⟨text, rfl, hread, htruthy⟩ := h
  simp only [run, loadProjects, hread, bind_eq, done_bind, htruthy, if_true]
  rfl

/-- Nothing is asked for a file that holds nothing to index, and what comes of the run is what came of
reading the file. -/
theorem run_of_not_yields {content : Option String} (h : ∀ data, ¬ Yields content data)
    (config : ServerConfig) (path : String) (s : Script) : Silent (run config path content) ∧
      ((run config path content).run Script.handle s).1 =
        ((loadProjects path content).run Script.handle s).1.map fun _ => () := by
  cases content with
  | none => exact ⟨trivial, rfl⟩
  | some text =>
    rcases hread : Json.ofChars (normalizeLines text.toList) with f | v
    · cases f with
      | malformed problem position =>
        simp only [run, loadProjects, hread]
        exact ⟨trivial, rfl⟩
      | numeralTooLong digits =>
        simp only [run, loadProjects, hread]
        exact ⟨trivial, rfl⟩
    · have hfalsy : ¬ v.truthy = true := fun htruthy => h v ⟨text, rfl, hread, htruthy⟩
      simp only [run, loadProjects, hread, bind_eq, done_bind, if_neg hfalsy]
      exact ⟨trivial, rfl⟩

end Indexing

/-- A program does some work and closes its client: the work is orderly, to close is the last request
and the only one of its kind, and its failure, or else what came of the work, is what the caller is
told. -/
def ClosesLast (config : ServerConfig) (work p : ServerProgram Unit) (s : Script) : Prop :=
  ∃ log o t reply u, Ran Script.handle work s log o t ∧ Orderly config log o ∧
    Ran Script.handle p s (log ++ [sent .close reply]) (Server.lastWord reply o) u

theorem ClosesLast.of_orderly {config : ServerConfig} {work : ServerProgram Unit} {s : Script}
    (h : ∀ log o t, Ran Script.handle work s log o t → Orderly config log o) :
    ClosesLast config work (Server.ensuring Server.close work) s := by
  have hran : Ran Script.handle work s _ _ _ := ⟨rfl, rfl⟩
  exact ⟨_, _, _, _, _, hran, h _ _ _ hran, Server.ran_ensuring_close hran⟩

/-- Whatever a script replies and a file holds, setting up the indices and indexing projects close their
client last, whatever failed before; the indexing asks nothing at all just when the file holds nothing
to index. -/
theorem client_closed_last (config : ServerConfig) (path : String) (content : Option String)
    (s : Script) :
    ClosesLast config (Indices.ensure config) (bootstrap config) s ∧
      (∀ data, Indexing.Yields content data →
        ClosesLast config (Indexing.work config data) (Indexing.run config path content) s) ∧
      ((∀ r reply, sent r reply ∉ (Indexing.run config path content).exchanges Script.handle s) ↔
        ∀ data, ¬ Indexing.Yields content data) ∧
      ((∀ data, ¬ Indexing.Yields content data) →
        ((Indexing.run config path content).run Script.handle s).1 =
          ((Indexing.loadProjects path content).run Script.handle s).1.map fun _ => ()) := by
  have hindexing : ∀ data, Indexing.Yields content data →
      ClosesLast config (Indexing.work config data) (Indexing.run config path content) s := by
    intro data hdata
    rw [Indexing.run_of_yields hdata]
    exact .of_orderly fun log o t hran => Indexing.orderly_work hran
  refine ⟨.of_orderly fun log o t hran => .ensure hran, hindexing, ⟨fun hnone data hdata => ?_, ?_⟩, ?_⟩
  · obtain ⟨log, o, t, reply, u, -, -, hran⟩ := hindexing data hdata
    refine hnone .close reply ?_
    rw [hran.exchanges_eq]
    exact List.mem_append_right _ (List.mem_singleton_self _)
  · intro h r reply hmem
    exact (Indexing.run_of_not_yields h config path s).1.of_mem_exchanges hmem
  · exact fun h => (Indexing.run_of_not_yields h config path s).2

/-- To make an index fails, and so does to close. -/
example :
    let s : Script :=
      { replies := [("indices.create", [.error .api]), ("close", [.error .timeout])] }
    ((bootstrap {}).run Script.handle s).1 = .error (.client .timeout) := rfl

/-- Where the indices are there already, a file with one project makes one bulk request; that it fails
does not keep the client open. -/
example :
    let content := "[\x7b\"id\": \"p1\", \"owner\": \"U1\"\x7d]"
    let s : Script := { replies := [("indices.exists_alias", List.replicate 3 (.ok (.bool true))),
      ("bulk", [.error .api])] }
    let r := (Indexing.run {} "projects.json" (some content)).run Script.handle s
    r.1.isOk = false ∧ r.2.events.map (fun
      | .request r => r.method
      | .pause _ => "sleep") = ["indices.exists_alias", "indices.exists_alias", "indices.exists_alias",
        "bulk", "close"] := by
  decide +kernel

end FreelanceBoard
