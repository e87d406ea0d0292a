import FreelanceBoard.Proofs.Exchanges
import FreelanceBoard.Server.Indices

/-! Programs that end with the first request that fails, among them the set-up of the indices, and
programs that make no request, or one at most. -/
namespace FreelanceBoard

open Program Exchange

namespace Server

variable {α β σ : Type} {R : Request → Prop}

/-- The requests of a program are of a kind, and one that fails ends the program with its failure. -/
def FailFast (R : Request → Prop) : ServerProgram α → Prop
  | .done _ => True
  | .failed _ => True
  | .call (.request r) next =>
    R r ∧ (∀ c, next (.error c) = .failed (.client c)) ∧ ∀ v, FailFast R (next (.ok v))
  | .call (.pause _) next => FailFast R (next ())
  | .call (.report _) next => FailFast R (next ())

namespace FailFast

/-- What follows a reply is such a program, too. -/
theorem next {c : ServerCall} {next : c.Reply → ServerProgram α} (h : FailFast R (.call c next))
    (reply : c.Reply) : FailFast R (next reply) := by
  cases c with
  | request r =>
    cases reply with
    | ok v => exact h.2.2 v
    | error c =>
      rw [h.2.1 c]
      trivial
  | pause n => exact h
  | report line => exact h

theorem bind {p : ServerProgram α} {f : α → ServerProgram β} (hp : FailFast R p)
    (hf : ∀ a, FailFast R (f a)) : FailFast R (p.bind f) := by
  induction p with
  | done a => exact hf a
  | failed e => trivial
  | call c next ih =>
    cases c with
    | request r =>
      refine ⟨hp.1, fun c => ?_, fun v => ih (.ok v) (hp.2.2 v)⟩
      exact congrArg (Program.bind · f) (hp.2.1 c)
    | pause n => exact ih () hp
    | report line => exact ih () hp

theorem reply {r : Request} (hr : R r) : FailFast R (reply r) := ⟨hr, fun _ => rfl, fun _ => trivial⟩

theorem report (line : String) : FailFast R (report line) := trivial

theorem ofExcept (x : Except Failure α) : FailFast R (.ofExcept x) := by
  cases x with
  | ok a => trivial
  | error e => trivial

theorem mono {R' : Request → Prop} (h : ∀ r, R r → R' r) {p : ServerProgram α} (hp : FailFast R p) :
    FailFast R' p := by
  induction p with
  | done a => trivial
  | failed e => trivial
  | call c next ih =>
    cases c with
    | request r => exact ⟨h r hp.1, hp.2.1, fun v => ih (.ok v) (hp.2.2 v)⟩
    | pause n => exact ih () hp
    | report line => exact ih () hp

section Exchanges

variable {handle : Handler Server Failure σ} {p : ServerProgram α} {s : σ} {r : Request}

theorem of_mem_exchanges (hp : FailFast R p) {reply : Except ClientFailure Value}
    (hmem : sent r reply ∈ p.exchanges handle s) : R r := by
  induction p generalizing s with
  | done a => cases hmem
  | failed e => cases hmem
  | call c next ih =>
    rw [exchanges] at hmem
    rcases hcall : handle c s with ⟨e | x, t⟩
    · rw [hcall] at hmem
      cases hmem
    · rw [hcall] at hmem
      rcases List.mem_cons.1 hmem with heq | hrest
      · obtain rfl : ServerCall.request r = c := congrArg Sigma.fst heq
        exact hp.1
      · exact ih x (hp.next x) hrest

/-- A request that fails is the last thing that passes, and the run fails as it does. -/
theorem of_failed (hp : FailFast R p) {before after : List Exchange} {c : ClientFailure}
    (h : p.exchanges handle s = before ++ sent r (.error c) :: after) :
    after = [] ∧ (p.run handle s).1 = .error (.client c) := by
  induction p generalizing s before with
  | done a => simp [exchanges] at h
  | failed e => simp [exchanges] at h
  | call call next ih =>
    rw [exchanges] at h
    rw [run_call]
    rcases hcall : handle call s with ⟨e | x, t⟩
    · simp [hcall] at h
    · rw [hcall] at h
      cases before with
      | cons first before => exact ih x (hp.next x) (List.cons.inj h).2
      | nil =>
        obtain ⟨hhead, htail⟩ := List.cons.inj h
        cases hhead
        rw [hp.2.1 c] at htail
        exact ⟨htail.symm, congrArg (fun p => (p.run handle t).1) (hp.2.1 c)⟩

end Exchanges

end FailFast

/-- A program makes no request. -/
abbrev Silent (p : ServerProgram α) : Prop := FailFast (fun _ => False) p

/-- A program makes one request at most, which is of a kind, and ends with its failure if it fails. -/
def Single (R : Request → Prop) : ServerProgram α → Prop
  | .done _ => True
  | .failed _ => True
  | .call (.request r) next =>
    R r ∧ (∀ c, next (.error c) = .failed (.client c)) ∧ ∀ v, Silent (next (.ok v))
  | .call (.pause _) next => Single R (next ())
  | .call (.report _) next => Single R (next ())

theorem Silent.bind_single {p : ServerProgram α} {f : α → ServerProgram β} (hp : Silent p)
    (hf : ∀ a, Single R (f a)) : Single R (p.bind f) := by
  induction p with
  | done a => exact hf a
  | failed e => trivial
  | call c next ih =>
    cases c with
    | request r => exact hp.1.elim
    | pause seconds => exact ih () hp
    | report line => exact ih () hp

namespace Single

variable {p : ServerProgram α}

theorem failFast (hp : Single R p) : FailFast R p := by
  induction p with
  | done a => trivial
  | failed e => trivial
  | call c next ih =>
    cases c with
    | request r => exact ⟨hp.1, hp.2.1, fun v => (hp.2.2 v).mono fun _ => False.elim⟩
    | pause seconds => exact ih () hp
    | report line => exact ih () hp

/-- Nothing is asked after the request that is made. -/
theorem silent_next {r : Request} {next : Except ClientFailure Value → ServerProgram α}
    (h : Single R (.call (.request r) next)) (reply : Except ClientFailure Value) :
    Silent (next reply) := by
  cases reply with
  | ok v => exact h.2.2 v
  | error c =>
    rw [h.2.1 c]
    trivial

/-- No request stands before the one that is made. -/
theorem notMem_before {handle : Handler Server Failure σ} {s : σ} (hp : Single R p)
    {before after : List Exchange} {r : Request} {reply : Except ClientFailure Value}
    (h : p.exchanges handle s = before ++ sent r reply :: after) (r' : Request)
    (reply' : Except ClientFailure Value) : sent r' reply' ∉ before := by
  induction p generalizing s before with
  | done a => simp [exchanges] at h
  | failed e => simp [exchanges] at h
  | call c next ih =>
    rw [exchanges] at h
    rcases hcall : handle c s with ⟨e | x, t⟩
    · simp [hcall] at h
    · rw [hcall] at h
      cases before with
      | nil => exact List.not_mem_nil
      | cons first before =>
        obtain ⟨rfl, htail⟩ := List.cons.inj h
        cases c with
        | request asked =>
          have hmem : sent r reply ∈ (next x).exchanges handle t := by
            rw [htail]
            exact List.mem_append_right _ List.mem_cons_self
          exact ((hp.silent_next x).of_mem_exchanges hmem).elim
        | pause seconds =>
          refine List.not_mem_cons_of_ne_of_not_mem (fun heq => ?_) (ih () hp htail)
          cases heq
        | report line =>
          refine List.not_mem_cons_of_ne_of_not_mem (fun heq => ?_) (ih () hp htail)
          cases heq

end Single

end Server

/-- What is asked to set up the indices. -/
inductive Request.SetsUp : Request → Prop
  | aliasExists (name : String) : SetsUp (.aliasExists name)
  | indexExists (index : String) : SetsUp (.indexExists index)
  | createIndex (index : String) (mappings : Value) : SetsUp (.createIndex index mappings)
  | putAlias (index name : String) : SetsUp (.putAlias index name)

namespace Indices

open Server

theorem failFast_createMissing (index : String) (mapping : Value) :
    FailFast Request.SetsUp (createMissing index mapping) := by
  refine (FailFast.reply (.indexExists index)).bind fun there => ?_
  split
  · trivial
  · exact (FailFast.reply (.createIndex index mapping)).bind fun _ => trivial

theorem failFast_ensureAlias (collection name : String) :
    FailFast Request.SetsUp (ensureAlias collection name) := by
  refine (FailFast.reply (.aliasExists name)).bind fun there => ?_
  split
  · trivial
  · exact (failFast_createMissing _ _).bind fun _ =>
      (FailFast.reply (.putAlias _ name)).bind fun _ => trivial

theorem failFast_ensureAll (aliases : List (String × String)) :
    FailFast Request.SetsUp (ensureAll aliases) := by
  induction aliases with
  | nil => trivial
  | cons a rest ih => exact (failFast_ensureAlias a.1 a.2).bind fun _ => ih

theorem failFast_ensure (config : ServerConfig) : FailFast Request.SetsUp (ensure config) :=
  failFast_ensureAll config.aliases

end Indices

end FreelanceBoard
