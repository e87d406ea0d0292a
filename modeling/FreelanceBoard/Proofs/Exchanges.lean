import FreelanceBoard.Server.Script
import Mathlib.Data.List.Basic

/-! What passes between a program and its handler. A search is sent to the server again while that is
not reached, and what then passes is one row of attempts. -/
namespace FreelanceBoard

namespace Program

variable {I : Interface} {ε σ α β : Type}

/-- The calls of a run with the replies to them; a call that is refused has none. -/
def exchanges (handle : Handler I ε σ) : Program I ε α → σ → List ((c : I.Call) × I.Reply c)
  | .done _, _ => []
  | .failed _, _ => []
  | .call c next, s =>
    match handle c s with
    | (.ok r, t) => ⟨c, r⟩ :: (next r).exchanges handle t
    | (.error _, _) => []

theorem exchanges_bind (handle : Handler I ε σ) (p : Program I ε α) (f : α → Program I ε β) (s : σ) :
    (p.bind f).exchanges handle s = p.exchanges handle s ++ match p.run handle s with
      | (.ok a, t) => (f a).exchanges handle t
      | (.error _, _) => [] := by
  induction p generalizing s with
  | done a => rfl
  | failed e => rfl
  | call c next ih =>
    simp only [call_bind, exchanges, run_call]
    rcases handle c s with ⟨r | r, t⟩
    · rfl
    · exact congrArg _ (ih r t)

/-- A run: what passes, what it comes to, and the state that it leaves. -/
structure Ran (handle : Handler I ε σ) (p : Program I ε α) (s : σ)
    (log : List ((c : I.Call) × I.Reply c)) (outcome : Except ε α) (t : σ) : Prop where
  run_eq : p.run handle s = (outcome, t)
  exchanges_eq : p.exchanges handle s = log

namespace Ran

variable {handle : Handler I ε σ} {p : Program I ε α} {f : α → Program I ε β} {s t u : σ}
  {log log' : List ((c : I.Call) × I.Reply c)} {a : α} {e : ε} {o : Except ε α} {o' : Except ε β}

theorem done (handle : Handler I ε σ) (a : α) (s : σ) : Ran handle (.done a) s [] (.ok a) s :=
  ⟨rfl, rfl⟩

theorem failed (handle : Handler I ε σ) (e : ε) (s : σ) :
    Ran handle (.failed e : Program I ε α) s [] (.error e) s := ⟨rfl, rfl⟩

theorem call {c : I.Call} {r : I.Reply c} {next : I.Reply c → Program I ε α}
    (h : handle c s = (.ok r, t)) (hnext : Ran handle (next r) t log o u) :
    Ran handle (.call c next) s (⟨c, r⟩ :: log) o u := by
  constructor
  · rw [run_call, h]
    exact hnext.run_eq
  · rw [exchanges, h]
    exact congrArg _ hnext.exchanges_eq

theorem bind (hp : Ran handle p s log (.ok a) t) (hf : Ran handle (f a) t log' o' u) :
    Ran handle (p.bind f) s (log ++ log') o' u := by
  constructor
  · rw [run_bind, hp.run_eq]
    exact hf.run_eq
  · rw [exchanges_bind, hp.run_eq, hp.exchanges_eq]
    exact congrArg _ hf.exchanges_eq

theorem bind_error (hp : Ran handle p s log (.error e) t) :
    Ran handle (p.bind f) s log (.error e) t := by
  constructor
  · rw [run_bind, hp.run_eq]
  · rw [exchanges_bind, hp.run_eq, hp.exchanges_eq, List.append_nil]

/-- What passes in a run that begins with a call that is answered. -/
theorem of_call {c : I.Call} {r : I.Reply c} {next : I.Reply c → Program I ε α}
    (hcall : handle c s = (.ok r, t)) (h : Ran handle (.call c next) s log o u) :
    ∃ rest, log = ⟨c, r⟩ :: rest ∧ Ran handle (next r) t rest o u := by
  refine ⟨(next r).exchanges handle t, ?_, ?_, rfl⟩
  · rw [← h.exchanges_eq, exchanges, hcall]
  · rw [← h.run_eq, run_call, hcall]

/-- What passes in a run of two programs of which the first ends well. -/
theorem of_bind (hp : p.run handle s = (.ok a, t)) (h : Ran handle (p.bind f) s log o' u) :
    log = p.exchanges handle s ++ (f a).exchanges handle t ∧ (f a).run handle t = (o', u) := by
  rw [← h.exchanges_eq, ← h.run_eq, exchanges_bind, run_bind, hp]
  exact ⟨rfl, rfl⟩

/-- The parts of a run of two programs that ends well. -/
theorem of_bind_ok {b : β} (h : Ran handle (p.bind f) s log (.ok b) u) :
    ∃ a t first second, log = first ++ second ∧ Ran handle p s first (.ok a) t ∧
      Ran handle (f a) t second (.ok b) u := by
  have hrun := h.run_eq
  rw [run_bind] at hrun
  rcases hp : p.run handle s with ⟨e | a, t⟩
  · rw [hp] at hrun
    cases hrun
  · obtain ⟨hlog, hf⟩ := h.of_bind hp
    exact ⟨a, t, _, _, hlog, ⟨hp, rfl⟩, ⟨hf, rfl⟩⟩

theorem map (h : Ran handle p s log o t) (g : α → β) :
    Ran handle (p.bind fun a => .done (g a)) s log (o.map g) t := by
  cases o with
  | ok a =>
    have hbind := h.bind (f := fun a => .done (g a)) (done handle (g a) t)
    rwa [List.append_nil] at hbind
  | error e => exact h.bind_error

end Ran

end Program

/-- A call of the server with the reply to it. -/
abbrev Exchange := (c : ServerCall) × c.Reply

namespace Exchange

def sent (r : Request) (outcome : Except ClientFailure Value) : Exchange := ⟨.request r, outcome⟩

def waited (seconds : Nat) : Exchange := ⟨.pause seconds, ()⟩

def event? : Exchange → Option ServerEvent
  | ⟨.request r, _⟩ => some (.request r)
  | ⟨.pause seconds, _⟩ => some (.pause seconds)
  | ⟨.report _, _⟩ => none

/-- Each of some requests was sent once, one after the other, and was answered. -/
def AllAnswered (requests : List Request) (log : List Exchange) : Prop :=
  List.Forall₂ (fun r x => ∃ v, x = sent r (.ok v)) requests log

end Exchange

open Program Exchange

namespace Script

theorem handle_request (r : Request) (s : Script) :
    handle (.request r) s = (.ok (s.answer r).1, (s.answer r).2) := rfl

theorem ran_request {α : Type} {r : Request} {next : Except ClientFailure Value → ServerProgram α}
    {s t : Script} {log : List Exchange} {reply : ScriptedReply} {o : Except Failure α}
    (h : (s.answer r).1 = reply) (hnext : Ran handle (next reply) (s.answer r).2 log o t) :
    Ran handle (.call (.request r) next) s (sent r reply :: log) o t := by
  rw [← h] at hnext ⊢
  exact .call (handle_request r s) hnext

def paused (s : Script) (seconds : Nat) : Script := { s with events := s.events ++ [.pause seconds] }

theorem handle_pause (seconds : Nat) (s : Script) :
    handle (.pause seconds) s = (.ok (), s.paused seconds) := rfl

/-- The events that a script records are those of the exchanges. -/
theorem events_run {α : Type} (p : ServerProgram α) (s : Script) :
    (p.run handle s).2.events = s.events ++ (p.exchanges handle s).filterMap event? := by
  induction p generalizing s with
  | done a => simp [exchanges]
  | failed e => simp [exchanges]
  | call c next ih =>
    cases c with
    | request r =>
      rw [run_call, exchanges, handle_request]
      simp [ih, answer, event?]
    | pause n => simp [run_call, exchanges, handle, ih, event?]
    | report line =>
      rw [run_call, exchanges]
      simp only [handle, ih, List.filterMap_cons, event?]

theorem takeReply_eq (method : String) (replies : List (String × List ScriptedReply)) :
    (takeReply method replies).1 = (replies.lookup method).bind List.head? ∧
      (takeReply method replies).2.lookup method = (replies.lookup method).map List.tail := by
  induction replies with
  | nil => exact ⟨rfl, rfl⟩
  | cons entry rest ih =>
    obtain ⟨m, queue⟩ := entry
    by_cases hm : m = method
    · cases queue <;> simp [takeReply, hm]
    · have hbeq : (method == m) = false := by simpa using fun e => hm e.symm
      simpa [takeReply, hm, List.lookup_cons, hbeq] using ih

/-- The replies to searches that a script still has. -/
def queue (s : Script) : List ScriptedReply := (s.replies.lookup "search").getD []

def searchesLeft (s : Script) : Nat := ((s.replies.lookup "search").getD []).length

theorem length_queue (s : Script) : s.queue.length = s.searchesLeft := rfl

@[simp] theorem queue_paused (s : Script) (seconds : Nat) : (s.paused seconds).queue = s.queue := rfl

@[simp] theorem searchesLeft_paused (s : Script) (seconds : Nat) :
    (s.paused seconds).searchesLeft = s.searchesLeft := rfl

/-- A search takes a reply of the script, or is answered by a page without hits. -/
theorem answer_search {r : Request} (hr : r.method = "search") (s : Script) :
    (s.answer r).1 = s.queue.head?.getD (.ok (plainReply r)) ∧
      (s.answer r).2.queue = s.queue.tail := by
  obtain ⟨hreply, hleft⟩ := takeReply_eq "search" s.replies
  simp only [answer, hr, queue, hleft, hreply]
  cases s.replies.lookup "search" with
  | none => simp
  | some queue => simp

theorem searchesLeft_answer {r : Request} (hr : r.method = "search") (s : Script) :
    (s.answer r).2.searchesLeft = s.searchesLeft - 1 := by
  rw [← length_queue, (answer_search hr s).2, List.length_tail, length_queue]

/-- The replies without the failures to reach the server that another attempt follows: as many in a row
as attempts are left, and afresh after each other reply. -/
def settle (retries : Nat) : Nat → List ScriptedReply → List ScriptedReply
  | _, [] => []
  | _, .ok v :: rest => .ok v :: settle retries retries rest
  | left, .error c :: rest =>
    if c.isConnection = true ∧ 0 < left then settle retries (left - 1) rest
    else .error c :: settle retries retries rest

/-- A request ends with an outcome, when so many attempts were left before it. Of what is settled of the
script it takes one reply. -/
structure Takes (r : Request) (left : Nat) (s : Script) (o : ScriptedReply) (t : Script) : Prop where
  fewer : t.searchesLeft ≤ s.searchesLeft - 1
  outcome : ∀ retries, (settle retries left s.queue).head?.getD (.ok (plainReply r)) = o
  onward : ∀ retries, (settle retries left s.queue).tail = settle retries retries t.queue

namespace Takes

variable {r : Request} {left : Nat} {s t : Script} {o : ScriptedReply}

theorem plain (h : Takes r left s o t) (hzero : s.searchesLeft = 0) : o = .ok (plainReply r) := by
  have hempty : s.queue = [] := List.length_eq_zero_iff.1 hzero
  rw [← h.outcome 0, hempty]
  rfl

/-- No attempt follows, as the server was reached or none is left. -/
theorem now (hr : r.method = "search")
    (h : ∀ c, (s.answer r).1 = .error c → c.isConnection = true → left = 0) :
    Takes r left s (s.answer r).1 (s.answer r).2 := by
  obtain ⟨hreply, hqueue⟩ := answer_search hr s
  have hfewer := Nat.le_of_eq (searchesLeft_answer hr s)
  rw [hreply] at h ⊢
  match hs : s.queue with
  | [] =>
    exact ⟨hfewer, fun retries => by rw [hs]; rfl, fun retries => by rw [hqueue, hs]; rfl⟩
  | .ok v :: rest =>
    exact ⟨hfewer, fun retries => by rw [hs]; rfl, fun retries => by rw [hqueue, hs]; rfl⟩
  | .error c :: rest =>
    rw [hs] at h
    have hlast : ¬ (c.isConnection = true ∧ 0 < left) := by
      rintro ⟨hc, hleft⟩
      exact absurd (h c rfl hc) (Nat.ne_of_gt hleft)
    refine ⟨hfewer, fun retries => ?_, fun retries => ?_⟩
    · rw [hs, settle, if_neg hlast]
      rfl
    · rw [hqueue, hs, settle, if_neg hlast]
      rfl

/-- Another attempt follows. -/
theorem later (hr : r.method = "search") {c : ClientFailure} (hanswer : (s.answer r).1 = .error c)
    (hc : c.isConnection = true) {seconds : Nat}
    (h : Takes r left ((s.answer r).2.paused seconds) o t) : Takes r (left + 1) s o t := by
  obtain ⟨hreply, hqueue⟩ := answer_search hr s
  obtain ⟨rest, hs⟩ : ∃ rest, s.queue = .error c :: rest := by
    rw [hreply] at hanswer
    cases hs : s.queue with
    | nil => simp [hs] at hanswer
    | cons reply rest =>
      obtain rfl : reply = .error c := by simpa [hs] using hanswer
      exact ⟨rest, rfl⟩
  have hsettle : ∀ retries, settle retries (left + 1) s.queue =
      settle retries left ((s.answer r).2.paused seconds).queue := by
    intro retries
    rw [queue_paused, hqueue, hs, settle, if_pos ⟨hc, Nat.succ_pos left⟩]
    rfl
  have hfewer := h.fewer
  rw [searchesLeft_paused, searchesLeft_answer hr] at hfewer
  refine ⟨by omega, fun retries => ?_, fun retries => ?_⟩
  · rw [hsettle]
    exact h.outcome retries
  · rw [hsettle]
    exact h.onward retries

end Takes

end Script

namespace ServerStore

section Answered

variable {σ : Type} {handle : Handler Server Failure σ} {config : ServerConfig} {s t : σ} {reply : Value}

/-- A request that is answered at once is sent once. -/
theorem ran_send_answered {r : Request} (h : handle (.request r) s = (.ok (.ok reply), t)) :
    Ran handle (send config r) s [sent r (.ok reply)] (.ok (.ok reply)) t := by
  rw [send]
  cases config.attempts - 1 with
  | zero => exact .call h (.done _ _ _)
  | succ left => exact .call h (.done _ _ _)

theorem ran_runSearch_answered {collection index : String} {q : Query} {size : Int}
    {order : Option SortOrder} {after : Option Value} {items : Value}
    (hindex : config.indexOf collection = .ok index)
    (h : handle (.request (.search index q size order after)) s = (.ok (.ok reply), t))
    (hitems : hitsOf reply = .ok items) :
    Ran handle (runSearch config collection q size order after) s
      [sent (.search index q size order after) (.ok reply)] (.ok items) t := by
  have hsent : Ran handle (send config (.search index q size order after)) s
      [sent (.search index q size order after) (.ok reply)] (.ok (.ok reply)) t := ran_send_answered h
  rw [runSearch, hindex, Program.bind_eq, Program.ofExcept, Program.done_bind, Program.bind_eq,
    ← List.append_nil [sent (.search index q size order after) (.ok reply)]]
  refine hsent.bind ?_
  simp only [Server.attempt, hitems]
  exact .done _ _ _

end Answered

/-- A row of attempts at one request, after so many failures and with so many more to come: there is
another while the server is not reached, after a wait. -/
inductive Attempts (r : Request) : Nat → Nat → List Exchange → Except ClientFailure Value → Prop
  | answered (failures left : Nat) (v : Value) : Attempts r failures left [sent r (.ok v)] (.ok v)
  | refused (failures left : Nat) (c : ClientFailure) (h : c.isConnection = false) :
    Attempts r failures left [sent r (.error c)] (.error c)
  | exhausted (failures : Nat) (c : ClientFailure) (h : c.isConnection = true) :
    Attempts r failures 0 [sent r (.error c)] (.error c)
  | again (failures left : Nat) (c : ClientFailure) (h : c.isConnection = true)
      {log : List Exchange} {outcome : Except ClientFailure Value}
      (hlog : Attempts r (failures + 1) left log outcome) :
    Attempts r failures (left + 1) (sent r (.error c) :: waited (backoff failures) :: log) outcome

theorem Attempts.mem {r : Request} {failures left : Nat} {log : List Exchange}
    {o : Except ClientFailure Value} (h : Attempts r failures left log o) : sent r o ∈ log := by
  induction h with
  | again failures left c hc hlog ih => exact List.mem_cons_of_mem _ (List.mem_cons_of_mem _ ih)
  | _ => exact List.mem_singleton_self _

theorem ran_sendAgain {r : Request} (hr : r.method = "search") (failures left : Nat) (s : Script) :
    ∃ log o t, Ran Script.handle (sendAgain r failures left) s log (.ok o) t ∧
      Attempts r failures left log o ∧ Script.Takes r left s o t := by
  induction left generalizing failures s with
  | zero =>
    refine ⟨_, _, _, Script.ran_request rfl (.done _ _ _), ?_, .now hr fun _ _ _ => rfl⟩
    cases (s.answer r).1 with
    | ok v => exact .answered _ _ v
    | error c =>
      cases hc : c.isConnection with
      | true => exact .exhausted _ c hc
      | false => exact .refused _ _ c hc
  | succ left ih =>
    rw [sendAgain, Server.outcome, Program.bind_eq, Program.call_bind]
    cases hanswer : (s.answer r).1 with
    | ok v =>
      have htakes : Script.Takes r (left + 1) s (s.answer r).1 (s.answer r).2 :=
        .now hr (by simp [hanswer])
      rw [hanswer] at htakes
      exact ⟨_, _, _, Script.ran_request hanswer (.done _ _ _), .answered _ _ v, htakes⟩
    | error c =>
      cases hc : c.isConnection with
      | false =>
        have htakes : Script.Takes r (left + 1) s (s.answer r).1 (s.answer r).2 :=
          .now hr (by simp [hanswer, hc])
        rw [hanswer] at htakes
        refine ⟨_, _, _, Script.ran_request hanswer ?_, .refused _ _ c hc, htakes⟩
        simp only [Program.done_bind, hc, Bool.false_eq_true, if_false]
        exact .done _ _ _
      | true =>
        obtain ⟨log, o, t, hran, hattempts, htakes⟩ :=
          ih (failures + 1) ((s.answer r).2.paused (backoff failures))
        refine ⟨_, o, t, Script.ran_request hanswer ?_, .again _ _ c hc hattempts,
          htakes.later hr hanswer hc⟩
        simp only [Program.done_bind, hc, if_true]
        exact .call (Script.handle_pause _ _) hran

end ServerStore

end FreelanceBoard
