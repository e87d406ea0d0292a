import FreelanceBoard.Proofs.StoreFailures

/-! What comes of attempts that do not reach the server. A search is sent again after a wait, and what it
comes to in the end is what it would have come to at once: with a script from which the failures that are
tried again are left out, an operation goes the same way and gives the same. -/
namespace FreelanceBoard

open Program Exchange

/-- A request with the failures after which it is sent again, and with what it comes to. -/
structure Row where
  request : Request
  failures : List ClientFailure
  outcome : Except ClientFailure Value

namespace Row

def exchanges (waits : List Nat) (row : Row) : List Exchange :=
  ((row.failures.zip waits).flatMap fun (c, seconds) =>
    [sent row.request (.error c), waited seconds]) ++ [sent row.request row.outcome]

def decisive (row : Row) : Exchange := sent row.request row.outcome

/-- A request is sent again after failures to reach the server and after no other, as long as there is a
wait left; what comes then decides. -/
structure Settles (waits : List Nat) (row : Row) : Prop where
  few : row.failures.length ≤ waits.length
  unreached : ∀ c ∈ row.failures, c.isConnection = true
  decided : ∀ c, row.outcome = .error c → c.isConnection = true →
    row.failures.length = waits.length

@[simp] theorem exchanges_cons (seconds : Nat) (waits : List Nat) (r : Request) (c : ClientFailure)
    (failures : List ClientFailure) (o : Except ClientFailure Value) :
    exchanges (seconds :: waits) ⟨r, c :: failures, o⟩ =
      sent r (.error c) :: waited seconds :: exchanges waits ⟨r, failures, o⟩ := rfl

end Row

def StoreCall.Searches : StoreCall → Prop
  | .find _ _ => True
  | .search _ => True
  | .narrow _ _ => True
  | _ => False

def Request.Searches (index : String) (r : Request) : Prop :=
  ∃ q size sort after, r = .search index q size sort after

/-- How requests and an operation end together: it returns if each is answered, and else fails with the
first one that is not, which is the last one. -/
inductive Concluded {α : Type} (index : String) : List Row → Except Failure α → Prop
  | returned {rows : List Row} (a : α) (h : ∀ row ∈ rows, ∃ v, row.outcome = .ok v) :
    Concluded index rows (.ok a)
  | searchFailed {rows : List Row} {last : Row} {c : ClientFailure}
      (h : ∀ row ∈ rows, ∃ v, row.outcome = .ok v) (hlast : last.outcome = .error c) :
    Concluded index (rows ++ [last]) (.error (.searchFailed index))

namespace Concluded

variable {α β : Type} {index : String} {rows : List Row} {o : Except Failure α}

theorem cons {row : Row} {v : Value} (hrow : row.outcome = .ok v) (h : Concluded index rows o) :
    Concluded index (row :: rows) o := by
  cases h with
  | returned a h => exact .returned a (List.forall_mem_cons.2 ⟨⟨v, hrow⟩, h⟩)
  | @searchFailed rows last c h hlast =>
    rw [← List.cons_append]
    exact .searchFailed (List.forall_mem_cons.2 ⟨⟨v, hrow⟩, h⟩) hlast

theorem map (h : Concluded index rows o) (f : α → β) : Concluded index rows (o.map f) := by
  cases h with
  | returned a h => exact .returned (f a) h
  | searchFailed h hlast => exact .searchFailed h hlast

end Concluded

namespace Script

/-- A page of hits, each with its record and with its place. -/
def IsPage (v : Value) : Prop :=
  ∃ hits, ServerStore.hitsOf v = .ok (.list hits) ∧ ∀ hit ∈ hits, ServerStore.IsHit true hit

theorem IsPage.accepts {v : Value} (h : IsPage v) (index : String) (q : Query) (size : Int)
    (sort : Option SortOrder) (after : Option Value) :
    (Request.search index q size sort after).Accepts v := by
  obtain ⟨hits, hok, hhits⟩ := h
  exact ⟨hits, hok, fun hit hhit => ⟨(hhits hit hhit).source, fun _ => (hhits hit hhit).place rfl⟩⟩

theorem isPage_plainReply {r : Request} (hr : r.method = "search") : IsPage (plainReply r) := by
  cases r with
  | search index q size sort after => exact ⟨[], rfl, nofun⟩
  | _ => simp [Request.method] at hr

/-- Searches that do not fail are answered by pages. -/
def WellFormed (s : Script) : Prop := ∀ v, .ok v ∈ s.queue → IsPage v

theorem ok_mem_settle_iff {retries left : Nat} {q : List ScriptedReply} {v : Value} :
    .ok v ∈ settle retries left q ↔ .ok v ∈ q := by
  induction q generalizing left with
  | nil => rfl
  | cons reply rest ih =>
    cases reply with
    | ok w => simp [settle, ih]
    | error c =>
      rw [settle]
      split <;> simp [ih]

/-- A script with nothing but the replies that decide. -/
def settled (retries : Nat) (s : Script) : Script :=
  { s with replies := s.replies.map fun (method, queue) =>
      (method, if method = "search" then settle retries retries queue else queue) }

theorem queue_settled (retries : Nat) (s : Script) :
    (s.settled retries).queue = settle retries retries s.queue := by
  rw [queue, queue, settled]
  induction s.replies with
  | nil => rfl
  | cons entry rest ih =>
    obtain ⟨method, queue⟩ := entry
    by_cases hm : method = "search"
    · simp [hm]
    · have hbeq : ("search" == method) = false := by simpa using fun e => hm e.symm
      simpa [List.lookup_cons, hbeq] using ih

structure Settling (retries : Nat) (s s' : Script) : Prop where
  wellFormed : s.WellFormed
  queue_eq : s'.queue = settle retries retries s.queue

namespace Settling

variable {retries : Nat} {s s' t : Script} {r : Request} {o : ScriptedReply}

/-- What comes of some attempts on the one comes of one attempt on the other. -/
theorem answer_eq (h : Settling retries s s') (hr : r.method = "search")
    (htakes : Takes r retries s o t) : (s'.answer r).1 = o := by
  rw [(answer_search hr s').1, h.queue_eq]
  exact htakes.outcome retries

theorem onward (h : Settling retries s s') (hr : r.method = "search")
    (htakes : Takes r retries s o t) : Settling retries t (s'.answer r).2 := by
  have hqueue : (s'.answer r).2.queue = settle retries retries t.queue := by
    rw [(answer_search hr s').2, h.queue_eq]
    exact htakes.onward retries
  refine ⟨fun v hv => h.wellFormed v ?_, hqueue⟩
  have hmem : .ok v ∈ (settle retries retries s.queue).tail := by
    rw [htakes.onward retries]
    exact ok_mem_settle_iff.2 hv
  exact ok_mem_settle_iff.1 (List.mem_of_mem_tail hmem)

theorem isPage (h : Settling retries s s') (hr : r.method = "search") {v : Value}
    (htakes : Takes r retries s (.ok v) t) : IsPage v := by
  have houtcome := htakes.outcome retries
  cases hhead : (settle retries retries s.queue).head? with
  | none =>
    rw [hhead] at houtcome
    cases houtcome
    exact isPage_plainReply hr
  | some reply =>
    rw [hhead] at houtcome
    obtain rfl : reply = .ok v := houtcome
    exact h.wellFormed v (ok_mem_settle_iff.1 (List.mem_of_mem_head? hhead))

theorem plain (h : Settling retries s s') (hr : r.method = "search")
    (htakes : Takes r retries s o t) (hzero : s'.searchesLeft = 0) : o = .ok (plainReply r) := by
  have hempty : s'.queue = [] := List.length_eq_zero_iff.1 hzero
  rw [← h.answer_eq hr htakes, (answer_search hr s').1, hempty]
  rfl

theorem searchesLeft_eq_zero (h : Settling retries s s') (hzero : s.searchesLeft = 0) :
    s'.searchesLeft = 0 := by
  have hempty : s.queue = [] := List.length_eq_zero_iff.1 hzero
  rw [← length_queue, h.queue_eq, hempty]
  rfl

end Settling

end Script

namespace ServerStore

/-- The seconds to wait after so many failures, before each of so many further attempts. -/
def waits (failures left : Nat) : List Nat := (List.range' failures left).map backoff

@[simp] theorem waits_succ (failures left : Nat) :
    waits failures (left + 1) = backoff failures :: waits (failures + 1) left := by
  rw [waits, List.range'_succ, List.map_cons]
  rfl

/-- A row of attempts as a list of failures and what decides. -/
theorem Attempts.exists_row {r : Request} {failures left : Nat} {log : List Exchange}
    {o : Except ClientFailure Value} (h : Attempts r failures left log o) :
    ∃ row : Row, row.request = r ∧ row.outcome = o ∧
      log = row.exchanges (waits failures left) ∧ row.Settles (waits failures left) := by
  induction h with
  | answered failures left v =>
    exact ⟨⟨r, [], .ok v⟩, rfl, rfl, rfl, Nat.zero_le _, nofun, nofun⟩
  | refused failures left c hc =>
    refine ⟨⟨r, [], .error c⟩, rfl, rfl, rfl, Nat.zero_le _, nofun, ?_⟩
    rintro c' ⟨⟩ hc'
    rw [hc] at hc'
    cases hc'
  | exhausted failures c hc =>
    exact ⟨⟨r, [], .error c⟩, rfl, rfl, rfl, Nat.zero_le _, nofun, fun _ _ _ => rfl⟩
  | again failures left c hc hlog ih =>
    obtain ⟨⟨_, before, o⟩, rfl, rfl, hrow, hsettles⟩ := ih
    refine ⟨⟨_, c :: before, o⟩, rfl, rfl, ?_, ?_, ?_, ?_⟩
    · rw [hrow, waits_succ, Row.exchanges_cons]
    · rw [waits_succ]
      exact Nat.succ_le_succ hsettles.few
    · exact List.forall_mem_cons.2 ⟨hc, hsettles.unreached⟩
    · intro c' ho hc'
      rw [waits_succ]
      exact congrArg Nat.succ (hsettles.decided c' ho hc')

variable {config : ServerConfig} {index : String} {α β : Type}

def withAttempts (config : ServerConfig) (n : Nat) : ServerConfig := { config with attempts := n }

theorem ran_runSearch_failed {collection : String} (hindex : config.indexOf collection = .ok index)
    {q : Query} {size : Int} {sort : Option SortOrder} {after : Option Value} {s t : Script}
    {c : ClientFailure} (h : Script.handle (.request (.search index q size sort after)) s =
      (.ok (.error c), t)) :
    Ran Script.handle (runSearch (withAttempts config 1) collection q size sort after) s
      [sent (.search index q size sort after) (.error c)] (.error (.searchFailed index)) t := by
  have hindex' : (withAttempts config 1).indexOf collection = .ok index := hindex
  rw [runSearch, hindex', Program.bind_eq, Program.ofExcept, Program.done_bind, Program.bind_eq]
  exact .call h (.failed _ _ _)

/-- A program runs on a script by rows of attempts at searches of an index. Where it returns, others go
the same way on another script by the attempts that decide, and so does the one that makes no more than
one attempt where it fails. -/
def RowsRun (config : ServerConfig) (index : String) (p : ServerProgram α)
    (others : Nat → ServerProgram α) (s s' : Script) : Prop :=
  ∃ rows o t, Ran Script.handle p s (rows.flatMap (Row.exchanges (waits 0 (config.attempts - 1)))) o t ∧
    (∀ row ∈ rows, row.Settles (waits 0 (config.attempts - 1)) ∧ row.request.Searches index) ∧
    Concluded index rows o ∧
    ∀ n, (∃ a, o = .ok a) ∨ n = 1 →
      ∃ t', Ran Script.handle (others n) s' (rows.map Row.decisive) o t'

namespace RowsRun

variable {s s' : Script}

theorem done (config : ServerConfig) (index : String) (a : α) (s s' : Script) :
    RowsRun config index (.done a) (fun _ => .done a) s s' :=
  ⟨[], _, s, .done _ a s, nofun, .returned a nofun, fun _ _ => ⟨s', .done _ a s'⟩⟩

theorem map {p : ServerProgram α} {others : Nat → ServerProgram α}
    (h : RowsRun config index p others s s') (f : α → β) :
    RowsRun config index (p.bind fun a => .done (f a))
      (fun n => (others n).bind fun a => .done (f a)) s s' := by
  obtain ⟨rows, o, t, hran, hrows, hends, hsame⟩ := h
  refine ⟨rows, o.map f, t, hran.map f, hrows, hends.map f, fun n hend => ?_⟩
  have hend' : (∃ a, o = .ok a) ∨ n = 1 := by
    cases o with
    | ok a => exact .inl ⟨a, rfl⟩
    | error e => exact hend.imp_left nofun
  obtain ⟨t', hran'⟩ := hsame n hend'
  exact ⟨t', hran'.map f⟩

theorem runSearch_bind {collection : String} (hindex : config.indexOf collection = .ok index)
    (hs : Script.Settling (config.attempts - 1) s s') {q : Query} {size : Int}
    {sort : Option SortOrder} {after : Option Value} {f : Value → ServerProgram α}
    {others : Nat → Value → ServerProgram α}
    (hf : ∀ v hits t t', (Request.search index q size sort after).Accepts v → hitsOf v = .ok hits →
      Script.Settling (config.attempts - 1) t t' → t.searchesLeft ≤ s.searchesLeft - 1 →
      t'.searchesLeft ≤ s'.searchesLeft - 1 → (s'.searchesLeft = 0 → hits = .list []) →
      RowsRun config index (f hits) (fun n => others n hits) t t') :
    RowsRun config index ((runSearch config collection q size sort after).bind f)
      (fun n => (runSearch (withAttempts config n) collection q size sort after).bind (others n))
      s s' := by
  obtain ⟨log, o, t, hattempts, htakes, hran⟩ := ran_runSearch hindex q size sort after s
  obtain ⟨row, hrequest, rfl, rfl, hsettles⟩ := hattempts.exists_row
  have hrow : row.Settles (waits 0 (config.attempts - 1)) ∧ row.request.Searches index :=
    ⟨hsettles, q, size, sort, after, hrequest⟩
  have hanswer : Script.handle (.request (.search index q size sort after)) s' =
      (.ok row.outcome, (s'.answer (.search index q size sort after)).2) := by
    rw [Script.handle_request, hs.answer_eq rfl htakes]
  cases houtcome : row.outcome with
  | error c =>
    rw [houtcome] at hran hanswer
    have hends : Concluded index ([] ++ [row]) (.error (.searchFailed index) : Except Failure α) :=
      .searchFailed nofun houtcome
    refine ⟨[row], _, t, by simpa using hran.bind_error, by simpa using hrow, hends, ?_⟩
    rintro n (⟨a, ⟨⟩⟩ | rfl)
    have hfailed := (ran_runSearch_failed hindex hanswer).bind_error (f := others 1)
    rw [← hrequest, ← houtcome] at hfailed
    exact ⟨_, hfailed⟩
  | ok v =>
    rw [houtcome] at hran htakes hanswer
    have haccepts := (hs.isPage rfl htakes).accepts index q size sort after
    obtain ⟨items, hitems, -⟩ := id haccepts
    simp only [hitems, Fault.lift] at hran
    have hempty : s'.searchesLeft = 0 → Value.list items = .list [] := by
      intro hzero
      cases hs.plain rfl htakes hzero
      exact (Except.ok.inj hitems).symm
    obtain ⟨rows, o, u, hrest, hrows, hends, hsame⟩ := hf v (.list items) t _ haccepts hitems
      (hs.onward rfl htakes) htakes.fewer (Nat.le_of_eq (Script.searchesLeft_answer rfl s')) hempty
    refine ⟨row :: rows, o, u, hran.bind hrest, List.forall_mem_cons.2 ⟨hrow, hrows⟩,
      hends.cons houtcome, fun n hend => ?_⟩
    obtain ⟨u', hrest'⟩ := hsame n hend
    have hindex' : (withAttempts config n).indexOf collection = .ok index := hindex
    have hdecisive : row.decisive = sent (.search index q size sort after) (.ok v) := by
      rw [Row.decisive, hrequest, houtcome]
    rw [List.map_cons, hdecisive]
    exact ⟨u', (ran_runSearch_answered hindex' hanswer hitems).bind hrest'⟩

end RowsRun

section Searches

variable {s s' : Script}

theorem attempt_bind_of_ok {x : Except Fault α} {a : α} (h : x = .ok a) (f : α → ServerProgram β) :
    (Server.attempt x).bind f = f a := by
  rw [h]
  rfl

theorem rowsRun_scanFrom {collection : String} (hindex : config.indexOf collection = .ok index)
    (hsize : 0 < config.searchSize) (q : Query) (sort : SortOrder) {pages pages' : Nat}
    (after : Option Value) (found : List Value) (hs : Script.Settling (config.attempts - 1) s s')
    (hpages : s.searchesLeft < pages) (hpages' : s'.searchesLeft < pages') :
    RowsRun config index (scanFrom config collection q sort pages after found)
      (fun n => scanFrom (withAttempts config n) collection q sort pages' after found) s s' := by
  induction pages generalizing pages' after found s s' with
  | zero => omega
  | succ pages ih =>
    obtain ⟨left, rfl⟩ : ∃ left, pages' = left + 1 := Nat.exists_eq_succ_of_ne_zero (by omega)
    simp only [scanFrom, Program.bind_eq]
    refine .runSearch_bind hindex hs fun v hits t t' haccepts hhits ht hleft hleft' hempty => ?_
    obtain ⟨sources, hsources⟩ := sourcesOf_of_accepts haccepts hhits
    obtain ⟨count, hcount⟩ := count_of_accepts haccepts hhits
    simp only [attempt_bind_of_ok hsources, attempt_bind_of_ok hcount]
    by_cases hfull : (count : Int) < config.searchSize
    · have hfull' : ∀ n, (count : Int) < (withAttempts config n).searchSize := fun _ => hfull
      simp only [if_pos hfull, if_pos (hfull' _)]
      exact .done _ _ _ _ _
    · obtain ⟨last, hlast⟩ := lastSort_of_accepts haccepts hhits hcount (by omega)
      have hfull' : ∀ n, ¬ (count : Int) < (withAttempts config n).searchSize := fun _ => hfull
      simp only [if_neg hfull, if_neg (hfull' _), attempt_bind_of_ok hlast]
      -- a full page took a reply of each script, as the plain one has no hits
      have hsome' : s'.searchesLeft ≠ 0 := by
        intro hzero
        rw [hempty hzero, Value.count, List.length_nil, Except.ok.injEq] at hcount
        omega
      have hsome : s.searchesLeft ≠ 0 := fun hzero => hsome' (hs.searchesLeft_eq_zero hzero)
      exact ih _ _ ht (by omega) (by omega)

theorem rowsRun_scan {collection : String} (hindex : config.indexOf collection = .ok index)
    (hsize : 0 < config.searchSize) (q : Query) (sort : SortOrder)
    (hs : Script.Settling (config.attempts - 1) s s') :
    RowsRun config index (scan config (Script.server.pages s) collection q sort)
      (fun n => scan (withAttempts config n) (Script.server.pages s') collection q sort) s s' :=
  rowsRun_scanFrom hindex hsize q sort none [] hs (Nat.lt_add_of_pos_right (by decide))
    (Nat.lt_add_of_pos_right (by decide))

theorem rowsRun_admittedIds (predicate : Predicate) (parts : List (List Value))
    (hs : Script.Settling (config.attempts - 1) s s') :
    RowsRun config config.projectIndex (admittedIds config predicate parts)
      (fun n => admittedIds (withAttempts config n) predicate parts) s s' := by
  induction parts generalizing s s' with
  | nil => exact .done _ _ _ _ _
  | cons ids parts ih =>
    simp only [admittedIds, Program.bind_eq]
    refine .runSearch_bind rfl hs fun v hits t t' haccepts hhits ht _ _ _ => ?_
    obtain ⟨found, hfound⟩ := hitIds_of_accepts haccepts hhits
    simp only [attempt_bind_of_ok hfound]
    exact (ih ht).map _

theorem rowsRun_narrow (hsize : 0 < config.searchSize) (stage : MatchStage)
    {candidates : Option (List Value)} (hc : (StoreCall.narrow stage candidates).WellFormed)
    (hs : Script.Settling (config.attempts - 1) s s') :
    RowsRun config config.projectIndex (narrow config (Script.server.pages s) stage candidates)
      (fun n => narrow (withAttempts config n) (Script.server.pages s') stage candidates) s s' := by
  cases candidates with
  | none => exact rowsRun_scan rfl hsize _ _ hs
  | some candidates =>
    cases candidates with
    | nil => exact .done _ _ _ _ _
    | cons first rest =>
      obtain ⟨parts, kept, hnarrow⟩ := exists_narrow_eq hsize hc
      have hothers := fun n => hnarrow (withAttempts config n) (Script.server.pages s') rfl
      simp only [hnarrow config _ rfl, hothers]
      exact (rowsRun_admittedIds stage.predicate parts hs).map kept

theorem RowsRun.ends {c : StoreCall} (h : RowsRun config index
      (program config (Script.server.pages s) c)
      (fun n => program (withAttempts config n) (Script.server.pages s') c) s s') :
    ∃ rows, exchangesOf config c s =
        rows.flatMap (Row.exchanges (waits 0 (config.attempts - 1))) ∧
      (∀ row ∈ rows, row.Settles (waits 0 (config.attempts - 1)) ∧ row.request.Searches index) ∧
      Concluded index rows (Script.server.store config c s).1 ∧
      ∀ n, (∃ a, (Script.server.store config c s).1 = .ok a) ∨ n = 1 →
        (Script.server.store (withAttempts config n) c s').1 = (Script.server.store config c s).1 ∧
        exchangesOf (withAttempts config n) c s' = rows.map Row.decisive := by
  obtain ⟨rows, o, t, hran, hrows, hends, hsame⟩ := h
  have hstore : (Script.server.store config c s).1 = o := congrArg Prod.fst hran.run_eq
  rw [hstore]
  refine ⟨rows, hran.exchanges_eq, hrows, hends, fun n hend => ?_⟩
  obtain ⟨t', hran'⟩ := hsame n hend
  exact ⟨congrArg Prod.fst hran'.run_eq, hran'.exchanges_eq⟩

/-- Whatever the client replies, an operation that searches sends each search once and, after failures to
reach the server, up to twice more, after one second and after two. It returns if each search is answered
in the end, and else fails at the first search that fails for good, which is the last one. Without the
failures that are tried again it sends each search once and returns the same; and if it makes no further
attempts, it also fails the same. -/
theorem searches_retry_connections (hattempts : config.attempts = 3) (hsize : 0 < config.searchSize)
    {c : StoreCall} (hsearches : c.Searches) (hknown : c.collection ∈ Collection.known)
    (hc : c.WellFormed) {s : Script} (hs : s.WellFormed) :
    ∃ index rows, config.indexOf c.collection = .ok index ∧
      exchangesOf config c s = rows.flatMap (Row.exchanges [1, 2]) ∧
      (∀ row ∈ rows, row.Settles [1, 2] ∧ row.request.Searches index) ∧
      Concluded index rows (Script.server.store config c s).1 ∧
      ∀ n, (∃ a, (Script.server.store config c s).1 = .ok a) ∨ n = 1 →
        (Script.server.store (withAttempts config n) c (s.settled 2)).1 =
          (Script.server.store config c s).1 ∧
        exchangesOf (withAttempts config n) c (s.settled 2) = rows.map Row.decisive := by
  have hsettling : Script.Settling (config.attempts - 1) s (s.settled 2) := by
    rw [hattempts]
    exact ⟨hs, Script.queue_settled 2 s⟩
  obtain ⟨index, hindex⟩ := config.exists_indexOf hknown
  have hrun : RowsRun config index (program config (Script.server.pages s) c)
      (fun n => program (withAttempts config n) (Script.server.pages (s.settled 2)) c) s
      (s.settled 2) := by
    cases c with
    | find name predicate => exact rowsRun_scan hindex hsize _ _ hsettling
    | search stage => exact rowsRun_scan hindex hsize _ _ hsettling
    | narrow stage candidates =>
      cases hindex
      exact rowsRun_narrow hsize stage hc hsettling
    | _ => exact hsearches.elim
  obtain ⟨rows, hexchanges, hrows, hends, hsame⟩ := hrun.ends
  have hwaits : waits 0 (config.attempts - 1) = [1, 2] := by rw [hattempts]; rfl
  rw [hwaits] at hexchanges hrows
  exact ⟨index, rows, hindex, hexchanges, hrows, hends, hsame⟩

/-- The waits begin again with the second page. -/
theorem searches_retry_connections_page_by_page :
    let hit : Value := .object [("_source", .object [("id", .text "p1")]), ("sort", .list [.text "p1"])]
    let page (hits : List Value) : Value := .object [("hits", .object [("hits", .list hits)])]
    let s : Script := ⟨[("search", [.error .tls, .ok (page [hit]), .error .connection,
      .error .connection, .ok (page [])])], [], []⟩
    let config : ServerConfig := { searchSize := 1 }
    let c : StoreCall := .find Collection.projects none
    let request (after : Option Value) : Request := .search "projects" .matchAll 1 (some .byId) after
    let first := request none
    let second := request (some (.list [.text "p1"]))
    config.attempts = 3 ∧ 0 < config.searchSize ∧ c.Searches ∧ c.collection ∈ Collection.known ∧
      c.WellFormed ∧ s.WellFormed ∧
      exchangesOf config c s = [sent first (.error .tls), waited 1, sent first (.ok (page [hit])),
        sent second (.error .connection), waited 1, sent second (.error .connection), waited 2,
        sent second (.ok (page []))] ∧
      (Script.server.store config c (s.settled 2)).1 = .ok [.object [("id", .text "p1")]] := by
  intro hit page s config c request first second
  have hsize : 0 < config.searchSize := by decide
  have hsearches : c.Searches := trivial
  have hknown : c.collection ∈ Collection.known := by decide
  have hc : c.WellFormed := trivial
  have hs : s.WellFormed := by
    intro v hv
    have hcases : v = page [hit] ∨ v = page [] := by
      simpa [s, Script.queue] using hv
    rcases hcases with rfl | rfl
    · refine ⟨[hit], rfl, fun h hmem => ?_⟩
      obtain rfl : h = hit := List.mem_singleton.1 hmem
      exact ⟨⟨_, _, rfl, rfl, rfl⟩, fun _ => ⟨_, rfl⟩⟩
    · exact Script.isPage_plainReply (r := first) rfl
  have houtcome : (Script.server.store config c s).1 = .ok [.object [("id", .text "p1")]] := rfl
  obtain ⟨index, rows, -, -, -, -, hsame⟩ := searches_retry_connections rfl hsize hsearches hknown hc hs
  exact ⟨rfl, hsize, hsearches, hknown, hc, hs, rfl, (hsame 3 (.inl ⟨_, houtcome⟩)).1⟩

end Searches

end ServerStore

end FreelanceBoard
