import FreelanceBoard.Proofs.DocumentStore
import FreelanceBoard.Proofs.Exchanges

/-! How the operations of a store on a search server go where requests fail. A search is tried again
and its failure is said to be one of the search; the operations on single records send each request
once, and a failure of theirs stays one of the client, unless it is that there is no such record. -/
namespace FreelanceBoard

open Program Exchange

namespace ServerStore

/-- A hit with the record that it is of, and its place if the hits were asked for in an order. -/
structure IsHit (sorted : Bool) (hit : Value) : Prop where
  source : ∃ source id, hit.item "_source" = .ok source ∧ source.item "id" = .ok id ∧ id.isKey = true
  place : sorted = true → ∃ place, hit.item "sort" = .ok place

end ServerStore

/-- What a server may reply to a request, if it does what the request asks for. -/
def Request.Accepts : Request → Value → Prop
  | .search _ _ _ sort _, reply => ∃ hits, ServerStore.hitsOf reply = .ok (.list hits) ∧
    ∀ hit ∈ hits, ServerStore.IsHit sort.isSome hit
  | .get _ _, reply => ∃ source, reply.item "_source" = .ok source
  | _, _ => True

/-- Some reply is not one to the request that it was given to. -/
def Garbled (log : List Exchange) : Prop := ∃ r v, sent r (.ok v) ∈ log ∧ ¬ r.Accepts v

theorem Garbled.mono {log log' : List Exchange} (h : Garbled log) (hsub : log ⊆ log') :
    Garbled log' := by
  obtain ⟨r, v, hmem, hv⟩ := h
  exact ⟨r, v, hsub hmem, hv⟩

namespace StoreCall

def collection : StoreCall → String
  | .findById name _ => name
  | .find name _ => name
  | .insert name _ => name
  | .update name _ _ => name
  | .delete name _ => name
  | .search _ => Collection.projects
  | .narrow _ _ => Collection.projects

/-- A record has an id to be stored under, and so has each candidate of a stage. -/
def WellFormed : StoreCall → Prop
  | .insert _ r => ∃ id, r.lookup "id" = some id
  | .narrow _ (some candidates) => ∀ c ∈ candidates, ∃ id, c.item "id" = .ok id ∧ id.isKey = true
  | _ => True

/-- The requests of a call about single records; the other calls search. -/
def requests? (index : String) : StoreCall → Option (List Request)
  | .findById _ id => some [.get index id]
  | .insert _ r => some [.put index (Fields.get r "id") r]
  | .update _ id changes => some [.update index id changes, .get index id]
  | .delete _ id => some [.delete index id]
  | _ => none

def absent? : (c : StoreCall) → Option c.Reply
  | .findById _ _ => some none
  | .update _ _ _ => some none
  | .delete _ _ => some false
  | _ => none

end StoreCall

namespace ServerStore

variable {config : ServerConfig} {index : String} {log log' : List Exchange} {α β : Type}

/-- The exchanges of searches of an index, one after the other, each of them a row of attempts; the
last one may have failed. -/
inductive Searched (config : ServerConfig) (index : String) :
    List Exchange → Option ClientFailure → Prop
  | nothing : Searched config index [] none
  | failed {q : Query} {size : Int} {sort : Option SortOrder} {after : Option Value}
      {log : List Exchange} {c : ClientFailure}
      (h : Attempts (.search index q size sort after) 0 (config.attempts - 1) log (.error c)) :
    Searched config index log (some c)
  | further {q : Query} {size : Int} {sort : Option SortOrder} {after : Option Value}
      {log rest : List Exchange} {v : Value} {end? : Option ClientFailure}
      (h : Attempts (.search index q size sort after) 0 (config.attempts - 1) log (.ok v))
      (hrest : Searched config index rest end?) : Searched config index (log ++ rest) end?

/-- How an operation that searches ends: a client's failure is said to be one of the search. -/
inductive SearchEnds (index : String) (log : List Exchange) :
    Option ClientFailure → Except Failure α → Prop
  | returned (a : α) : SearchEnds index log none (.ok a)
  | searchFailed (c : ClientFailure) : SearchEnds index log (some c) (.error (.searchFailed index))
  | garbled (f : Fault) (h : Garbled log) : SearchEnds index log none (.error (.fault f))

theorem SearchEnds.map {end? : Option ClientFailure} {o : Except Failure α}
    (h : SearchEnds index log end? o) (f : α → β) : SearchEnds index log end? (o.map f) := by
  cases h with
  | returned a => exact .returned (f a)
  | searchFailed c => exact .searchFailed c
  | garbled fault hlog => exact .garbled fault hlog

def SearchRun (config : ServerConfig) (index : String) (before : List Exchange) (p : ServerProgram α)
    (s : Script) : Prop :=
  ∃ log o t end?, Ran Script.handle p s log o t ∧ Searched config index log end? ∧
    SearchEnds index (before ++ log) end? o

theorem ran_runSearch {collection : String} (hindex : config.indexOf collection = .ok index)
    (q : Query) (size : Int) (sort : Option SortOrder) (after : Option Value) (s : Script) :
    ∃ log o t, Attempts (.search index q size sort after) 0 (config.attempts - 1) log o ∧
      Script.Takes (.search index q size sort after) (config.attempts - 1) s o t ∧
      Ran Script.handle (runSearch config collection q size sort after) s log
        (match o with
          | .ok v => Fault.lift (hitsOf v)
          | .error _ => .error (.searchFailed index)) t := by
  obtain ⟨log, o, t, hran, hattempts, htakes⟩ :=
    ran_sendAgain (r := .search index q size sort after) rfl 0 (config.attempts - 1) s
  refine ⟨log, o, t, hattempts, htakes, ?_⟩
  rw [runSearch, hindex, Program.bind_eq, Program.ofExcept, Program.done_bind, send,
    Program.bind_eq, ← List.append_nil log]
  refine hran.bind ?_
  cases o with
  | error c => exact .failed _ _ _
  | ok v =>
    cases hhits : hitsOf v with
    | ok hits =>
      simp only [Server.attempt, hhits]
      exact .done _ _ _
    | error f =>
      simp only [Server.attempt, hhits]
      exact .failed _ _ _

namespace SearchRun

variable {before : List Exchange} {s : Script}

theorem done (config : ServerConfig) (index : String) (before : List Exchange) (a : α) (s : Script) :
    SearchRun config index before (.done a) s :=
  ⟨[], _, s, none, .done _ a s, .nothing, .returned a⟩

theorem map {p : ServerProgram α} (h : SearchRun config index before p s) (f : α → β) :
    SearchRun config index before (p.bind fun a => .done (f a)) s := by
  obtain ⟨log, o, t, end?, hran, hsearched, hends⟩ := h
  exact ⟨log, o.map f, t, end?, hran.map f, hsearched, hends.map f⟩

theorem attempt_bind {x : Except Fault α} {f : α → ServerProgram β} {accepted : Prop}
    (hgarbled : ¬ accepted → Garbled before) (hx : accepted → ∃ a, x = .ok a)
    (hf : ∀ a, x = .ok a → SearchRun config index before (f a) s) :
    SearchRun config index before ((Server.attempt x).bind f) s := by
  cases x with
  | ok a => exact hf a rfl
  | error fault =>
    refine ⟨[], _, s, none, .failed _ (Failure.fault fault) s, .nothing, .garbled fault ?_⟩
    rw [List.append_nil]
    refine hgarbled fun h => ?_
    obtain ⟨a, ha⟩ := hx h
    cases ha

theorem runSearch_bind {collection : String} (hindex : config.indexOf collection = .ok index)
    {q : Query} {size : Int} {sort : Option SortOrder} {after : Option Value}
    {f : Value → ServerProgram α}
    (hf : ∀ log v hits t, sent (.search index q size sort after) (.ok v) ∈ log →
      hitsOf v = .ok hits → t.searchesLeft ≤ s.searchesLeft - 1 →
      (s.searchesLeft = 0 → hits = .list []) → SearchRun config index (before ++ log) (f hits) t) :
    SearchRun config index before ((runSearch config collection q size sort after).bind f) s := by
  obtain ⟨log, o, t, hattempts, htakes, hran⟩ := ran_runSearch hindex q size sort after s
  cases o with
  | error c => exact ⟨log, _, t, some c, hran.bind_error, .failed hattempts, .searchFailed c⟩
  | ok v =>
    cases hhits : hitsOf v with
    | error fault =>
      simp only [hhits, Fault.lift] at hran
      have hsearched := Searched.further hattempts .nothing
      rw [List.append_nil] at hsearched
      refine ⟨log, _, t, none, hran.bind_error, hsearched, .garbled fault ?_⟩
      refine ⟨_, v, List.mem_append_right _ hattempts.mem, fun haccepts => ?_⟩
      obtain ⟨hits, hok, -⟩ := haccepts
      rw [hok] at hhits
      cases hhits
    | ok hits =>
      simp only [hhits, Fault.lift] at hran
      have hempty : s.searchesLeft = 0 → hits = .list [] := by
        intro hzero
        cases htakes.plain hzero
        exact (Except.ok.inj hhits).symm
      obtain ⟨rest, o, u, end?, hrest, hsearched, hends⟩ :=
        hf log v hits t hattempts.mem hhits htakes.fewer hempty
      refine ⟨log ++ rest, o, u, end?, hran.bind hrest, .further hattempts hsearched, ?_⟩
      rwa [List.append_assoc] at hends

end SearchRun

theorem exists_collect {f : Value → Except Fault Value} {vs : List Value}
    (h : ∀ v ∈ vs, ∃ w, f v = .ok w) : ∃ ws, Value.collect f vs = .ok ws := by
  induction vs with
  | nil => exact ⟨[], rfl⟩
  | cons v vs ih =>
    obtain ⟨w, hw⟩ := h v List.mem_cons_self
    obtain ⟨ws, hws⟩ := ih fun u hu => h u (List.mem_cons_of_mem _ hu)
    exact ⟨w :: ws, by simp [Value.collect, hw, hws]⟩

section Page

variable {q : Query} {size : Int} {sort : Option SortOrder} {after : Option Value} {v hits : Value}

theorem page_of_accepts (h : (Request.search index q size sort after).Accepts v)
    (hhits : hitsOf v = .ok hits) :
    ∃ items, hits = .list items ∧ ∀ hit ∈ items, IsHit sort.isSome hit := by
  obtain ⟨items, hok, hitems⟩ := h
  rw [hhits, Except.ok.injEq] at hok
  exact ⟨items, hok, hitems⟩

theorem sourcesOf_of_accepts (h : (Request.search index q size sort after).Accepts v)
    (hhits : hitsOf v = .ok hits) : ∃ sources, sourcesOf hits = .ok sources := by
  obtain ⟨items, rfl, hitems⟩ := page_of_accepts h hhits
  refine exists_collect fun hit hhit => ?_
  obtain ⟨source, id, hsource, -⟩ := (hitems hit hhit).source
  exact ⟨source, hsource⟩

theorem hitIds_of_accepts (h : (Request.search index q size sort after).Accepts v)
    (hhits : hitsOf v = .ok hits) : ∃ ids, hitIds hits = .ok ids := by
  obtain ⟨items, rfl, hitems⟩ := page_of_accepts h hhits
  refine exists_collect fun hit hhit => ?_
  obtain ⟨source, id, hsource, hid, hkey⟩ := (hitems hit hhit).source
  exact ⟨id, by simp [hitId, hsource, hid, hkey]⟩

theorem count_of_accepts (h : (Request.search index q size sort after).Accepts v)
    (hhits : hitsOf v = .ok hits) : ∃ count, hits.count = .ok count := by
  obtain ⟨items, rfl, -⟩ := page_of_accepts h hhits
  exact ⟨items.length, rfl⟩

theorem lastSort_of_accepts {order : SortOrder} {count : Nat}
    (h : (Request.search index q size (some order) after).Accepts v) (hhits : hitsOf v = .ok hits)
    (hcount : hits.count = .ok count) (hpos : 0 < count) : ∃ place, lastSort hits = .ok place := by
  obtain ⟨items, rfl, hitems⟩ := page_of_accepts h hhits
  rw [Value.count, Except.ok.injEq] at hcount
  have hne : items ≠ [] := by
    rw [← List.length_pos_iff, hcount]
    exact hpos
  have hlast := List.getLast?_eq_some_getLast hne
  obtain ⟨place, hplace⟩ := (hitems _ (List.getLast_mem hne)).place rfl
  exact ⟨place, by simp [lastSort, Value.lastItem, hlast, hplace]⟩

end Page

theorem searchRun_scanFrom {collection : String} (hindex : config.indexOf collection = .ok index)
    (hsize : 0 < config.searchSize) (q : Query) (sort : SortOrder) {pages : Nat}
    (before : List Exchange) (after : Option Value) (found : List Value) {s : Script}
    (hpages : s.searchesLeft < pages) :
    SearchRun config index before (scanFrom config collection q sort pages after found) s := by
  induction pages generalizing before after found s with
  | zero => omega
  | succ pages ih =>
    rw [scanFrom, Program.bind_eq]
    refine .runSearch_bind hindex fun log v hits t hsent hhits hleft hempty => ?_
    have hgarbled : ¬ (Request.search index q config.searchSize (some sort) after).Accepts v →
        Garbled (before ++ log) := fun h => ⟨_, v, List.mem_append_right _ hsent, h⟩
    refine .attempt_bind hgarbled (fun h => sourcesOf_of_accepts h hhits) fun sources _ => ?_
    refine .attempt_bind hgarbled (fun h => count_of_accepts h hhits) fun count hcount => ?_
    by_cases hfull : (count : Int) < config.searchSize
    · rw [if_pos hfull]
      exact .done _ _ _ _ _
    · rw [if_neg hfull]
      refine .attempt_bind hgarbled (fun h => lastSort_of_accepts h hhits hcount (by omega))
        fun last _ => ?_
      -- a full page took a reply of the script, as the plain one has no hits
      have hsome : s.searchesLeft ≠ 0 := by
        intro hzero
        rw [hempty hzero, Value.count, List.length_nil, Except.ok.injEq] at hcount
        omega
      exact ih _ _ _ (by omega)

theorem searchRun_scan {collection : String} (hindex : config.indexOf collection = .ok index)
    (hsize : 0 < config.searchSize) (q : Query) (sort : SortOrder) (s : Script) :
    SearchRun config index [] (scan config (Script.server.pages s) collection q sort) s :=
  searchRun_scanFrom hindex hsize q sort [] none [] (Nat.lt_add_of_pos_right (by decide))

theorem searchRun_admittedIds (predicate : Predicate) (before : List Exchange)
    (parts : List (List Value)) (s : Script) :
    SearchRun config config.projectIndex before (admittedIds config predicate parts) s := by
  induction parts generalizing before s with
  | nil => exact .done _ _ _ _ _
  | cons ids parts ih =>
    rw [admittedIds, Program.bind_eq]
    refine .runSearch_bind rfl fun log v hits t hsent hhits _ _ => ?_
    exact .attempt_bind (fun h => ⟨_, v, List.mem_append_right _ hsent, h⟩)
      (fun h => hitIds_of_accepts h hhits) fun found _ => (ih _ _).map _

/-- A stage that is given candidates asks for their ids in parts that only the size of a page decides on,
and makes its answer of what it gets. -/
theorem exists_narrow_eq {size : Int} (hsize : 0 < size) {stage : MatchStage} {first : Value}
    {rest : List Value} (hc : (StoreCall.narrow stage (some (first :: rest))).WellFormed) :
    ∃ parts, ∃ kept : List Value → List Value, ∀ (config : ServerConfig) (pages : Nat),
      config.searchSize = size → narrow config pages stage (some (first :: rest)) =
        (admittedIds config stage.predicate parts).bind fun admitted => .done (kept admitted) := by
  obtain ⟨ids, hids⟩ := exists_collect (f := fun c => c.item "id") fun c hcand =>
    (hc c hcand).imp fun _ h => h.1
  obtain ⟨parts, hparts⟩ : ∃ parts, chunks size ids = .ok parts := ⟨_, chunks_of_pos hsize ids⟩
  have hkeep : ∀ admitted, ∃ kept,
      Value.keepIf (isAmong admitted) (first :: rest) = .ok kept := by
    refine fun admitted => Value.exists_keepIf fun c hcand => ?_
    obtain ⟨id, hid, hkey⟩ := hc c hcand
    exact ⟨id.memberOf admitted, by cases id <;> simp_all [isAmong, Value.isKey]⟩
  choose kept hkept using hkeep
  refine ⟨parts, kept, fun config pages hconfig => ?_⟩
  simp [narrow, hconfig, hids, hparts, hkept, Server.attempt, Fault.lift, Program.ofExcept]

theorem searchRun_narrow (hsize : 0 < config.searchSize) (stage : MatchStage)
    {candidates : Option (List Value)} (hc : (StoreCall.narrow stage candidates).WellFormed)
    (s : Script) :
    SearchRun config config.projectIndex []
      (narrow config (Script.server.pages s) stage candidates) s := by
  cases candidates with
  | none => exact searchRun_scan rfl hsize _ _ s
  | some candidates =>
    cases candidates with
    | nil => exact .done _ _ _ _ _
    | cons first rest =>
      obtain ⟨parts, kept, hnarrow⟩ := exists_narrow_eq hsize hc
      rw [hnarrow config _ rfl]
      exact (searchRun_admittedIds stage.predicate [] parts s).map kept

/-- Each request is sent once, until one fails; the outcome is that of the last one. -/
inductive Sent : List Request → List Exchange → Except ClientFailure Value → Prop
  | failed (r : Request) (rest : List Request) (c : ClientFailure) :
    Sent (r :: rest) [sent r (.error c)] (.error c)
  | last (r : Request) (v : Value) : Sent [r] [sent r (.ok v)] (.ok v)
  | further (r : Request) (v : Value) {rest : List Request} {log : List Exchange}
      {o : Except ClientFailure Value} (h : Sent rest log o) :
    Sent (r :: rest) (sent r (.ok v) :: log) o

/-- How an operation on a single record ends: what the client fails with stays as it is, unless it is
that there is no such record. -/
inductive RecordEnds (c : StoreCall) (log : List Exchange) :
    Except ClientFailure Value → Except Failure c.Reply → Prop
  | returned (v : Value) (a : c.Reply) : RecordEnds c log (.ok v) (.ok a)
  | absent (a : c.Reply) (h : c.absent? = some a) : RecordEnds c log (.error .notFound) (.ok a)
  | clientFailed (k : ClientFailure) (h : k ≠ .notFound ∨ c.absent? = none) :
    RecordEnds c log (.error k) (.error (.client k))
  | garbled (v : Value) (f : Fault) (h : Garbled log) :
    RecordEnds c log (.ok v) (.error (.fault f))

def RecordRun (c : StoreCall) (requests : List Request) (p : ServerProgram c.Reply) (s : Script) :
    Prop :=
  ∃ log o t x, Ran Script.handle p s log o t ∧ Sent requests log x ∧ RecordEnds c log x o

theorem RecordRun.further {c : StoreCall} {r : Request} {requests : List Request} {v : Value}
    {next : Except ClientFailure Value → ServerProgram c.Reply} {s : Script}
    (hv : (s.answer r).1 = .ok v) (h : RecordRun c requests (next (.ok v)) (s.answer r).2) :
    RecordRun c (r :: requests) (.call (.request r) next) s := by
  obtain ⟨log, o, t, x, hran, hsent, hends⟩ := h
  refine ⟨_, o, t, x, Script.ran_request hv hran, .further r v hsent, ?_⟩
  cases hends with
  | returned w a => exact .returned w a
  | absent a ha => exact .absent a ha
  | clientFailed k hk => exact .clientFailed k hk
  | garbled w f hlog => exact .garbled w f (hlog.mono (List.subset_cons_self _ _))

theorem RecordRun.last {c : StoreCall} {r : Request} {v : Value}
    {next : Except ClientFailure Value → ServerProgram c.Reply} {s : Script} (a : c.Reply)
    (hv : (s.answer r).1 = .ok v) (h : next (.ok v) = .done a) :
    RecordRun c [r] (.call (.request r) next) s := by
  have hnext : Ran Script.handle (next (.ok v)) (s.answer r).2 [] (.ok a) (s.answer r).2 := by
    rw [h]
    exact .done _ _ _
  exact ⟨_, _, _, _, Script.ran_request hv hnext, .last r v, .returned v a⟩

/-- A request fails: only where there may be no such record does that say that there is none. -/
theorem RecordRun.failed {c : StoreCall} {r : Request} {k : ClientFailure} (rest : List Request)
    {next : Except ClientFailure Value → ServerProgram c.Reply} {s : Script}
    (hk : (s.answer r).1 = .error k)
    (h : (∃ a, k = .notFound ∧ c.absent? = some a ∧ next (.error k) = .done a) ∨
      (k ≠ .notFound ∨ c.absent? = none) ∧ next (.error k) = .failed (.client k)) :
    RecordRun c (r :: rest) (.call (.request r) next) s := by
  rcases h with ⟨a, rfl, ha, hnext⟩ | ⟨hneither, hnext⟩
  · have hran : Ran Script.handle (next (.error .notFound)) (s.answer r).2 [] (.ok a)
        (s.answer r).2 := by
      rw [hnext]
      exact .done _ _ _
    exact ⟨_, _, _, _, Script.ran_request hk hran, .failed r rest _, .absent a ha⟩
  · have hran : Ran Script.handle (next (.error k)) (s.answer r).2 [] (.error (.client k))
        (s.answer r).2 := by
      rw [hnext]
      exact .failed _ _ _
    exact ⟨_, _, _, _, Script.ran_request hk hran, .failed r rest k, .clientFailed k hneither⟩

theorem RecordRun.garbled {c : StoreCall} {r : Request} {v : Value} {f : Fault}
    {next : Except ClientFailure Value → ServerProgram c.Reply} {s : Script}
    (hv : (s.answer r).1 = .ok v) (hreply : ¬ r.Accepts v)
    (h : next (.ok v) = .failed (.fault f)) : RecordRun c [r] (.call (.request r) next) s := by
  have hnext : Ran Script.handle (next (.ok v)) (s.answer r).2 [] (.error (.fault f))
      (s.answer r).2 := by
    rw [h]
    exact .failed _ _ _
  exact ⟨_, _, _, _, Script.ran_request hv hnext, .last r v,
    .garbled v f ⟨r, v, List.mem_singleton_self _, hreply⟩⟩

/-- What holds of a lookup holds of the one that an update ends with. -/
theorem RecordRun.ofUpdate {name : String} {id : Value} {requests : List Request}
    {p : ServerProgram (Option Value)} {s : Script}
    (h : RecordRun (.findById name id) requests p s) (changes : Fields) :
    RecordRun (.update name id changes) requests p s := by
  obtain ⟨log, o, t, x, hran, hsent, hends⟩ := h
  refine ⟨log, o, t, x, hran, hsent, ?_⟩
  cases hends with
  | returned v a => exact .returned (c := .update name id changes) v a
  | absent a ha => exact .absent (c := .update name id changes) a ha
  | clientFailed k hk => exact .clientFailed k (hk.imp_right fun hnone => by cases hnone)
  | garbled v f hlog => exact .garbled v f hlog

section Records

variable {collection : String} (hindex : config.indexOf collection = .ok index)

include hindex

theorem recordRun_findById (id : Value) (s : Script) :
    RecordRun (.findById collection id) [.get index id] (findById config collection id) s := by
  rw [findById, hindex]
  cases hanswer : (s.answer (.get index id)).1 with
  | error k =>
    refine .failed [] hanswer ?_
    cases k with
    | notFound => exact .inl ⟨none, rfl, rfl, rfl⟩
    | _ => exact .inr ⟨.inl (by decide), rfl⟩
  | ok v =>
    cases hsource : sourceOf v with
    | ok source =>
      refine .last (recordOf source) hanswer ?_
      simp [Server.attempt, hsource, Fault.lift, Program.ofExcept]
    | error f =>
      refine .garbled (f := f) hanswer ?_ ?_
      · rintro ⟨source, hok⟩
        rw [sourceOf, hok] at hsource
        cases hsource
      · simp [Server.attempt, hsource, Fault.lift, Program.ofExcept]

theorem recordRun_insert {r : Fields} (hr : ∃ id, r.lookup "id" = some id) (s : Script) :
    RecordRun (.insert collection r) [.put index (Fields.get r "id") r]
      (insert config collection r) s := by
  obtain ⟨id, hid⟩ := hr
  rw [insert, hid, hindex, Fields.get_of_lookup hid]
  cases hanswer : (s.answer (.put index id r)).1 with
  | error k => exact .failed [] hanswer (.inr ⟨.inr rfl, rfl⟩)
  | ok v => exact .last (.object r) hanswer rfl

theorem recordRun_update (id : Value) (changes : Fields) (s : Script) :
    RecordRun (.update collection id changes) [.update index id changes, .get index id]
      (update config collection id changes) s := by
  rw [update, hindex]
  cases hanswer : (s.answer (.update index id changes)).1 with
  | error k =>
    refine .failed _ hanswer ?_
    cases k with
    | notFound => exact .inl ⟨none, rfl, rfl, rfl⟩
    | _ => exact .inr ⟨.inl (by decide), rfl⟩
  | ok v => exact .further hanswer ((recordRun_findById hindex id _).ofUpdate changes)

theorem recordRun_delete (id : Value) (s : Script) :
    RecordRun (.delete collection id) [.delete index id] (delete config collection id) s := by
  rw [delete, hindex]
  cases hanswer : (s.answer (.delete index id)).1 with
  | error k =>
    refine .failed [] hanswer ?_
    cases k with
    | notFound => exact .inl ⟨false, rfl, rfl, rfl⟩
    | _ => exact .inr ⟨.inl (by decide), rfl⟩
  | ok v => exact .last true hanswer rfl

end Records

def exchangesOf (config : ServerConfig) (c : StoreCall) (s : Script) : List Exchange :=
  (program config (Script.server.pages s) c).exchanges Script.handle s

theorem SearchRun.ends {c : StoreCall} {s : Script}
    (h : SearchRun config index [] (program config (Script.server.pages s) c) s) :
    ∃ end?, Searched config index (exchangesOf config c s) end? ∧
      SearchEnds index (exchangesOf config c s) end? (Script.server.store config c s).1 := by
  obtain ⟨log, o, t, end?, hran, hsearched, hends⟩ := h
  have hstore : (Script.server.store config c s).1 = o := congrArg Prod.fst hran.run_eq
  rw [exchangesOf, hran.exchanges_eq, hstore]
  exact ⟨end?, hsearched, hends⟩

theorem RecordRun.ends {c : StoreCall} {requests : List Request} {s : Script}
    (h : RecordRun c requests (program config (Script.server.pages s) c) s) :
    ∃ x, Sent requests (exchangesOf config c s) x ∧
      RecordEnds c (exchangesOf config c s) x (Script.server.store config c s).1 := by
  obtain ⟨log, o, t, x, hran, hsent, hends⟩ := h
  have hstore : (Script.server.store config c s).1 = o := congrArg Prod.fst hran.run_eq
  rw [exchangesOf, hran.exchanges_eq, hstore]
  exact ⟨x, hsent, hends⟩

/-- Whatever the client replies, an operation that searches sends each search, and again while the
server is not reached and attempts are left, and returns or fails in that the search has failed. An
operation on a single record sends each request once; it returns, also where there is no such record,
or fails with the failure of the client. Else a reply was garbled. -/
theorem store_ends (hsize : 0 < config.searchSize) {c : StoreCall}
    (hknown : c.collection ∈ Collection.known) (hc : c.WellFormed) (s : Script) :
    ∃ index, config.indexOf c.collection = .ok index ∧
      match c.requests? index with
      | none => ∃ end?, Searched config index (exchangesOf config c s) end? ∧
        SearchEnds index (exchangesOf config c s) end? (Script.server.store config c s).1
      | some requests => ∃ x, Sent requests (exchangesOf config c s) x ∧
        RecordEnds c (exchangesOf config c s) x (Script.server.store config c s).1 := by
  obtain ⟨index, hindex⟩ := config.exists_indexOf hknown
  refine ⟨index, hindex, ?_⟩
  cases c with
  | findById name id => exact (recordRun_findById hindex id s).ends
  | find name predicate => exact SearchRun.ends (searchRun_scan hindex hsize _ _ s)
  | insert name r => exact (recordRun_insert hindex hc s).ends
  | update name id changes => exact (recordRun_update hindex id changes s).ends
  | delete name id => exact (recordRun_delete hindex id s).ends
  | search stage => exact SearchRun.ends (searchRun_scan hindex hsize _ _ s)
  | narrow stage candidates =>
    cases hindex
    exact SearchRun.ends (searchRun_narrow hsize stage hc s)

/-- A search that does not reach the server is sent again, and then fails with the time running out. -/
theorem store_ends_unreached :
    let c : StoreCall := .find Collection.projects none
    let s : Script := ⟨[("search", [.error .connection, .error .timeout])], [], []⟩
    let page : Request := .search "projects" .matchAll 500 (some .byId) none
    0 < ({} : ServerConfig).searchSize ∧ c.collection ∈ Collection.known ∧ c.WellFormed ∧
      exchangesOf {} c s = [sent page (.error .connection), waited 1, sent page (.error .timeout)] ∧
      ∃ k, Searched {} "projects" (exchangesOf {} c s) (some k) := by
  intro c s page
  have hsize : 0 < ({} : ServerConfig).searchSize := by decide
  have hknown : c.collection ∈ Collection.known := by decide
  refine ⟨hsize, hknown, trivial, rfl, ?_⟩
  obtain ⟨index, hindex, end?, hsearched, hends⟩ := store_ends hsize hknown trivial s
  cases hindex
  have houtcome : (Script.server.store {} c s).1 = .error (.searchFailed "projects") := rfl
  rw [houtcome] at hends
  cases hends with
  | searchFailed k => exact ⟨k, hsearched⟩

/-- A failure of the client comes through each of the operations on single records as it is, and is
not tried again where the server was not reached. -/
theorem client_failure_comes_through :
    let s (k : ClientFailure) : Script :=
      ⟨["get", "index", "update", "delete"].map fun method => (method, [.error k]), [], []⟩
    let answer (c : StoreCall) (k : ClientFailure) := (Script.server.store {} c (s k)).1
    answer (.findById "projects" (.text "p1")) .api = .error (.client .api) ∧
      answer (.insert "projects" [("id", .text "p1")]) .conflict = .error (.client .conflict) ∧
      answer (.update "projects" (.text "p1") []) .timeout = .error (.client .timeout) ∧
      answer (.delete "projects" (.text "p1")) .connection = .error (.client .connection) ∧
      exchangesOf {} (.delete "projects" (.text "p1")) (s .connection) =
        [sent (.delete "projects" (.text "p1")) (.error .connection)] :=
  ⟨rfl, rfl, rfl, rfl, rfl⟩

end ServerStore

end FreelanceBoard
