import FreelanceBoard.Server.Request
import FreelanceBoard.Store

/-! A record store on a search server. Every collection is an alias of an index. What is found comes
page by page, each page after the sort values of the last hit of the page before, and a page that
is not full is the last. -/
namespace FreelanceBoard

/-- How a store works on its server. -/
structure ServerConfig where
  projectIndex : String := "projects"
  userIndex : String := "users"
  proposalIndex : String := "proposals"
  searchSize : Int := 500
  attempts : Nat := 3

namespace ServerConfig

/-- The alias of each known collection, in the order in which they are set up. -/
def aliases (config : ServerConfig) : List (String × String) :=
  [(Collection.projects, config.projectIndex), (Collection.users, config.userIndex),
   (Collection.proposals, config.proposalIndex)]

def indexOf (config : ServerConfig) (collection : String) : Except Failure String :=
  match config.aliases.lookup collection with
  | some index => .ok index
  | none => .error (.unknownCollection collection)

end ServerConfig

namespace ServerStore

/-- The seconds to wait after `n` failures in a row and one more: one, two, then always four. -/
def backoff : Nat → Nat
  | 0 => 1
  | n + 1 => min 4 (2 * backoff n)

/-- Sends a request, and again while the server is not reached and attempts are left. -/
def sendAgain (r : Request) (failures : Nat) : Nat → ServerProgram (Except ClientFailure Value)
  | 0 => Server.outcome r
  | left + 1 => do
    match ← Server.outcome r with
    | .ok v => pure (.ok v)
    | .error c =>
      if c.isConnection then
        Server.pause (backoff failures)
        sendAgain r (failures + 1) left
      else pure (.error c)

def send (config : ServerConfig) (r : Request) : ServerProgram (Except ClientFailure Value) :=
  sendAgain r 0 (config.attempts - 1)

/-- The hits in a reply. -/
def hitsOf (reply : Value) : Except Fault Value :=
  match reply.item "hits" with
  | .ok v => v.item "hits"
  | .error f => .error f

def runSearch (config : ServerConfig) (collection : String) (query : Query) (size : Int)
    (sort : Option SortOrder) (after : Option Value) : ServerProgram Value := do
  let index ← .ofExcept (config.indexOf collection)
  match ← send config (.search index query size sort after) with
  | .ok reply => Server.attempt (hitsOf reply)
  | .error _ => .failed (.searchFailed index)

def sourceOf (hit : Value) : Except Fault Value := hit.item "_source"

def sourcesOf (hits : Value) : Except Fault (List Value) :=
  match hits.elements with
  | .ok items => Value.collect sourceOf items
  | .error f => .error f

/-- The sort values of the last of the hits. -/
def lastSort (hits : Value) : Except Fault Value :=
  match hits.lastItem with
  | .ok hit => hit.item "sort"
  | .error f => .error f

def scanFrom (config : ServerConfig) (collection : String) (query : Query) (sort : SortOrder) :
    Nat → Option Value → List Value → ServerProgram (List Value)
  | 0, _, _ => .failed .pagesExhausted
  | pages + 1, after, found => do
    let hits ← runSearch config collection query config.searchSize (some sort) after
    let sources ← Server.attempt (sourcesOf hits)
    let count ← Server.attempt hits.count
    if (count : Int) < config.searchSize then pure (found ++ sources)
    else
      let last ← Server.attempt (lastSort hits)
      scanFrom config collection query sort pages (some last) (found ++ sources)

/-- All that a query finds, in order, on up to so many pages. -/
def scan (config : ServerConfig) (pages : Nat) (collection : String) (query : Query)
    (sort : SortOrder) : ServerProgram (List Value) :=
  scanFrom config collection query sort pages none []

/-- A record that holds nothing counts as no record. -/
def recordOf : Value → Option Value
  | .null => none
  | v => some v

def findById (config : ServerConfig) (collection : String) (id : Value) :
    ServerProgram (Option Value) := do
  let index ← .ofExcept (config.indexOf collection)
  match ← Server.outcome (.get index id) with
  | .error .notFound => pure none
  | .error c => .failed (.client c)
  | .ok reply =>
    let source ← Server.attempt (sourceOf reply)
    pure (recordOf source)

def queryOf : Option Predicate → Query
  | none => .matchAll
  | some p => .filter [p.toQuery]

def find (config : ServerConfig) (pages : Nat) (collection : String)
    (predicate : Option Predicate) : ServerProgram (List Value) :=
  scan config pages collection (queryOf predicate) .byId

def insert (config : ServerConfig) (collection : String) (record : Fields) :
    ServerProgram Value := do
  match record.lookup "id" with
  | none => .failed .recordWithoutId
  | some id =>
    let index ← .ofExcept (config.indexOf collection)
    let _ ← Server.reply (.put index id record)
    pure (.object record)

def update (config : ServerConfig) (collection : String) (id : Value) (changes : Fields) :
    ServerProgram (Option Value) := do
  let index ← .ofExcept (config.indexOf collection)
  match ← Server.outcome (.update index id changes) with
  | .error .notFound => pure none
  | .error c => .failed (.client c)
  | .ok _ => findById config collection id

def delete (config : ServerConfig) (collection : String) (id : Value) : ServerProgram Bool := do
  let index ← .ofExcept (config.indexOf collection)
  match ← Server.outcome (.delete index id) with
  | .error .notFound => pure false
  | .error c => .failed (.client c)
  | .ok _ => pure true

def search (config : ServerConfig) (pages : Nat) (stage : SearchStage) :
    ServerProgram (List Value) :=
  scan config pages Collection.projects stage.toQuery .byRelevance

/-- The items in groups of `size + 1`, the last of which may be smaller. -/
def groups {α : Type} (size : Nat) : List α → List (List α)
  | [] => []
  | a :: rest => (a :: rest.take size) :: groups size (rest.drop size)
termination_by items => items.length
decreasing_by
  simp only [List.length_drop, List.length_cons]
  omega

@[simp] theorem groups_nil {α : Type} (size : Nat) : groups size ([] : List α) = [] := by
  rw [groups]

theorem groups_cons {α : Type} (size : Nat) (a : α) (rest : List α) :
    groups size (a :: rest) = (a :: rest.take size) :: groups size (rest.drop size) := by
  rw [groups]

/-- The groups hold all items in order. -/
theorem flatten_groups {α : Type} (size : Nat) (items : List α) :
    (groups size items).flatten = items := by
  fun_induction groups size items with
  | case1 => rfl
  | case2 a rest ih => simp [ih]

theorem nil_notMem_groups {α : Type} (size : Nat) (items : List α) : [] ∉ groups size items := by
  fun_induction groups size items with
  | case1 => simp
  | case2 a rest ih => simp [ih]

theorem length_le_of_mem_groups {α : Type} {size : Nat} {items group : List α}
    (h : group ∈ groups size items) : group.length ≤ size + 1 := by
  fun_induction groups size items with
  | case1 => simp at h
  | case2 a rest ih =>
    rcases List.mem_cons.1 h with rfl | h
    · simp only [List.length_cons, List.length_take]
      omega
    · exact ih h

/-- No group is asked for where the size of a page is negative. -/
def chunks (size : Int) (ids : List Value) : Except Failure (List (List Value)) :=
  if size = 0 then .error .emptyPage
  else if size < 0 then .ok []
  else .ok (groups (size.toNat - 1) ids)

/-- The id in the source of a hit, which has to be able to be a key. -/
def hitId (hit : Value) : Except Fault Value :=
  match hit.item "_source" with
  | .error f => .error f
  | .ok source => match source.item "id" with
    | .error f => .error f
    | .ok id => if id.isKey then .ok id else .error .wrongKind

def hitIds (hits : Value) : Except Fault (List Value) :=
  match hits.elements with
  | .ok items => Value.collect hitId items
  | .error f => .error f

/-- The query for those of some ids whose records a predicate admits. -/
def idsQuery (ids : List Value) (predicate : Predicate) : Query :=
  .filter [.terms "id" ids, predicate.toQuery]

def admittedIds (config : ServerConfig) (predicate : Predicate) :
    List (List Value) → ServerProgram (List Value)
  | [] => .done []
  | ids :: rest => do
    let hits ← runSearch config Collection.projects (idsQuery ids predicate) ids.length none none
    let found ← Server.attempt (hitIds hits)
    let others ← admittedIds config predicate rest
    pure (found ++ others)

/-- A set is looked for among keys in vain, other values that are no keys fail. -/
def isAmong (admitted : List Value) (candidate : Value) : Except Fault Bool :=
  match candidate.item "id" with
  | .error f => .error f
  | .ok (.set _) => .ok false
  | .ok id => if id.isKey then .ok (id.memberOf admitted) else .error .wrongKind

/-- Candidates keep their order. -/
def narrow (config : ServerConfig) (pages : Nat) (stage : MatchStage) :
    Option (List Value) → ServerProgram (List Value)
  | none => find config pages Collection.projects (some stage.predicate)
  | some [] => .done []
  | some candidates => do
    let ids ← Server.attempt (Value.collect (fun c => c.item "id") candidates)
    let parts ← .ofExcept (chunks config.searchSize ids)
    let admitted ← admittedIds config stage.predicate parts
    Server.attempt (Value.keepIf (isAmong admitted) candidates)

def program (config : ServerConfig) (pages : Nat) : (c : StoreCall) → ServerProgram c.Reply
  | .findById collection id => findById config collection id
  | .find collection predicate => find config pages collection predicate
  | .insert collection record => insert config collection record
  | .update collection id changes => update config collection id changes
  | .delete collection id => delete config collection id
  | .search stage => search config pages stage
  | .narrow stage candidates => narrow config pages stage candidates

end ServerStore

/-- What answers the requests of a store: how it does so on a state of its own, and a number of
pages that, in a given state, no query has more of. -/
structure SearchServer (σ : Type) where
  handle : Handler Server Failure σ
  pages : σ → Nat

/-- The store as a handler, on the state of its server. -/
def SearchServer.store {σ : Type} (server : SearchServer σ) (config : ServerConfig) :
    Handler Store Failure σ :=
  fun c s => (ServerStore.program config (server.pages s) c).run server.handle s

end FreelanceBoard
