import FreelanceBoard.Proofs.Documents
import FreelanceBoard.Proofs.Pages
import FreelanceBoard.Proofs.QueryMeaning
import FreelanceBoard.Proofs.Sorting
import FreelanceBoard.Server.Store
import Mathlib.Algebra.Order.Ring.Rat
import Mathlib.Data.Prod.Lex
import Mathlib.Data.String.Basic

/-! What is relied on of a search server: it holds documents, and answers a search with those that
the query holds of, in the order asked for, so many at a time and after the hit that is named. The
store on such a server finds all hits of a query, however many pages they take. -/
namespace FreelanceBoard

structure Document where
  id : String
  source : Fields

structure Hit where
  source : Fields
  score : Rat

namespace Hit

def id (h : Hit) : String := h.source.idText

/-- Where a hit stands in an order; the server gives it with the hit, and takes it back to go on. -/
def sortValue : SortOrder → Hit → Value
  | .byId, h => .list [.text h.id]
  | .byRelevance, h => .list [.float (.finite h.score), .text h.id]

/-- Whether a hit stands before another, or where the other does. -/
def before : SortOrder → Hit → Hit → Bool
  | .byId, a, b => decide (a.id ≤ b.id)
  | .byRelevance, a, b => decide (b.score < a.score ∨ a.score = b.score ∧ a.id ≤ b.id)

/-- What an order compares of hits; by id no score counts. -/
def key : SortOrder → Hit → Ratᵒᵈ ×ₗ String
  | .byId, h => toLex (OrderDual.toDual 0, h.id)
  | .byRelevance, h => toLex (OrderDual.toDual h.score, h.id)

def written : SortOrder → Ratᵒᵈ ×ₗ String → Value
  | .byId, k => .list [.text (ofLex k).2]
  | .byRelevance, k => .list [.float (.finite (OrderDual.ofDual (ofLex k).1)), .text (ofLex k).2]

def ranked (order : SortOrder) (h : Hit) : Ranked (Ratᵒᵈ ×ₗ String) := ⟨h.key order, .object h.source⟩

theorem written_key (order : SortOrder) (h : Hit) : written order (h.key order) = h.sortValue order := by
  cases order <;> rfl

theorem id_eq_of_key_eq {order : SortOrder} {a b : Hit} (h : a.key order = b.key order) :
    a.id = b.id := by
  have hsecond := congrArg (fun k => (ofLex k).2) h
  cases order <;> exact hsecond

theorem before_iff {order : SortOrder} {a b : Hit} :
    before order a b = true ↔ a.key order ≤ b.key order := by
  cases order <;> simp [before, key, Prod.Lex.toLex_le_toLex]

end Hit

namespace Query

def scoreOf (score : Scoring) (q : Query) (source : Fields) : Option Rat :=
  match q with
  | .fullText field query edits => score ⟨field, query, edits⟩ (.object source)
  | q => if q.holds score (.object source) then some 0 else none

def hits (score : Scoring) (sources : List Fields) (q : Query) : List Hit :=
  sources.filterMap fun source => (q.scoreOf score source).map (⟨source, ·⟩)

theorem isSome_scoreOf (score : Scoring) (q : Query) (source : Fields) :
    (q.scoreOf score source).isSome = q.holds score (.object source) := by
  cases q with
  | fullText field query edits => rfl
  | _ => simp only [scoreOf]; split <;> simp_all

theorem map_source_hits (score : Scoring) (sources : List Fields) (q : Query) :
    (q.hits score sources).map Hit.source =
      sources.filter fun source => q.holds score (.object source) := by
  induction sources with
  | nil => rfl
  | cons source sources ih =>
    have hsome := isSome_scoreOf score q source
    rw [hits] at ih
    cases hscore : q.scoreOf score source with
    | none =>
      rw [hscore] at hsome
      rw [hits, List.filterMap_cons_none (by simp [hscore]), ih,
        List.filter_cons_of_neg (by simp [← hsome])]
    | some x =>
      rw [hscore] at hsome
      rw [hits, List.filterMap_cons_some (b := ⟨source, x⟩) (by simp [hscore]), List.map_cons, ih,
        List.filter_cons_of_pos (by simp [← hsome])]

def listing (score : Scoring) (sources : List Fields) (q : Query) (order : SortOrder) : List Hit :=
  (q.hits score sources).mergeSort (Hit.before order)

theorem pairwise_key_listing {score : Scoring} {sources : List Fields} {q : Query}
    (h : ((q.hits score sources).map Hit.id).Nodup) (order : SortOrder) :
    (q.listing score sources order).Pairwise fun a b => a.key order < b.key order := by
  have hsorted : (q.listing score sources order).Pairwise fun a b => Hit.before order a b = true := by
    apply List.pairwise_mergeSort
    · intro a b c hab hbc
      rw [Hit.before_iff] at hab hbc ⊢
      exact hab.trans hbc
    · intro a b
      rw [Bool.or_eq_true, Hit.before_iff, Hit.before_iff]
      exact le_total _ _
  have hdistinct : (q.listing score sources order).Pairwise fun a b => a.id ≠ b.id :=
    List.pairwise_map.1 ((((List.mergeSort_perm _ _).map Hit.id).nodup_iff).2 h)
  refine (hsorted.and hdistinct).imp fun hab => ?_
  exact lt_of_le_of_ne (Hit.before_iff.1 hab.1) fun hkey => hab.2 (Hit.id_eq_of_key_eq hkey)

end Query

/-- Documents that have an id as a field, no two of them the same. -/
structure Identified (sources : List Fields) : Prop where
  named : ∀ source ∈ sources, ∃ id, source.lookup "id" = some (.text id)
  distinct : (sources.map Fields.idText).Nodup

namespace Identified

variable {sources : List Fields}

theorem lookup_id (h : Identified sources) {source : Fields} (hsource : source ∈ sources) :
    source.lookup "id" = some (.text source.idText) := by
  obtain ⟨id, hid⟩ := h.named source hsource
  rw [Fields.idText_of_lookup hid, hid]

theorem eq_of_idText_eq (h : Identified sources) {a b : Fields} (ha : a ∈ sources)
    (hb : b ∈ sources) (hab : a.idText = b.idText) : a = b :=
  List.inj_on_of_nodup_map h.distinct ha hb hab

theorem nodup_hits (h : Identified sources) (score : Scoring) (q : Query) :
    ((q.hits score sources).map Hit.id).Nodup := by
  have hmap : (q.hits score sources).map Hit.id =
      (sources.filter fun source => q.holds score (.object source)).map Fields.idText := by
    rw [← Query.map_source_hits, List.map_map]
    rfl
  rw [hmap]
  exact h.distinct.sublist (List.filter_sublist.map _)

end Identified

/-- `rest` is what is left of some hits after the one at a place, or from the start. -/
def Follows (order : SortOrder) (hits : List Hit) : Option Value → List Hit → Prop
  | none, rest => rest = hits
  | some place, rest =>
    ∃ earlier last, hits = earlier ++ last :: rest ∧ last.sortValue order = place

theorem exists_follows {order : SortOrder} {hits : List Hit}
    (h : (hits.map (Hit.ranked order)).Pairwise (·.key < ·.key)) {after : Option (Ratᵒᵈ ×ₗ String)}
    (hafter : ∀ k ∈ after, k ∈ (hits.map (Hit.ranked order)).map Ranked.key) :
    ∃ rest, Follows order hits (after.map (Hit.written order)) rest ∧
      Ranked.onward after (hits.map (Hit.ranked order)) = rest.map (Hit.ranked order) := by
  cases after with
  | none => exact ⟨hits, rfl, Ranked.onward_none _⟩
  | some k =>
    obtain ⟨last, hlast, rfl⟩ : ∃ last ∈ hits, last.key order = k := by
      simpa [Hit.ranked] using hafter k rfl
    obtain ⟨earlier, rest, rfl⟩ := List.append_of_mem hlast
    have hmap : (earlier ++ last :: rest).map (Hit.ranked order) =
        (earlier.map (Hit.ranked order) ++ [last.ranked order]) ++ rest.map (Hit.ranked order) := by
      simp
    rw [hmap] at h ⊢
    have hrest := Ranked.onward_append h
    rw [List.getLast?_concat] at hrest
    exact ⟨rest, ⟨earlier, last, rfl, (Hit.written_key order last).symm⟩, hrest⟩

/-- A reply that lists some hits, with their places if they were asked for in an order. -/
def Lists (order : Option SortOrder) (hits : List Hit) (reply : Value) : Prop :=
  ∃ inner items, reply.item "hits" = .ok inner ∧ inner.item "hits" = .ok (.list items) ∧
    List.Forall₂ (fun item hit => item.item "_source" = .ok (.object hit.source) ∧
      ∀ o, order = some o → item.item "sort" = .ok (hit.sortValue o)) items hits

/-- What is relied on of a server when it is searched. `docs` are the documents of an index in a
state, which searching leaves as they are. -/
structure AnswersSearches {σ : Type} (server : SearchServer σ)
    (docs : σ → String → List Document) (score : Scoring) : Prop where
  /-- A page in an order holds the next hits after the place that is named. -/
  ordered : ∀ (s : σ) (index : String) (q : Query) (size : Int) (order : SortOrder)
    (after : Option Value) (rest : List Hit), 0 < size →
    ((q.hits score ((docs s index).map Document.source)).map Hit.id).Nodup →
    Follows order (q.listing score ((docs s index).map Document.source) order) after rest →
    ∃ reply t,
      server.handle (.request (.search index q size (some order) after)) s = (.ok (.ok reply), t) ∧
      docs t = docs s ∧ Lists (some order) (rest.take size.toNat) reply
  unordered : ∀ (s : σ) (index : String) (q : Query) (size : Int), 0 < size →
    ∃ reply t, ∃ found : List Hit,
      server.handle (.request (.search index q size none none)) s = (.ok (.ok reply), t) ∧
      docs t = docs s ∧ found.Perm (q.hits score ((docs s index).map Document.source)) ∧
      Lists none (found.take size.toNat) reply
  /-- The bound on the pages of a query: each page but the last has a document or more. -/
  bounded : ∀ (s : σ) (index : String), (docs s index).length < server.pages s

namespace ServerStore

variable {σ : Type} {server : SearchServer σ} {docs : σ → String → List Document}
  {score : Scoring} {config : ServerConfig}

theorem hitsOf_of_lists {order : Option SortOrder} {hits : List Hit} {reply : Value}
    (h : Lists order hits reply) : ∃ items, hitsOf reply = .ok (.list items) ∧
      List.Forall₂ (fun item hit => item.item "_source" = .ok (.object hit.source) ∧
        ∀ o, order = some o → item.item "sort" = .ok (hit.sortValue o)) items hits := by
  obtain ⟨inner, items, hinner, hitems, hall⟩ := h
  exact ⟨items, by rw [hitsOf, hinner]; exact hitems, hall⟩

theorem run_outcome {α : Type} {r : Request} {f : Except ClientFailure Value → ServerProgram α}
    {o : Except ClientFailure Value} {s t : σ} (h : server.handle (.request r) s = (.ok o, t)) :
    ((Server.outcome r).bind f).run server.handle s = (f o).run server.handle t := by
  rw [Server.outcome, Program.call_bind, Program.run_call, h]
  rfl

theorem listsRanked_of_lists {order : SortOrder} {hits : List Hit} {reply : Value}
    (h : Lists (some order) hits reply) :
    ListsRanked (Hit.written order) (hits.map (Hit.ranked order)) reply := by
  obtain ⟨items, hitems, hall⟩ := hitsOf_of_lists h
  refine ⟨items, hitems, ?_⟩
  rw [List.forall₂_map_right_iff]
  exact hall.imp fun item hit hhit =>
    ⟨hhit.1, (hhit.2 order rfl).trans (congrArg _ (Hit.written_key order hit).symm)⟩

theorem holdsHits (hserver : AnswersSearches server docs score) {index : String} {q : Query} {s : σ}
    (order : SortOrder)
    (hids : ((q.hits score ((docs s index).map Document.source)).map Hit.id).Nodup) :
    HoldsHits server.handle (fun t => docs t = docs s) index q order (Hit.written order)
      ((q.listing score ((docs s index).map Document.source) order).map (Hit.ranked order)) := by
  have hascending : ((q.listing score ((docs s index).map Document.source) order).map
      (Hit.ranked order)).Pairwise (·.key < ·.key) :=
    List.pairwise_map.2 (Query.pairwise_key_listing hids order)
  refine ⟨hascending, fun t size after ht hsize hafter => ?_⟩
  obtain ⟨rest, hfollows, honward⟩ := exists_follows hascending hafter
  rw [← ht] at hids hfollows
  obtain ⟨reply, u, hreply, hdocs, hlists⟩ :=
    hserver.ordered t index q size order _ rest hsize hids hfollows
  refine ⟨reply, u, hreply, hdocs.trans ht, ?_⟩
  rw [honward, ← List.map_take]
  exact listsRanked_of_lists hlists

theorem run_scan (hserver : AnswersSearches server docs score) {collection index : String}
    {q : Query} (order : SortOrder) (hindex : config.indexOf collection = .ok index)
    (hsize : 0 < config.searchSize) {s : σ}
    (hids : ((q.hits score ((docs s index).map Document.source)).map Hit.id).Nodup) :
    ∃ t, docs t = docs s ∧
      (scan config (server.pages s) collection q order).run server.handle s =
        (.ok ((q.listing score ((docs s index).map Document.source) order).map
          fun hit => .object hit.source), t) := by
  have hpages : (q.listing score ((docs s index).map Document.source) order).length <
      server.pages s := by
    have hhits : (q.hits score ((docs s index).map Document.source)).length ≤
        (docs s index).length := by
      have hlength := List.length_filterMap_le (fun source =>
        (q.scoreOf score source).map (⟨source, ·⟩ : Rat → Hit)) ((docs s index).map Document.source)
      rw [List.length_map] at hlength
      exact hlength
    have hbound := hserver.bounded s index
    rw [Query.listing, List.length_mergeSort]
    omega
  have hbound : ((q.listing score ((docs s index).map Document.source) order).map
      (Hit.ranked order)).length / config.searchSize.toNat < server.pages s := by
    rw [List.length_map]
    exact lt_of_le_of_lt (Nat.div_le_self _ _) hpages
  obtain ⟨log, t, hdocs, hran, -⟩ :=
    ran_scan (holdsHits hserver order hids) hindex hsize hbound rfl
  refine ⟨t, hdocs, ?_⟩
  rw [hran.run_eq, List.map_map]
  rfl

end ServerStore

end FreelanceBoard
