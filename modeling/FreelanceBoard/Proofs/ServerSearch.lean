import FreelanceBoard.Proofs.CandidateGroups
import FreelanceBoard.Proofs.FilterPlan
import FreelanceBoard.Search

/-! Searching projects on a store behind a search server. Each stage asks the server again, by
pages or by groups of ids, and yet the outcome is that of one filter over the documents. -/
namespace FreelanceBoard

namespace ServerStore

variable {σ : Type} {server : SearchServer σ} {docs : σ → String → List Document}
  {score : Scoring} {config : ServerConfig}

theorem holds_idsQuery_iff {ids : List Value} (hids : ∀ v ∈ ids, ∃ s, v = .text s)
    {predicate : Predicate} {source : Fields} (hsource : source.lookup "id" = some (.text source.idText)) :
    (idsQuery ids predicate).holds score (.object source) = true ↔
      .text source.idText ∈ ids ∧ predicate.toQuery.holds score (.object source) = true := by
  have hresolve : (Value.object source).resolve "id" = .text source.idText :=
    Fields.get_of_lookup hsource
  have hany : (ids.any fun w => Query.hasTerm w (.text source.idText)) = true ↔
      .text source.idText ∈ ids := by
    rw [List.any_eq_true]
    constructor
    · rintro ⟨w, hw, hterm⟩
      obtain ⟨s, rfl⟩ := hids w hw
      have hsame : (Value.text source.idText).same (.text s) = true := hterm
      rw [Value.same_text_iff] at hsame
      exact hsame ▸ hw
    · intro h
      exact ⟨_, h, Value.same_text_iff.2 rfl⟩
  simp only [idsQuery, Query.holds, Query.holdsAll, hresolve, Bool.and_true, Bool.and_eq_true, hany]

/-- The documents of some ids that are brought back are those that the query holds of, while searching
leaves the documents as they are. -/
theorem answersIds (hserver : AnswersSearches server docs score) {index : String} {s : σ}
    (hsources : Identified ((docs s index).map Document.source)) :
    AnswersIds server.handle (fun t => docs t = docs s) index ((docs s index).map Document.source)
      fun q d => q.holds score (.object d) := by
  refine ⟨hsources, fun t ids predicate size ht hsize => ?_⟩
  obtain ⟨reply, u, found, hreply, hdocs, hperm, hlists⟩ :=
    hserver.unordered t index (idsQuery (ids.map .text) predicate) size hsize
  obtain ⟨items, hitems, hall⟩ := hitsOf_of_lists hlists
  refine ⟨reply, u, found.map Hit.source, hreply, hdocs.trans ht, ?_, items, hitems, ?_⟩
  · have hsource := hperm.map Hit.source
    rw [Query.map_source_hits, ht] at hsource
    refine hsource.trans (List.Perm.of_eq (List.filter_congr fun d hd => ?_))
    rw [Bool.eq_iff_iff, holds_idsQuery_iff (by simp) (hsources.lookup_id hd), Bool.and_eq_true,
      decide_eq_true_eq, List.mem_map_of_injective fun _ _ h => Value.text.inj h]
  · rw [← List.map_take, List.forall₂_map_right_iff]
    exact hall.imp fun item hit h => h.1

theorem run_narrow (hserver : AnswersSearches server docs score) (hsize : 0 < config.searchSize)
    (stage : MatchStage) (pages : Nat) {s : σ}
    (hsources : Identified ((docs s config.projectIndex).map Document.source))
    {candidates : List Fields} (hsub : candidates ⊆ (docs s config.projectIndex).map Document.source) :
    ∃ t, docs t = docs s ∧
      (narrow config pages stage (some (candidates.map .object))).run server.handle s =
        (.ok ((candidates.filter fun c => stage.predicate.toQuery.holds score (.object c)).map
          .object), t) := by
  obtain ⟨log, t, hdocs, hran, -⟩ := ran_narrow (answersIds hserver hsources) hsize stage pages
    (fun c hc => hsources.named c (hsub hc)) rfl
  refine ⟨t, hdocs, ?_⟩
  rw [hran.run_eq, kept]
  congr 3
  refine List.filter_congr fun c hc => ?_
  rw [Bool.eq_iff_iff, isMet_iff]
  constructor
  · rintro ⟨d, hd, hid, hholds⟩
    rwa [← hsources.eq_of_idText_eq hd (hsub hc) hid]
  · exact fun hholds => ⟨c, hsub hc, rfl, hholds⟩

end ServerStore

def byId (sources : List Fields) : List Fields :=
  sources.mergeSort fun a b => decide (a.idText ≤ b.idText)

theorem filter_byId (keep : Fields → Bool) (sources : List Fields) :
    (byId sources).filter keep = byId (sources.filter keep) := by
  apply Sorting.filter_mergeSort
  · intro a b c hab hbc
    simp only [decide_eq_true_eq] at hab hbc ⊢
    exact String.le_trans hab hbc
  · intro a b
    simp only [Bool.or_eq_true, decide_eq_true_eq]
    exact String.le_total _ _

theorem Query.listing_byId (score : Scoring) (sources : List Fields) (q : Query) :
    (q.listing score sources .byId).map Hit.source =
      (byId sources).filter fun source => q.holds score (.object source) := by
  rw [filter_byId, ← Query.map_source_hits, byId, listing]
  exact List.map_mergeSort fun a _ b _ => rfl

theorem Query.source_listing_subset (score : Scoring) (sources : List Fields) (q : Query)
    (order : SortOrder) : (q.listing score sources order).map Hit.source ⊆ sources := by
  intro source hsource
  obtain ⟨hit, hhit, rfl⟩ := List.mem_map.1 hsource
  rw [listing, List.mem_mergeSort] at hhit
  have hmem := List.mem_map_of_mem (f := Hit.source) hhit
  rw [map_source_hits] at hmem
  exact List.mem_of_mem_filter hmem

namespace ServerStore

variable {σ : Type} {server : SearchServer σ} {docs : σ → String → List Document}
  {score : Scoring} {config : ServerConfig}

theorem run_find (hserver : AnswersSearches server docs score) (hsize : 0 < config.searchSize)
    {collection index : String} (hindex : config.indexOf collection = .ok index)
    (predicate : Option Predicate) {s : σ}
    (hsources : Identified ((docs s index).map Document.source)) :
    ∃ t, docs t = docs s ∧
      (find config (server.pages s) collection predicate).run server.handle s =
        (.ok (((byId ((docs s index).map Document.source)).filter fun source =>
          (queryOf predicate).holds score (.object source)).map .object), t) := by
  obtain ⟨t, hdocs, hrun⟩ := run_scan hserver .byId hindex hsize
    (hsources.nodup_hits score (queryOf predicate))
  refine ⟨t, hdocs, ?_⟩
  rw [find, hrun, ← Query.listing_byId, List.map_map]
  rfl

theorem run_search (hserver : AnswersSearches server docs score) (hsize : 0 < config.searchSize)
    (stage : SearchStage) {s : σ}
    (hsources : Identified ((docs s config.projectIndex).map Document.source)) :
    ∃ t, docs t = docs s ∧ (search config (server.pages s) stage).run server.handle s =
      (.ok (((stage.toQuery.listing score ((docs s config.projectIndex).map Document.source)
        .byRelevance).map Hit.source).map .object), t) := by
  obtain ⟨t, hdocs, hrun⟩ := run_scan hserver .byRelevance (indexOf_projects config) hsize
    (hsources.nodup_hits score stage.toQuery)
  refine ⟨t, hdocs, ?_⟩
  rw [search, hrun, List.map_map]
  rfl

end ServerStore

namespace Plan

variable {σ : Type} {server : SearchServer σ} {docs : σ → String → List Document}
  {score : Scoring} {config : ServerConfig}

/-- What a plan has to choose from: the hits of its search, the best first and equally good ones by
their ids, or all documents by their ids. -/
def offered (score : Scoring) (p : Plan) (sources : List Fields) : List Fields :=
  match p.search? with
  | some stage => (stage.toQuery.listing score sources .byRelevance).map Hit.source
  | none => byId sources

def keeps (score : Scoring) (stages : List MatchStage) (source : Fields) : Bool :=
  stages.all fun stage => stage.predicate.toQuery.holds score (.object source)

theorem keeps_cons (score : Scoring) (stage : MatchStage) (stages : List MatchStage)
    (source : Fields) : keeps score (stage :: stages) source =
      (stage.predicate.toQuery.holds score (.object source) && keeps score stages source) := rfl

/-- A stage may as well be asked for where its candidates are listed. -/
theorem keeps_cons_eq_queryOf (score : Scoring) (stage : MatchStage) (stages : List MatchStage) :
    keeps score (stage :: stages) = fun source => keeps score stages source &&
      (ServerStore.queryOf (some stage.predicate)).holds score (.object source) := by
  funext source
  rw [keeps_cons, Bool.and_comm, ServerStore.queryOf, Query.holds, Query.holdsAll, Query.holdsAll,
    Bool.and_true]

theorem run_keeps_server (hserver : AnswersSearches server docs score)
    (hsize : 0 < config.searchSize) (stages : List MatchStage) {s : σ}
    (hsources : Identified ((docs s config.projectIndex).map Document.source))
    {candidates : List Fields} (hsub : candidates ⊆ (docs s config.projectIndex).map Document.source) :
    ∃ t, docs t = docs s ∧
      (runStages (stages.map .keep) (some (candidates.map .object))).run (server.store config) s =
        (.ok (some ((candidates.filter (keeps score stages)).map .object)), t) := by
  induction stages generalizing candidates s with
  | nil =>
    refine ⟨s, rfl, ?_⟩
    rw [List.filter_eq_self.2 (fun c _ => rfl : ∀ c ∈ candidates, keeps score [] c = true)]
    rfl
  | cons stage stages ih =>
    obtain ⟨t, hdocs, hnarrow⟩ := ServerStore.run_narrow hserver hsize stage
      (server.pages s) hsources hsub
    rw [← hdocs] at hsources hsub
    obtain ⟨u, hu, hrun⟩ := ih hsources
      (fun c hc => hsub (List.mem_of_mem_filter hc) :
        candidates.filter (fun c => stage.predicate.toQuery.holds score (.object c)) ⊆ _)
    refine ⟨u, hu.trans hdocs, ?_⟩
    rw [List.map_cons, runStages, Store.narrow, Program.bind_eq, Program.call_bind,
      Program.run_call, SearchServer.store, ServerStore.program, hnarrow]
    simp only [Program.done_bind]
    rw [show (runStages _ _).run _ t = _ from hrun, List.filter_filter]
    have hboth : keeps score (stage :: stages) = fun c =>
        keeps score stages c && stage.predicate.toQuery.holds score (.object c) := by
      funext c
      rw [keeps_cons, Bool.and_comm]
    rw [hboth]

/-- The stages of a plan leave of what it has to choose from what all its queries hold of. -/
theorem run_execute_server (hserver : AnswersSearches server docs score)
    (hsize : 0 < config.searchSize) (f : ProjectFilter) (actor : String) {s : σ}
    (hsources : Identified ((docs s config.projectIndex).map Document.source)) :
    ∃ t, docs t = docs s ∧ (asking f actor).execute.run (server.store config) s =
      (.ok ((((asking f actor).offered score ((docs s config.projectIndex).map Document.source)).filter
        (keeps score (f.matchStages actor))).map .object), t) := by
  rw [offered, search?_asking, execute, asking]
  cases f.searchStage? with
  | some stage =>
    obtain ⟨t, hdocs, hsearch⟩ := ServerStore.run_search hserver hsize stage hsources
    have hsub := stage.toQuery.source_listing_subset score
      ((docs s config.projectIndex).map Document.source) .byRelevance
    rw [← hdocs] at hsources hsub
    obtain ⟨u, hu, hrun⟩ := run_keeps_server hserver hsize (f.matchStages actor) hsources hsub
    refine ⟨u, hu.trans hdocs, ?_⟩
    rw [Option.toList_some, List.map_singleton, List.singleton_append, runStages, Store.search,
      Program.bind_eq, Program.bind_eq, Program.call_bind, Program.call_bind, Program.run_call,
      SearchServer.store, ServerStore.program, hsearch]
    rw [hdocs] at hrun
    simp only [Program.done_bind, Program.run_bind, hrun]
    rfl
  | none =>
    obtain ⟨stage, stages, hstages⟩ : ∃ stage stages, f.matchStages actor = stage :: stages :=
      ⟨_, _, rfl⟩
    obtain ⟨t, hdocs, hfind⟩ := ServerStore.run_find hserver hsize
      (ServerStore.indexOf_projects config) (some stage.predicate) hsources
    have hsub := (ServerStore.queryOf (some stage.predicate)).source_listing_subset score
      ((docs s config.projectIndex).map Document.source) .byId
    rw [Query.listing_byId] at hsub
    rw [← hdocs] at hsources hsub
    obtain ⟨u, hu, hrun⟩ := run_keeps_server hserver hsize stages hsources hsub
    refine ⟨u, hu.trans hdocs, ?_⟩
    rw [Option.toList_none, List.map_nil, List.nil_append, hstages, List.map_cons, runStages,
      Store.narrow, Program.bind_eq, Program.bind_eq, Program.call_bind, Program.call_bind,
      Program.run_call, SearchServer.store, ServerStore.program, ServerStore.narrow, hfind]
    rw [hdocs, List.filter_filter] at hrun
    simp only [Program.done_bind, Program.run_bind, hrun]
    rw [keeps_cons_eq_queryOf]
    rfl

end Plan

end FreelanceBoard
