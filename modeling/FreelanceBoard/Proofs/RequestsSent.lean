import FreelanceBoard.Proofs.DocumentServer

/-! Which requests the store sends its server for one call, and how many. Listing what a query finds takes
a page more than are full, narrowing candidates a group for each so many of them, and what comes of it
does not depend on the size of a page. -/
namespace FreelanceBoard

open Program Exchange Ranked

/-- A call that lists what a query finds, in an order. -/
inductive Listing where
  | find (collection : String) (predicate : Option Predicate)
  | search (stage : SearchStage)

namespace Listing

def collection : Listing → String
  | .find name _ => name
  | .search _ => Collection.projects

def query : Listing → Query
  | .find _ predicate => ServerStore.queryOf predicate
  | .search stage => stage.toQuery

def order : Listing → SortOrder
  | .find _ _ => .byId
  | .search _ => .byRelevance

def program (config : ServerConfig) (pages : Nat) : Listing → ServerProgram (List Value)
  | .find name predicate => ServerStore.program config pages (.find name predicate)
  | .search stage => ServerStore.program config pages (.search stage)

theorem program_eq_scan (config : ServerConfig) (pages : Nat) (l : Listing) :
    l.program config pages = ServerStore.scan config pages l.collection l.query l.order := by
  cases l <;> rfl

end Listing

namespace ServerStore

section Pages

variable {σ κ : Type} [LinearOrder κ] {server : SearchServer σ} {ready : σ → Prop}
  {config : ServerConfig} {index : String} {written : κ → Value} {hits : List (Ranked κ)}

/-- A listing asks for the pages that are full and for one more, by requests that differ in nothing but
the hit after which a page begins, and gives each hit once and in order. It does so under any bound on
the pages that leaves room for them. -/
theorem listing_asks_for_pages (l : Listing)
    (hserver : HoldsHits server.handle ready index l.query l.order written hits)
    (hindex : config.indexOf l.collection = .ok index) (hsize : 0 < config.searchSize) {pages : Nat}
    (hpages : hits.length / config.searchSize.toNat < pages) {s : σ} (hs : ready s) :
    ∃ log t, ready t ∧
      Ran server.handle (l.program config pages) s log (.ok (hits.map Ranked.source)) t ∧
      log.length = hits.length / config.searchSize.toNat + 1 ∧
      AllAnswered ((List.range (hits.length / config.searchSize.toNat + 1)).map fun i =>
        .search index l.query config.searchSize (some l.order)
          (placeAfter written (hits.take (i * config.searchSize.toNat)))) log := by
  obtain ⟨log, t, ht, hran, hlog⟩ := ran_scan hserver hindex hsize hpages hs
  rw [← Listing.program_eq_scan] at hran
  simp only [pageRequests, Nat.zero_add] at hlog
  refine ⟨log, t, ht, hran, ?_, hlog⟩
  rw [← hlog.length_eq, List.length_map, List.length_range]

/-- Two documents fill a page of two, and a page without hits follows. -/
theorem listing_asks_for_an_empty_page :
    let score : Scoring := fun _ _ => none
    let sources : List Fields := [[("id", .text "p1")], [("id", .text "p2")]]
    let s : Indices := [("projects", sources.map fun source => ⟨source.idText, source⟩)]
    let config : ServerConfig := { searchSize := 2 }
    let l : Listing := .find Collection.projects none
    let hits := (l.query.listing score sources l.order).map (Hit.ranked l.order)
    HoldsHits (documentServer score).handle (fun t => t.documents = s.documents) "projects" l.query
        l.order (Hit.written l.order) hits ∧
      config.indexOf l.collection = .ok "projects" ∧ 0 < config.searchSize ∧
      hits.length / config.searchSize.toNat < 5 ∧
      ∃ log t, Ran (documentServer score).handle (l.program config 5) s log
        (.ok (hits.map Ranked.source)) t ∧ log.length = 2 := by
  intro score sources s config l hits
  have hids : ((l.query.hits score ((s.documents "projects").map Document.source)).map
      Hit.id).Nodup := by
    have hid : (l.query.hits score sources).map Hit.id = ["p1", "p2"] := rfl
    rw [show (s.documents "projects").map Document.source = sources from rfl, hid]
    decide
  have hserver : HoldsHits (documentServer score).handle (fun t => t.documents = s.documents)
      "projects" l.query l.order (Hit.written l.order) hits :=
    holdsHits (answersSearches_documentServer score) l.order hids
  have hlength : hits.length = 2 := by
    rw [List.length_map, Query.listing, List.length_mergeSort]
    rfl
  have hpages : hits.length / config.searchSize.toNat < 5 := by
    rw [hlength]
    decide
  have hindex : config.indexOf l.collection = .ok "projects" := rfl
  have hsize : 0 < config.searchSize := by decide
  refine ⟨hserver, hindex, hsize, hpages, ?_⟩
  obtain ⟨log, t, -, hran, hcount, -⟩ := listing_asks_for_pages l hserver hindex hsize hpages rfl
  exact ⟨log, t, hran, by simpa [hlength, config] using hcount⟩

end Pages

section Groups

variable {σ : Type} {server : SearchServer σ} {ready : σ → Prop} {config : ServerConfig}
  {docs : List Fields} {meets : Query → Fields → Bool}

/-- A stage asks for the ids of its candidates in groups no larger than a page, and for no more groups than
that takes. It keeps the candidates whose documents meet the query, as often and in the order in which
they are given, and so it would if it asked for all of them at once. -/
theorem narrow_asks_by_groups (hserver : AnswersIds server.handle ready config.projectIndex docs meets)
    (hsize : 0 < config.searchSize) (stage : MatchStage) (pages : Nat) {candidates : List Fields}
    (hids : ∀ c ∈ candidates, ∃ id, c.lookup "id" = some (.text id)) {s : σ} (hs : ready s) :
    (∃ parts : List (List String), ∃ log t, ready t ∧
      Ran server.handle (program config pages (.narrow stage (some (candidates.map .object)))) s log
        (.ok (kept docs meets stage candidates)) t ∧
      AllAnswered (parts.map (idsRequest config stage.predicate)) log ∧
      parts.flatten = candidates.map Fields.idText ∧
      (∀ part ∈ parts, part.length ≤ config.searchSize.toNat) ∧
      log.length = candidates.length ⌈/⌉ config.searchSize.toNat) ∧
    (candidates ≠ [] → ∃ log t,
      Ran server.handle (program { config with searchSize := candidates.length } pages
        (.narrow stage (some (candidates.map .object)))) s log
        (.ok (kept docs meets stage candidates)) t ∧
      AllAnswered [idsRequest config stage.predicate (candidates.map Fields.idText)] log) := by
  refine ⟨?_, fun hne => ?_⟩
  · obtain ⟨log, t, ht, hran, hlog⟩ := ran_narrow hserver hsize stage pages hids hs
    refine ⟨_, log, t, ht, hran, hlog, flatten_groups _ _, fun part hpart => ?_, ?_⟩
    · have hlength := length_le_of_mem_groups hpart
      omega
    · have hgroup : config.searchSize.toNat - 1 + 1 = config.searchSize.toNat := by omega
      rw [← hlog.length_eq, List.length_map, length_groups, List.length_map, hgroup]
  · have hwhole : 0 < ({ config with searchSize := candidates.length } : ServerConfig).searchSize :=
      Int.natCast_pos.2 (List.length_pos_iff.2 hne)
    have hsame : AnswersIds server.handle ready
        ({ config with searchSize := candidates.length } : ServerConfig).projectIndex docs meets :=
      hserver
    have hgroup : groups ((candidates.length : Int).toNat - 1) (candidates.map Fields.idText) =
        [candidates.map Fields.idText] := by
      refine groups_of_length_le (by simpa using hne) ?_
      rw [List.length_map]
      omega
    obtain ⟨log, t, -, hran, hlog⟩ := ran_narrow hsame hwhole stage pages hids hs
    rw [hgroup] at hlog
    exact ⟨log, t, hran, hlog⟩

/-- Candidates that are given twice or have no document, in groups of two. -/
theorem narrow_asks_for_two_groups :
    let score : Scoring := fun _ _ => none
    let docs : List Fields := [[("id", .text "p1"), ("owner", .text "U1")],
      [("id", .text "p2"), ("owner", .text "U2")]]
    let s : Indices := [("projects", docs.map fun d => ⟨d.idText, d⟩)]
    let config : ServerConfig := { searchSize := 2 }
    let stage : MatchStage := ⟨"owner", .eq "owner" (.text "U1")⟩
    let candidate (id : String) : Fields := [("id", .text id)]
    let candidates := [candidate "p1", candidate "p9", candidate "p1"]
    let meets : Query → Fields → Bool := fun q d => q.holds score (.object d)
    AnswersIds (documentServer score).handle (fun t => t.documents = s.documents)
        config.projectIndex docs meets ∧
      0 < config.searchSize ∧ (∀ c ∈ candidates, ∃ id, c.lookup "id" = some (.text id)) ∧
      ∃ log t, log.length = 2 ∧ Ran (documentServer score).handle
        (program config 1 (.narrow stage (some (candidates.map .object)))) s log
        (.ok [.object (candidate "p1"), .object (candidate "p1")]) t := by
  intro score docs s config stage candidate candidates meets
  have hidentified : Identified docs := by
    refine ⟨?_, by decide⟩
    intro d hd
    simp only [docs, List.mem_cons, List.not_mem_nil, or_false] at hd
    rcases hd with rfl | rfl
    · exact ⟨"p1", rfl⟩
    · exact ⟨"p2", rfl⟩
  have hserver : AnswersIds (documentServer score).handle (fun t => t.documents = s.documents)
      config.projectIndex docs meets :=
    answersIds (answersSearches_documentServer score) (s := s) hidentified
  have hids : ∀ c ∈ candidates, ∃ id, c.lookup "id" = some (.text id) := by
    intro c hc
    simp only [candidates, List.mem_cons, List.not_mem_nil, or_false] at hc
    rcases hc with rfl | rfl | rfl <;> exact ⟨_, rfl⟩
  have hsize : 0 < config.searchSize := by decide
  obtain ⟨⟨parts, log, t, -, hran, -, -, -, hcount⟩, -⟩ :=
    narrow_asks_by_groups hserver hsize stage 1 hids rfl
  have htwo : candidates.length ⌈/⌉ config.searchSize.toNat = 2 := by
    simp [candidates, config, Nat.ceilDiv_eq_add_pred_div]
  exact ⟨hserver, hsize, hids, log, t, hcount.trans htwo, hran⟩

end Groups

end ServerStore

end FreelanceBoard
