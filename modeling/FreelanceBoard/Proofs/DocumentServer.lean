import FreelanceBoard.Proofs.DocumentStore
import Mathlib.Algebra.GroupWithZero.Nat
import Mathlib.Algebra.Order.BigOperators.Group.List
import Mathlib.Algebra.Order.Group.Nat

/-! A search server that holds its documents in lists and answers as it is relied on to. -/
namespace FreelanceBoard

/-- The documents of each index by its name; an index that is not there has none. -/
abbrev Indices := List (String × List Document)

namespace Indices

def documents (s : Indices) (index : String) : List Document :=
  ((Keyed.find? Prod.fst index s).map Prod.snd).getD []

def withDocuments (s : Indices) (index : String) (docs : List Document) : Indices :=
  Keyed.put Prod.fst (index, docs) s

/-- One more than the documents of all indices together. -/
def pages (s : Indices) : Nat := (s.map fun entry => entry.2.length).sum + 1

theorem documents_withDocuments (s : Indices) (index : String) (docs : List Document) :
    (s.withDocuments index docs).documents = Function.update s.documents index docs := by
  funext other
  by_cases h : other = index
  · rw [h, Function.update_self, documents, withDocuments]
    have hfind : Keyed.find? Prod.fst (index, docs).1 (Keyed.put Prod.fst (index, docs) s) =
        some (index, docs) := Keyed.find?_put_self _ s
    rw [hfind]
    rfl
  · rw [Function.update_of_ne h, documents, documents, withDocuments]
    have hne : (index, docs).1 ≠ other := fun e => h e.symm
    rw [Keyed.find?_put_of_ne hne]

theorem length_documents_lt_pages (s : Indices) (index : String) :
    (s.documents index).length < s.pages := by
  rw [documents, pages]
  cases h : Keyed.find? Prod.fst index s with
  | none => exact Nat.succ_pos _
  | some entry =>
    have hmem : entry.2.length ∈ s.map fun entry => entry.2.length :=
      List.mem_map_of_mem (Keyed.mem_of_find? h)
    exact Nat.lt_succ_of_le (List.single_le_sum (fun _ _ => Nat.zero_le _) _ hmem)

end Indices

namespace DocumentServer

/-- The id that a place ends in. -/
def placeId : Value → Option String
  | .list [.text id] => some id
  | .list [_, .text id] => some id
  | _ => none

/-- The hits after a place, or all. -/
def onward (after : Option Value) (hits : List Hit) : List Hit :=
  match after with
  | none => hits
  | some place => (hits.dropWhile fun h => decide (some h.id ≠ placeId place)).tail

def item (order : Option SortOrder) (h : Hit) : Value :=
  .object (("_source", .object h.source) ::
    match order with
    | some o => [("sort", h.sortValue o)]
    | none => [])

def reply (order : Option SortOrder) (hits : List Hit) : Value :=
  .object [("hits", .object [("hits", .list (hits.map (item order)))])]

/-- The hits on a page. -/
def page (score : Scoring) (sources : List Fields) (q : Query) (size : Int) (after : Option Value) :
    Option SortOrder → List Hit
  | some order => (onward after (q.listing score sources order)).take size.toNat
  | none => (q.hits score sources).take size.toNat

/-- An answer to what is asked of the document of an id. -/
def onDocument (s : Indices) (index id : String) (answer : Document → Value × Indices) :
    Except ClientFailure Value × Indices :=
  match Keyed.find? Document.id id (s.documents index) with
  | some d => (.ok (answer d).1, (answer d).2)
  | none => (.error .notFound, s)

/-- Only documents are asked for and changed. -/
def outcome (score : Scoring) : Request → Indices → Except ClientFailure Value × Indices
  | .search index q size order after, s =>
    (.ok (reply order (page score ((s.documents index).map Document.source) q size after order)), s)
  | .get index (.text id), s =>
    onDocument s index id fun d => (.object [("_source", .object d.source)], s)
  | .put index (.text id) source, s =>
    (.ok (.object []),
      s.withDocuments index (Keyed.put Document.id ⟨id, source⟩ (s.documents index)))
  | .update index (.text id) changes, s => onDocument s index id fun d =>
    (.object [], s.withDocuments index (Keyed.put Document.id (d.merging changes) (s.documents index)))
  | .delete index (.text id), s => onDocument s index id fun _ =>
    (.object [], s.withDocuments index (Keyed.erase Document.id id (s.documents index)))
  | _, s => (.error .badRequest, s)

def handle (score : Scoring) : Handler Server Failure Indices
  | .request r, s => (.ok (outcome score r s).1, (outcome score r s).2)
  | .pause _, s => (.ok (), s)
  | .report _, s => (.ok (), s)

theorem placeId_sortValue (order : SortOrder) (h : Hit) : placeId (h.sortValue order) = some h.id := by
  cases order <;> rfl

theorem onward_of_follows {order : SortOrder} {hits rest : List Hit} {after : Option Value}
    (hids : (hits.map Hit.id).Nodup) (h : Follows order hits after rest) : onward after hits = rest := by
  cases after with
  | none => exact h.symm
  | some place =>
    obtain ⟨earlier, last, rfl, rfl⟩ := h
    have hearlier : ∀ e ∈ earlier, decide (some e.id ≠ some last.id) = true := by
      intro e he
      rw [List.map_append, List.nodup_append] at hids
      have hne := hids.2.2 e.id (List.mem_map_of_mem he) last.id (by simp)
      simpa using hne
    rw [onward, placeId_sortValue, List.dropWhile_append_of_pos hearlier]
    simp

theorem lists_reply (order : Option SortOrder) (hits : List Hit) :
    Lists order hits (reply order hits) := by
  refine ⟨_, _, rfl, rfl, ?_⟩
  rw [List.forall₂_map_left_iff, List.forall₂_same]
  intro hit _
  refine ⟨rfl, ?_⟩
  rintro o rfl
  rfl

end DocumentServer

/-- The server that holds documents in lists. -/
def documentServer (score : Scoring) : SearchServer Indices :=
  ⟨DocumentServer.handle score, Indices.pages⟩

theorem answersSearches_documentServer (score : Scoring) :
    AnswersSearches (documentServer score) Indices.documents score where
  ordered s index q size order after rest _ hids hrest := by
    have hsorted : ((q.listing score ((s.documents index).map Document.source) order).map
        Hit.id).Nodup :=
      (((List.mergeSort_perm _ _).map Hit.id).nodup_iff).2 hids
    have hpage := DocumentServer.onward_of_follows hsorted hrest
    refine ⟨_, s, rfl, rfl, ?_⟩
    rw [DocumentServer.page, hpage]
    exact DocumentServer.lists_reply _ _
  unordered s index q size _ :=
    ⟨_, s, _, rfl, rfl, List.Perm.refl _, DocumentServer.lists_reply _ _⟩
  bounded := Indices.length_documents_lt_pages

theorem keepsDocuments_documentServer (score : Scoring) :
    KeepsDocuments (documentServer score) Indices.documents score where
  toAnswersSearches := answersSearches_documentServer score
  got s index id d hd := by
    refine ⟨.object [("_source", .object d.source)], s, ?_, rfl, rfl⟩
    simp only [documentServer, DocumentServer.handle, DocumentServer.outcome,
      DocumentServer.onDocument, hd]
  stored s index id source := by
    refine ⟨.object [],
      s.withDocuments index (Keyed.put Document.id ⟨id, source⟩ (s.documents index)), rfl,
      fun other => ?_⟩
    rw [Indices.documents_withDocuments]
  updated s index id changes d hd := by
    refine ⟨.object [],
      s.withDocuments index (Keyed.put Document.id (d.merging changes) (s.documents index)), ?_,
      fun other => ?_⟩
    · simp only [documentServer, DocumentServer.handle, DocumentServer.outcome,
        DocumentServer.onDocument, hd]
    · rw [Indices.documents_withDocuments]
  deleted s index id d hd := by
    refine ⟨.object [], s.withDocuments index (Keyed.erase Document.id id (s.documents index)), ?_,
      fun other => ?_⟩
    · simp only [documentServer, DocumentServer.handle, DocumentServer.outcome,
        DocumentServer.onDocument, hd]
    · rw [Indices.documents_withDocuments]
  missing s index id r hr hnone := by
    refine ⟨s, ?_, rfl⟩
    cases hr with
    | _ => simp only [documentServer, DocumentServer.handle, DocumentServer.outcome,
        DocumentServer.onDocument, hnone]

end FreelanceBoard
