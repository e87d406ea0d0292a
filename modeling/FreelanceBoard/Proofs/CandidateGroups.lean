import FreelanceBoard.Proofs.SearchServer
import Mathlib.Algebra.Order.Floor.Div

/-! What a stage asks its server about candidates, and which of them it keeps. It asks for the ids by
groups, in order, and keeps those with an id that some group has brought back. -/
namespace FreelanceBoard

open Program Exchange

def ListsSources (sources : List Fields) (reply : Value) : Prop :=
  ∃ items, ServerStore.hitsOf reply = .ok (.list items) ∧
    List.Forall₂ (fun item source => item.item "_source" = .ok (.object source)) items sources

/-- A server holds some documents, and is asked for those of some ids. In any order, it lists as many as
it is asked for of those that the query of the predicate is met by. The states in which the server does so
are the ready ones. -/
structure AnswersIds {σ : Type} (handle : Handler Server Failure σ) (ready : σ → Prop)
    (index : String) (docs : List Fields) (meets : Query → Fields → Bool) : Prop where
  identified : Identified docs
  answered : ∀ (s : σ) (ids : List String) (predicate : Predicate) (size : Int), ready s →
    0 < size → ∃ reply t, ∃ found : List Fields,
      handle (.request (.search index (ServerStore.idsQuery (ids.map .text) predicate) size none none)) s =
        (.ok (.ok reply), t) ∧
      ready t ∧
      found.Perm (docs.filter fun d => decide (d.idText ∈ ids) && meets predicate.toQuery d) ∧
      ListsSources (found.take size.toNat) reply

namespace Identified

variable {sources : List Fields}

theorem length_filter_le (h : Identified sources) (ids : List String) (meets : Fields → Bool) :
    (sources.filter fun d => decide (d.idText ∈ ids) && meets d).length ≤ ids.length := by
  have hnodup : ((sources.filter fun d => decide (d.idText ∈ ids) && meets d).map
      Fields.idText).Nodup := h.distinct.sublist (List.filter_sublist.map _)
  have hsubset : (sources.filter fun d => decide (d.idText ∈ ids) && meets d).map Fields.idText ⊆
      ids := by
    intro id hid
    obtain ⟨d, hd, rfl⟩ := List.mem_map.1 hid
    have hasked := List.of_mem_filter hd
    rw [Bool.and_eq_true, decide_eq_true_eq] at hasked
    exact hasked.1
  simpa using (List.subperm_of_subset hnodup hsubset).length_le

end Identified

namespace ServerStore

theorem groups_map {α β : Type} (f : α → β) (size : Nat) (items : List α) :
    groups size (items.map f) = (groups size items).map (List.map f) := by
  fun_induction groups size items with
  | case1 => simp
  | case2 a rest ih =>
    rw [List.map_cons, groups_cons, List.map_cons, List.map_cons, List.map_take, ← ih,
      List.map_drop]

theorem length_groups {α : Type} (size : Nat) (items : List α) :
    (groups size items).length = items.length ⌈/⌉ (size + 1) := by
  fun_induction groups size items with
  | case1 => exact (zero_ceilDiv _).symm
  | case2 a rest ih =>
    rw [List.length_cons, ih, List.length_drop, List.length_cons, Nat.ceilDiv_eq_add_pred_div,
      Nat.ceilDiv_eq_add_pred_div]
    have hround : rest.length + 1 + (size + 1) - 1 = rest.length + (size + 1) := by omega
    rw [hround, Nat.add_div_right _ (Nat.succ_pos size), Nat.add_right_cancel_iff]
    rcases Nat.lt_or_ge rest.length size with hlt | hge
    · rw [Nat.div_eq_of_lt (by omega), Nat.div_eq_of_lt (by omega)]
    · congr 1
      omega

theorem groups_of_length_le {α : Type} {size : Nat} {items : List α} (hne : items ≠ [])
    (h : items.length ≤ size + 1) : groups size items = [items] := by
  cases items with
  | nil => exact absurd rfl hne
  | cons a rest =>
    have hrest : rest.length ≤ size := Nat.le_of_succ_le_succ h
    rw [groups_cons, List.take_of_length_le hrest, List.drop_eq_nil_of_le hrest, groups_nil]

def idsRequest (config : ServerConfig) (predicate : Predicate) (ids : List String) : Request :=
  .search config.projectIndex (idsQuery (ids.map .text) predicate) ids.length none none

theorem indexOf_projects (config : ServerConfig) :
    config.indexOf Collection.projects = .ok config.projectIndex := rfl

theorem chunks_of_pos {size : Int} (h : 0 < size) (ids : List Value) :
    chunks size ids = .ok (groups (size.toNat - 1) ids) := by
  rw [chunks, if_neg (by omega), if_neg (by omega)]

/-- Whether the document of a candidate's id is there and meets a query. -/
def isMet (docs : List Fields) (meets : Fields → Bool) (candidate : Fields) : Bool :=
  docs.any fun d => decide (d.idText = candidate.idText) && meets d

theorem isMet_iff {docs : List Fields} {meets : Fields → Bool} {candidate : Fields} :
    isMet docs meets candidate = true ↔
      ∃ d ∈ docs, d.idText = candidate.idText ∧ meets d = true := by
  simp [isMet]

/-- The candidates whose documents meet the query of a stage. -/
def kept (docs : List Fields) (meets : Query → Fields → Bool) (stage : MatchStage)
    (candidates : List Fields) : List Value :=
  (candidates.filter (isMet docs (meets stage.predicate.toQuery))).map .object

theorem hitIds_of_listed {found : List Fields} {items : List Value}
    (hnamed : ∀ d ∈ found, d.lookup "id" = some (.text d.idText))
    (h : List.Forall₂ (fun item source => item.item "_source" = .ok (.object source)) items found) :
    hitIds (.list items) = .ok (found.map fun d => .text d.idText) := by
  rw [hitIds, Value.elements]
  induction h with
  | nil => rfl
  | @cons item d items found hhead _ ih =>
    have hid : hitId item = .ok (.text d.idText) := by
      have hitem : (Value.object d).item "id" = .ok (.text d.idText) := by
        rw [Value.item, hnamed d List.mem_cons_self]
      rw [hitId, hhead]
      simp only [hitem]
      rfl
    have htail := ih fun e he => hnamed e (List.mem_cons_of_mem _ he)
    simp only [Value.collect, hid, List.map_cons]
    rw [show Value.collect hitId _ = _ from htail]

variable {σ : Type} {handle : Handler Server Failure σ} {ready : σ → Prop} {docs : List Fields}
  {meets : Query → Fields → Bool} {config : ServerConfig}

/-- Each group is asked for once, and brings back the ids in it of the documents that meet the query. -/
theorem ran_admittedIds (hserver : AnswersIds handle ready config.projectIndex docs meets)
    (predicate : Predicate) {parts : List (List String)} (hnil : [] ∉ parts) {s : σ}
    (hs : ready s) : ∃ log t, ∃ admitted : List String, ready t ∧
      Ran handle (admittedIds config predicate (parts.map (List.map .text))) s log
        (.ok (admitted.map .text)) t ∧
      AllAnswered (parts.map (idsRequest config predicate)) log ∧
      ∀ id : String, id ∈ admitted ↔ id ∈ parts.flatten ∧
        ∃ d ∈ docs, d.idText = id ∧ meets predicate.toQuery d = true := by
  induction parts generalizing s with
  | nil => exact ⟨[], s, [], hs, .done _ _ _, .nil, by simp⟩
  | cons ids parts ih =>
    have hpositive : 0 < (ids.length : Int) := by
      have hne : ids ≠ [] := fun h => hnil (by simp [h])
      have := List.length_pos_iff.2 hne
      omega
    obtain ⟨reply, t, found, hreply, ht, hperm, items, hitems, hall⟩ :=
      hserver.answered s ids predicate ids.length hs hpositive
    -- there are no more documents than ids, so the one page holds them all
    have hpage : found.take (ids.length : Int).toNat = found := by
      have hlength := hserver.identified.length_filter_le ids (meets predicate.toQuery)
      rw [← hperm.length_eq] at hlength
      exact List.take_of_length_le (by omega)
    rw [hpage] at hall
    have hnamed : ∀ d ∈ found, d.lookup "id" = some (.text d.idText) :=
      fun d hd => hserver.identified.lookup_id (List.mem_of_mem_filter (hperm.subset hd))
    have hfound : ∀ id : String, id ∈ found.map Fields.idText ↔ id ∈ ids ∧
        ∃ d ∈ docs, d.idText = id ∧ meets predicate.toQuery d = true := by
      intro id
      simp only [List.mem_map, hperm.mem_iff, List.mem_filter, Bool.and_eq_true,
        decide_eq_true_eq]
      constructor
      · rintro ⟨d, ⟨hd, hasked, hmeets⟩, rfl⟩
        exact ⟨hasked, d, hd, rfl, hmeets⟩
      · rintro ⟨hasked, d, hd, rfl, hmeets⟩
        exact ⟨d, ⟨hd, hasked, hmeets⟩, rfl⟩
    obtain ⟨log, u, others, hu, hran, hlog, hothers⟩ := ih (fun h => hnil (by simp [h])) ht
    have hsearch := ran_runSearch_answered (indexOf_projects config) hreply hitems
    rw [List.map_cons, admittedIds, Program.bind_eq, List.length_map]
    refine ⟨_ ++ log, u, found.map Fields.idText ++ others, hu, hsearch.bind ?_,
      .cons ⟨reply, rfl⟩ hlog, fun id => ?_⟩
    · have hrest := hran.map fun found' => found.map (fun d => Value.text d.idText) ++ found'
      simpa [Server.attempt, hitIds_of_listed hnamed hall, Fault.lift, Program.ofExcept,
        Except.map, Function.comp_def] using hrest
    · rw [List.mem_append, hfound, hothers, List.flatten_cons, List.mem_append, or_and_right]

/-- A stage asks for the ids of the candidates by groups, and keeps in order those whose documents meet
its query. -/
theorem ran_narrow (hserver : AnswersIds handle ready config.projectIndex docs meets)
    (hsize : 0 < config.searchSize) (stage : MatchStage) (pages : Nat) {candidates : List Fields}
    (hids : ∀ c ∈ candidates, ∃ id, c.lookup "id" = some (.text id)) {s : σ} (hs : ready s) :
    ∃ log t, ready t ∧
      Ran handle (narrow config pages stage (some (candidates.map .object))) s log
        (.ok (kept docs meets stage candidates)) t ∧
      AllAnswered ((groups (config.searchSize.toNat - 1) (candidates.map Fields.idText)).map
        (idsRequest config stage.predicate)) log := by
  cases hcandidates : candidates with
  | nil => exact ⟨[], s, hs, .done _ _ _, by simp [AllAnswered]⟩
  | cons first rest =>
    have hnarrow : narrow config pages stage (some (candidates.map .object)) =
        Program.bind (Server.attempt (Value.collect (fun c => c.item "id") (candidates.map .object)))
          fun ids => Program.bind (.ofExcept (chunks config.searchSize ids)) fun parts =>
            Program.bind (admittedIds config stage.predicate parts) fun admitted =>
              Server.attempt (Value.keepIf (isAmong admitted) (candidates.map .object)) := by
      rw [hcandidates]
      rfl
    rw [← hcandidates]
    have hitem : ∀ c ∈ candidates, (Value.object c).item "id" = .ok (.text c.idText) := by
      intro c hc
      obtain ⟨id, hid⟩ := hids c hc
      rw [Value.item, Fields.idText_of_lookup hid, hid]
    have hcollect : Value.collect (fun c => c.item "id") (candidates.map .object) =
        .ok ((candidates.map Fields.idText).map .text) := by
      rw [List.map_map]
      exact Value.collect_map hitem
    obtain ⟨log, t, admitted, ht, hran, hlog, hadmitted⟩ := ran_admittedIds hserver
      stage.predicate (nil_notMem_groups (config.searchSize.toNat - 1)
        (candidates.map Fields.idText)) hs
    have hamong : ∀ c ∈ candidates, isAmong (admitted.map .text) (.object c) =
        .ok (isMet docs (meets stage.predicate.toQuery) c) := by
      intro c hc
      have hmember : (Value.text c.idText).memberOf (admitted.map .text) =
          isMet docs (meets stage.predicate.toQuery) c := by
        rw [Bool.eq_iff_iff, Value.text_memberOf_iff, isMet_iff,
          List.mem_map_of_injective fun _ _ h => Value.text.inj h, hadmitted, flatten_groups]
        exact and_iff_right (List.mem_map_of_mem hc)
      rw [isAmong, hitem c hc]
      simp only [hmember]
      rfl
    have hkept := hran.bind (f := fun admitted =>
      Server.attempt (Value.keepIf (isAmong admitted) (candidates.map .object)))
      (by rw [Value.keepIf_map hamong]; exact .done _ _ _)
    rw [List.append_nil] at hkept
    refine ⟨log, t, ht, ?_, hlog⟩
    rw [hnarrow, hcollect]
    simpa [kept, Server.attempt, Fault.lift, Program.ofExcept, chunks_of_pos hsize, groups_map] using
      hkept

end ServerStore

end FreelanceBoard
