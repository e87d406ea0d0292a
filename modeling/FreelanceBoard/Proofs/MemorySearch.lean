import FreelanceBoard.Proofs.Sorting
import FreelanceBoard.Proofs.Values
import FreelanceBoard.Search
import FreelanceBoard.Store.Memory

/-! Search plans on a store in memory: a search lists the projects that answer it, the best first,
and match stages leave of the candidates those that all their predicates admit. -/
namespace FreelanceBoard

namespace Memory

def relevanceOf (stage : SearchStage) : Value → Nat
  | .object record => relevance stage record
  | _ => 0

/-- Records by falling relevance, equally relevant ones in the order they had. -/
def byRelevance (stage : SearchStage) (records : List Value) : List Value :=
  records.mergeSort fun a b => decide (relevanceOf stage b ≤ relevanceOf stage a)

theorem filter_byRelevance (stage : SearchStage) (keep : Value → Bool) (records : List Value) :
    (byRelevance stage records).filter keep = byRelevance stage (records.filter keep) := by
  apply Sorting.filter_mergeSort
  · intro a b c hab hbc
    simp only [decide_eq_true_eq] at hab hbc ⊢
    exact le_trans hbc hab
  · intro a b
    simp only [Bool.or_eq_true, decide_eq_true_eq]
    exact le_total _ _

def rankedEntries (stage : SearchStage) (es : Entries) : Entries :=
  (es.filter fun e => 0 < relevance stage e.record).mergeSort
    fun a b => decide (relevance stage b.record ≤ relevance stage a.record)

theorem ranked_eq_records (stage : SearchStage) (es : Entries) :
    ranked stage es = (rankedEntries stage es).records := by
  have hscored : (es.map fun e => (relevance stage e.record, e.record)).filter (fun s => 0 < s.1) =
      (es.filter fun e => 0 < relevance stage e.record).map
        fun e => (relevance stage e.record, e.record) := by
    rw [List.filter_map]
    rfl
  rw [ranked, hscored, ← List.map_mergeSort
    (r := fun a b : Entry => decide (relevance stage b.record ≤ relevance stage a.record))
    (f := fun e : Entry => (relevance stage e.record, e.record)) (fun _ _ _ _ => rfl), List.map_map]
  rfl

theorem ranked_eq (stage : SearchStage) (es : Entries) :
    ranked stage es =
      byRelevance stage (es.records.filter fun r => decide (0 < relevanceOf stage r)) := by
  have hfilter : es.records.filter (fun r => decide (0 < relevanceOf stage r)) =
      (es.filter fun e => 0 < relevance stage e.record).map fun e => Value.object e.record := by
    rw [Entries.records, List.filter_map]
    rfl
  rw [ranked_eq_records, rankedEntries, hfilter, byRelevance, Entries.records, List.map_mergeSort
    (r := fun a b : Entry => decide (relevance stage b.record ≤ relevance stage a.record))
    (s := fun a b : Value => decide (relevanceOf stage b ≤ relevanceOf stage a))
    (f := fun e : Entry => Value.object e.record) (fun _ _ _ _ => rfl)]

end Memory

namespace Predicate

theorem fault_of_containsTexts {texts : List String} {v : Value} {f : Fault}
    (h : containsTexts texts v = .error f) : f = .wrongKind := by
  have hitems : ∀ items, holdsAll texts items = .error f → f = .wrongKind := by
    intro items hi
    rw [holdsAll] at hi
    split at hi <;> cases hi
    rfl
  cases v with
  | list items => exact hitems items h
  | tuple items => exact hitems items h
  | set items => exact hitems items h
  | _ => cases h

mutual

/-- A predicate fails in one way only, on a collection that cannot be searched. -/
theorem fault_of_admits : (p : Predicate) → {r : Value} → {f : Fault} → p.admits r = .error f →
    f = .wrongKind
  | .eq path w, r, f, h => by cases h
  | .ne path w, r, f, h => by cases h
  | .among path ws, r, f, h => by cases h
  | .range path lower upper, r, f, h => by cases h
  | .containsAll path texts, r, f, h => fault_of_containsTexts h
  | .allOf parts, r, f, h => fault_of_admitsAll parts h
  | .anyOf parts, r, f, h => fault_of_admitsAny parts h
termination_by structural p => p

theorem fault_of_admitsAll : (ps : List Predicate) → {r : Value} → {f : Fault} →
    admitsAll ps r = .error f → f = .wrongKind
  | [], r, f, h => by cases h
  | p :: ps, r, f, h => by
    rw [admitsAll] at h
    cases hp : p.admits r with
    | error g =>
      rw [hp] at h
      cases h
      exact fault_of_admits p hp
    | ok b =>
      rw [hp] at h
      cases b with
      | true => exact fault_of_admitsAll ps h
      | false => cases h
termination_by structural ps => ps

theorem fault_of_admitsAny : (ps : List Predicate) → {r : Value} → {f : Fault} →
    admitsAny ps r = .error f → f = .wrongKind
  | [], r, f, h => by cases h
  | p :: ps, r, f, h => by
    rw [admitsAny] at h
    cases hp : p.admits r with
    | error g =>
      rw [hp] at h
      cases h
      exact fault_of_admits p hp
    | ok b =>
      rw [hp] at h
      cases b with
      | true => cases h
      | false => exact fault_of_admitsAny ps h
termination_by structural ps => ps

end

end Predicate

namespace Plan

/-- Match stages give what one pass over the candidates with all their predicates gives. -/
theorem run_matches (stages : List MatchStage) (candidates : List Value) (m : Memory) :
    (runStages (stages.map .keep) (some candidates)).run Memory.handle m =
      ((Fault.lift (Value.keepIf
        (Predicate.admitsAll (stages.map MatchStage.predicate)) candidates)).map some, m) := by
  induction stages generalizing candidates with
  | nil =>
    have hall : Value.keepIf (Predicate.admitsAll []) candidates =
        .ok (candidates.filter fun _ => true) := Value.keepIf_eq_filter fun r _ => rfl
    rw [List.map_nil, List.map_nil, hall, List.filter_true]
    rfl
  | cons stage stages ih =>
    have hpass : (Value.keepIf stage.predicate.admits candidates).bind
        (Value.keepIf (Predicate.admitsAll (stages.map MatchStage.predicate))) =
          Value.keepIf (Predicate.admitsAll ((stage :: stages).map MatchStage.predicate))
            candidates :=
      Value.keepIf_bind_keepIf (fun _ => by rw [List.map_cons]; rfl)
        (fun r f h => Predicate.fault_of_admitsAll _ h) candidates
    rw [← hpass, List.map_cons, runStages, Store.narrow, Program.bind_eq, Program.call_bind,
      Program.run_call]
    simp only [Memory.handle, Option.getD_some]
    cases Value.keepIf stage.predicate.admits candidates with
    | error f => rfl
    | ok kept => exact ih kept

/-- A plan of match stages alone narrows all projects, in their order. -/
theorem run_runStages_none {stages : List MatchStage} (hne : stages ≠ []) (m : Memory) :
    (runStages (stages.map .keep) none).run Memory.handle m =
      (runStages (stages.map .keep) (some (m.contents Collection.projects))).run
        Memory.handle m := by
  cases stages with
  | nil => exact absurd rfl hne
  | cons stage stages =>
    simp only [List.map_cons, runStages, Store.narrow, Program.bind_eq, Program.call_bind,
      Program.run_call, Memory.handle, Option.getD_none, Option.getD_some]
    cases Value.keepIf stage.predicate.admits (m.contents Collection.projects) <;> rfl

end Plan

end FreelanceBoard
