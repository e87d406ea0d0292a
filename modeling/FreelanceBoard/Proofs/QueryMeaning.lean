import FreelanceBoard.Proofs.Admission
import FreelanceBoard.Server.Query

/-! What a query says of a document, and that the query of a predicate says the same as the
predicate of every document whose fields are of the kinds that the predicate compares. -/
namespace FreelanceBoard

/-- How a server scores documents against a text search; a document without a score is no hit. -/
abbrev Scoring := SearchStage → Value → Option Rat

namespace Query

/-- Whether a value has a term: it is the term, or a list with it. Nothing has no terms. -/
def hasTerm (term : Value) : Value → Bool
  | .null => false
  | .list items => term.memberOf items
  | v => v.same term

/-- Whether a limit is met by what marks a point above it, or below it if `upper`. -/
def meets (upper : Bool) (p : Option Extended) (l : Limit) : Bool :=
  match l.bound.point?, p with
  | some b, some p => (if upper then p.lt b else b.lt p) || (!l.strict && decide (p = b))
  | _, _ => false

/-- Whether a value is a number that meets every limit there is. -/
def within (lower upper : Option Limit) (v : Value) : Bool :=
  v.isNumber && lower.all (meets false v.point?) && upper.all (meets true v.point?)

mutual

/-- Whether a document is among the hits of a query. -/
def holds (score : Scoring) : Query → Value → Bool
  | .matchAll, _ => true
  | .term path w, r => hasTerm w (r.resolve path)
  | .terms path ws, r => ws.any fun w => hasTerm w (r.resolve path)
  | .range path lower upper, r => within lower upper (r.resolve path)
  | .filter parts, r => holdsAll score parts r
  | .mustNot parts, r => !holdsAny score parts r
  | .should parts, r => holdsAny score parts r
  | .fullText field query edits, r => (score ⟨field, query, edits⟩ r).isSome
termination_by structural q => q

def holdsAll (score : Scoring) : List Query → Value → Bool
  | [], _ => true
  | q :: qs, r => holds score q r && holdsAll score qs r
termination_by structural qs => qs

def holdsAny (score : Scoring) : List Query → Value → Bool
  | [], _ => false
  | q :: qs, r => holds score q r || holdsAny score qs r
termination_by structural qs => qs

end

end Query

namespace Value

/-- Text, or nothing. -/
def TextOrNull (v : Value) : Prop := v = .null ∨ ∃ s, v = .text s

/-- A list of texts, or nothing. -/
def TextsOrNull (v : Value) : Prop :=
  v = .null ∨ ∃ items, v = .list items ∧ ∀ w ∈ items, ∃ s, w = .text s

end Value

namespace Predicate

mutual

/-- Whether the fields of a record are of the kinds that a predicate compares: texts or nothing with
texts, lists of texts or nothing with one text or more; any value may be compared with limits. -/
def Suits : Predicate → Value → Prop
  | .eq path w, r => (∃ s, w = .text s) ∧ (r.resolve path).TextOrNull
  | .ne path w, r => (∃ s, w = .text s) ∧ (r.resolve path).TextOrNull
  | .among path ws, r => (∀ w ∈ ws, ∃ s, w = .text s) ∧ (r.resolve path).TextOrNull
  | .range _ _ _, _ => True
  | .containsAll path texts, r => texts ≠ [] ∧ (r.resolve path).TextsOrNull
  | .allOf parts, r => SuitAll parts r
  | .anyOf parts, r => SuitAll parts r
termination_by structural p => p

def SuitAll : List Predicate → Value → Prop
  | [], _ => True
  | p :: ps, r => Suits p r ∧ SuitAll ps r
termination_by structural ps => ps

end

theorem suits_all {ps : List Predicate} {r : Value} (h : SuitAll ps r) : (all ps).Suits r := by
  match ps with
  | [] => trivial
  | [p] => exact h.1
  | p :: q :: rest => exact h

theorem suits_any {ps : List Predicate} {r : Value} (h : SuitAll ps r) : (any ps).Suits r := by
  match ps with
  | [] => trivial
  | [p] => exact h.1
  | p :: q :: rest => exact h

theorem suitAll_of_forall {ps : List Predicate} {r : Value} (h : ∀ p ∈ ps, p.Suits r) :
    SuitAll ps r := by
  induction ps with
  | nil => trivial
  | cons p ps ih => exact ⟨h p (by simp), ih fun q hq => h q (by simp [hq])⟩

theorem same_eq_hasTerm {v : Value} (h : v.TextOrNull) (s : String) :
    v.same (.text s) = Query.hasTerm (.text s) v := by
  obtain rfl | ⟨t, rfl⟩ := h <;> rfl

theorem memberOf_eq_any_hasTerm {v : Value} (h : v.TextOrNull) {ws : List Value}
    (hws : ∀ w ∈ ws, ∃ s, w = .text s) :
    v.memberOf ws = ws.any fun w => Query.hasTerm w v := by
  induction ws with
  | nil => rfl
  | cons w ws ih =>
    obtain ⟨s, rfl⟩ := hws w (by simp)
    have hw : (Value.text s).same v = Query.hasTerm (.text s) v := by
      rw [← same_eq_hasTerm h, Bool.eq_iff_iff, Value.text_same_iff, Value.same_text_iff]
    have htail := ih fun w hw => hws w (by simp [hw])
    rw [Value.memberOf] at htail ⊢
    rw [List.any_cons, List.any_cons, hw, htail]

theorem admitsOption_eq_all (upper : Bool) (l : Option Limit) (p : Option Extended) :
    Limit.admitsOption upper l p = l.all (Query.meets upper p) := by
  cases l with
  | none => rfl
  | some l =>
    simp only [Limit.admitsOption, Option.all_some, Query.meets]
    cases p with
    | none => cases l.bound.point? <;> rfl
    | some p =>
      simp only [Limit.admits]
      cases l.bound.point? with
      | none => rfl
      | some b => cases upper <;> cases l.strict <;> simp [Extended.le, eq_comm]

theorem inRange_eq_within (lower upper : Option Limit) (v : Value) :
    inRange lower upper v = Query.within lower upper v := by
  rw [inRange, Query.within, admitsOption_eq_all, admitsOption_eq_all]

/-- To have all texts among the items of a list is to have each as a term. -/
theorem holdsAll_terms (score : Scoring) {path : String} {texts : List String} {r : Value}
    {items : List Value} (hitems : r.resolve path = .list items) :
    Query.holdsAll score (texts.map fun t => .term path (.text t)) r =
      texts.all fun t => (Value.text t).memberOf items := by
  induction texts with
  | nil => rfl
  | cons t texts ih =>
    rw [List.map_cons, Query.holdsAll, ih, Query.holds, hitems]
    rfl

theorem containsTexts_eq_holdsAll (score : Scoring) {path : String} {texts : List String}
    {r : Value} (hne : texts ≠ []) (hr : (r.resolve path).TextsOrNull) :
    containsTexts texts (r.resolve path) =
      .ok (Query.holdsAll score (texts.map fun t => .term path (.text t)) r) := by
  obtain hnull | ⟨items, hitems, hall⟩ := hr
  · cases texts with
    | nil => exact absurd rfl hne
    | cons t texts =>
      rw [List.map_cons, Query.holdsAll, Query.holds, hnull]
      rfl
  · rw [holdsAll_terms score hitems, hitems, containsTexts, Predicate.holdsAll,
      if_pos (Value.areKeys_of_texts hall)]

mutual

/-- The query of a predicate finds the documents that the predicate admits. -/
theorem admits_eq_holds (score : Scoring) : (p : Predicate) → {r : Value} → p.Suits r →
    p.admits r = .ok (p.toQuery.holds score r)
  | .eq path w, r, h => by
    obtain ⟨⟨s, rfl⟩, hr⟩ := h
    rw [admits, toQuery, Query.holds, same_eq_hasTerm hr]
  | .ne path w, r, h => by
    obtain ⟨⟨s, rfl⟩, hr⟩ := h
    rw [admits, toQuery, Query.holds, Query.holdsAny, Query.holdsAny, Query.holds, Bool.or_false,
      same_eq_hasTerm hr]
  | .among path ws, r, h => by
    obtain ⟨hws, hr⟩ := h
    rw [admits, toQuery, Query.holds, memberOf_eq_any_hasTerm hr hws]
  | .range path lower upper, r, _ => by
    rw [admits, toQuery, Query.holds, inRange_eq_within]
  | .containsAll path texts, r, h => by
    obtain ⟨hne, hr⟩ := h
    rw [admits, toQuery, Query.holds, containsTexts_eq_holdsAll score hne hr]
  | .allOf parts, r, h => by
    rw [admits, toQuery, Query.holds, admitsAll_eq_holdsAll score parts h]
  | .anyOf parts, r, h => by
    rw [admits, toQuery, Query.holds, admitsAny_eq_holdsAny score parts h]
termination_by structural p => p

theorem admitsAll_eq_holdsAll (score : Scoring) : (ps : List Predicate) → {r : Value} →
    SuitAll ps r → admitsAll ps r = .ok (Query.holdsAll score (toQueries ps) r)
  | [], r, _ => rfl
  | p :: ps, r, h => by
    have hp := admits_eq_holds score p h.1
    have hps := admitsAll_eq_holdsAll score ps h.2
    rw [admitsAll, toQueries, Query.holdsAll, hp, hps]
    cases p.toQuery.holds score r <;> rfl
termination_by structural ps => ps

theorem admitsAny_eq_holdsAny (score : Scoring) : (ps : List Predicate) → {r : Value} →
    SuitAll ps r → admitsAny ps r = .ok (Query.holdsAny score (toQueries ps) r)
  | [], r, _ => rfl
  | p :: ps, r, h => by
    have hp := admits_eq_holds score p h.1
    have hps := admitsAny_eq_holdsAny score ps h.2
    rw [admitsAny, toQueries, Query.holdsAny, hp, hps]
    cases p.toQuery.holds score r <;> rfl
termination_by structural ps => ps

end

end Predicate

end FreelanceBoard
