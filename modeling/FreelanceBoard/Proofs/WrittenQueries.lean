import FreelanceBoard.Proofs.QueryMeaning

/-! What the server makes of a query as it is written for it, and that a predicate admits the records
that its written query finds. -/
namespace FreelanceBoard

namespace WrittenQuery

/-- Whether a point lies on that side of a bound which the name of the bound tells. -/
def meets (p : Extended) (name : String) (bound : Extended) : Bool :=
  if name = "gt" then bound.lt p
  else if name = "gte" then bound.le p
  else if name = "lt" then p.lt bound
  else if name = "lte" then p.le bound
  else false

/-- Whether a value is a number that meets every bound listed. -/
def inBounds (bounds : Fields) (v : Value) : Bool :=
  v.isNumber && bounds.all fun (name, bound) =>
    match v.point?, bound.point? with
    | some p, some b => meets p name b
    | _, _ => false

/-- A clause on the value at a path: one term it has to have, or one of several, or bounds. -/
def findsAt (kind path : String) (body r : Value) : Bool :=
  if kind = "term" then Query.hasTerm body (r.resolve path)
  else match body with
    | .list terms => decide (kind = "terms") && terms.any fun w => Query.hasTerm w (r.resolve path)
    | .object bounds => decide (kind = "range") && inBounds bounds (r.resolve path)
    | _ => false

mutual

/-- Whether a query finds a record. What is no query finds none. -/
def finds : Value → Value → Bool
  | .object [(kind, .object clause)], r =>
    if kind = "bool" then findsClause clause r
    else match clause with
      | [(path, body)] => findsAt kind path body r
      | _ => false
  | _, _ => false
termination_by structural q => q

/-- Whether a record is found by all queries of a clause, by none, or by one at least. -/
def findsClause : List (String × Value) → Value → Bool
  | [(occurrence, .list queries)], r =>
    if occurrence = "filter" then findsAll queries r
    else decide (occurrence = "must_not") && !findsAny queries r
  | [("should", .list queries), ("minimum_should_match", .int 1)], r => findsAny queries r
  | _, _ => false
termination_by structural clause => clause

def findsAll : List Value → Value → Bool
  | [], _ => true
  | q :: qs, r => finds q r && findsAll qs r
termination_by structural qs => qs

def findsAny : List Value → Value → Bool
  | [], _ => false
  | q :: qs, r => finds q r || findsAny qs r
termination_by structural qs => qs

end

/-- A limit is written as one bound, whose name tells the side and whether it is strict. -/
theorem all_limitFields (upper : Bool) (l : Option Limit) (p : Option Extended) :
    ((Query.limitFields (if upper then "lt" else "gt") (if upper then "lte" else "gte") l).all
      fun (name, bound) => match p, bound.point? with
        | some p, some b => meets p name b
        | _, _ => false) = Limit.admitsOption upper l p := by
  cases l with
  | none => rfl
  | some l =>
    obtain ⟨strict, bound⟩ := l
    cases p with
    | none => simp [Query.limitFields, Limit.admitsOption]
    | some p =>
      cases h : bound.point? with
      | none => simp [Query.limitFields, Limit.admitsOption, Limit.admits, Value.point?, h]
      | some b =>
        cases upper <;> cases strict <;>
          simp [Query.limitFields, Limit.admitsOption, Limit.admits, Value.point?, meets, h]

/-- The bounds that are written are the limits of the range. -/
theorem inBounds_limitFields (lower upper : Option Limit) (v : Value) :
    inBounds (Query.limitFields "gt" "gte" lower ++ Query.limitFields "lt" "lte" upper) v =
      Predicate.inRange lower upper v := by
  have hlower := all_limitFields false lower v.point?
  have hupper := all_limitFields true upper v.point?
  simp only [Bool.false_eq_true, if_false, if_true] at hlower hupper
  rw [inBounds, List.all_append, hlower, hupper, Predicate.inRange, Bool.and_assoc]

@[simp] theorem finds_term (path : String) (w r : Value) :
    finds (Query.term path w).toValue r = Query.hasTerm w (r.resolve path) := by
  simp [Query.toValue, Query.single, finds, findsAt]

@[simp] theorem finds_terms (path : String) (ws : List Value) (r : Value) :
    finds (Query.terms path ws).toValue r = ws.any fun w => Query.hasTerm w (r.resolve path) := by
  simp [Query.toValue, Query.single, finds, findsAt]

@[simp] theorem finds_range (path : String) (lower upper : Option Limit) (r : Value) :
    finds (Query.range path lower upper).toValue r = Predicate.inRange lower upper (r.resolve path) := by
  simp [Query.toValue, Query.single, finds, findsAt, inBounds_limitFields]

@[simp] theorem finds_filter (parts : List Query) (r : Value) :
    finds (Query.filter parts).toValue r = findsAll (Query.toValues parts) r := by
  simp [Query.toValue, Query.single, finds, findsClause]

@[simp] theorem finds_mustNot (parts : List Query) (r : Value) :
    finds (Query.mustNot parts).toValue r = !findsAny (Query.toValues parts) r := by
  simp [Query.toValue, Query.single, finds, findsClause]

@[simp] theorem finds_should (parts : List Query) (r : Value) :
    finds (Query.should parts).toValue r = findsAny (Query.toValues parts) r := by
  simp [Query.toValue, Query.single, finds, findsClause]

theorem findsAll_terms (score : Scoring) (path : String) (texts : List String) (r : Value) :
    findsAll (Query.toValues (texts.map fun t => .term path (.text t))) r =
      Query.holdsAll score (texts.map fun t => .term path (.text t)) r := by
  induction texts with
  | nil => rfl
  | cons t texts ih => simp [Query.toValues, findsAll, Query.holdsAll, Query.holds, ih]

mutual

/-- The written query of a predicate finds the hits of the query, however texts are scored. -/
theorem finds_toQuery (score : Scoring) (p : Predicate) (r : Value) :
    finds p.toQuery.toValue r = p.toQuery.holds score r := by
  match p with
  | .eq path w => simp [Predicate.toQuery, Query.holds]
  | .ne path w => simp [Predicate.toQuery, Query.holds, Query.toValues, findsAny, Query.holdsAny]
  | .among path ws => simp [Predicate.toQuery, Query.holds]
  | .range path lower upper => simp [Predicate.toQuery, Query.holds, Predicate.inRange_eq_within]
  | .containsAll path texts =>
    simp [Predicate.toQuery, Query.holds, findsAll_terms score path texts r]
  | .allOf parts => simp [Predicate.toQuery, Query.holds, findsAll_toQueries score parts r]
  | .anyOf parts => simp [Predicate.toQuery, Query.holds, findsAny_toQueries score parts r]
termination_by structural p

theorem findsAll_toQueries (score : Scoring) (ps : List Predicate) (r : Value) :
    findsAll (Query.toValues (Predicate.toQueries ps)) r =
      Query.holdsAll score (Predicate.toQueries ps) r := by
  match ps with
  | [] => rfl
  | p :: ps =>
    simp [Predicate.toQueries, Query.toValues, findsAll, Query.holdsAll, finds_toQuery score p r,
      findsAll_toQueries score ps r]
termination_by structural ps

theorem findsAny_toQueries (score : Scoring) (ps : List Predicate) (r : Value) :
    findsAny (Query.toValues (Predicate.toQueries ps)) r =
      Query.holdsAny score (Predicate.toQueries ps) r := by
  match ps with
  | [] => rfl
  | p :: ps =>
    simp [Predicate.toQueries, Query.toValues, findsAny, Query.holdsAny, finds_toQuery score p r,
      findsAny_toQueries score ps r]
termination_by structural ps

end

end WrittenQuery

/-- A predicate admits a record whose fields are of the kinds that it compares exactly if the query that
is written for it finds the record. -/
theorem admits_eq_finds_written {p : Predicate} {r : Value} (h : p.Suits r) :
    p.admits r = .ok (WrittenQuery.finds p.toQuery.toValue r) := by
  -- no predicate asks how well a text answers, so any scoring will do
  have hadmits := p.admits_eq_holds (fun _ _ => none) h
  rw [hadmits, WrittenQuery.finds_toQuery]

/-- Nobody owns the record, its budget has no type, and its amount is where a range ends. -/
theorem admits_eq_finds_written_nested :
    let p : Predicate := .allOf [.ne "owner" (.text "U1"),
      .anyOf [.allOf [.eq "budget.type" (.text "fixed rate"), .range "budget.amount" none none],
        .allOf [.containsAll "skills" ["css", "js"],
          .range "budget.amount" (some ⟨true, .finite 100⟩) (some ⟨false, .finite 500⟩)]],
      .among "title" [.text "Shop", .text "Site"]]
    let r : Value := .object [("title", .text "Site"), ("skills", .list [.text "js", .text "css"]),
      ("budget", .object [("type", .null), ("amount", .int 500)])]
    (p.Suits r ∧ p.admits r = .ok true) ∧ p.admits r = .ok (WrittenQuery.finds p.toQuery.toValue r) := by
  intro p r
  have howner : r.resolve "owner" = .null := rfl
  have htype : r.resolve "budget.type" = .null := rfl
  have hskills : r.resolve "skills" = .list [.text "js", .text "css"] := rfl
  have htitle : r.resolve "title" = .text "Site" := rfl
  have hsuits : p.Suits r := by
    simp [p, Predicate.Suits, Predicate.SuitAll, Value.TextOrNull, Value.TextsOrNull, howner, htype,
      hskills, htitle]
  exact ⟨⟨hsuits, rfl⟩, admits_eq_finds_written hsuits⟩

end FreelanceBoard
