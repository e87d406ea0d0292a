import FreelanceBoard.Value.Path

/-! The value at a dotted path is the one to which the keys between its dots lead, each looked up in
the object before it. A path that goes on behind a dot starts from the value at its first part. -/
namespace FreelanceBoard

namespace Path

theorem ofChars_eq_splitOn (cs : List Char) : ofChars cs = cs.splitOn '.' := by
  induction cs with
  | nil => rfl
  | cons c cs ih =>
    rw [List.splitOn_cons_eq_if_modifyHead, ← ih, ofChars]
    by_cases h : c = '.'
    · simp [h]
    · cases hkeys : ofChars cs with
      | nil => exact absurd hkeys (ofChars_ne_nil cs)
      | cons key keys => simp [h]

theorem ofString_ne_nil (path : String) : ofString path ≠ [] := ofChars_ne_nil path.toList

/-- A dot parts the keys on its left from those on its right. -/
theorem ofString_append (p q : String) :
    ofString (p ++ "." ++ q) = ofString p ++ ofString q := by
  have hchars : (p ++ "." ++ q).toList = p.toList ++ '.' :: q.toList := by simp
  simp only [ofString, hchars, ofChars_eq_splitOn, List.splitOn_append_cons_self]

/-- Keys without dots are the keys of the path that joins them. -/
theorem ofString_intercalate {keys : List String} (hne : keys ≠ [])
    (hdot : ∀ key ∈ keys, '.' ∉ key.toList) :
    ofString (".".intercalate keys) = keys.map String.toList := by
  have hchars : (".".intercalate keys).toList = ['.'].intercalate (keys.map String.toList) := by
    simp
  rw [ofString, hchars, ofChars_eq_splitOn]
  refine List.splitOn_intercalate '.' ?_ (by simpa using hne)
  simpa using hdot

end Path

namespace Value

@[simp] theorem follow_null (path : Path) : null.follow path = .null := by
  induction path with
  | nil => rfl
  | cons key rest ih => rw [follow_cons, child_null, ih]

theorem child_of_not_isObject {v : Value} (h : v.isObject = false) (key : String) :
    v.child key = .null := by
  cases v with
  | object fields => cases h
  | _ => rfl

/-- Every path has a key, and only objects have values under keys. -/
theorem resolve_of_not_isObject {v : Value} (h : v.isObject = false) (path : String) :
    v.resolve path = .null := by
  obtain ⟨key, rest, hkeys⟩ := List.exists_cons_of_ne_nil (Path.ofString_ne_nil path)
  rw [resolve, hkeys, follow_cons, child_of_not_isObject h, follow_null]

theorem resolve_append (v : Value) (p q : String) :
    v.resolve (p ++ "." ++ q) = (v.resolve p).resolve q := by
  rw [resolve, Path.ofString_append, follow_append]
  rfl

/-- Keys that lead from a value to another one, each looked up in the object that those before it
lead to. -/
inductive Leads : Value → List String → Value → Prop
  | here (v : Value) : Leads v [] v
  | step {fields : Fields} {key : String} {keys : List String} {v w : Value} :
      fields.lookup key = some v → Leads v keys w → Leads (.object fields) (key :: keys) w

/-- Keys of which one is looked up in what is no object, or in an object that does not have it. -/
inductive Stops : Value → List String → Prop
  | noObject {v : Value} (key : String) (keys : List String) :
      v.isObject = false → Stops v (key :: keys)
  | noKey {fields : Fields} {key : String} (keys : List String) :
      fields.lookup key = none → Stops (.object fields) (key :: keys)
  | step {fields : Fields} {key : String} {keys : List String} {v : Value} :
      fields.lookup key = some v → Stops v keys → Stops (.object fields) (key :: keys)

section

variable {fields : Fields} {key : String} {keys : List String} {v w : Value}

theorem child_of_lookup (h : fields.lookup key = some v) : (object fields).child key = v :=
  Fields.get_of_lookup h

theorem child_of_lookup_eq_none (h : fields.lookup key = none) :
    (object fields).child key = .null :=
  Fields.get_of_lookup_eq_none h

theorem follow_keys_cons (v : Value) (key : String) (keys : List String) :
    v.follow ((key :: keys).map String.toList) = (v.child key).follow (keys.map String.toList) := by
  rw [List.map_cons, follow_cons, String.ofList_toList]

theorem Leads.follow_eq (h : Leads v keys w) : v.follow (keys.map String.toList) = w := by
  induction h with
  | here v => rfl
  | step hkey _ ih => rw [follow_keys_cons, child_of_lookup hkey, ih]

theorem Stops.follow_eq (h : Stops v keys) : v.follow (keys.map String.toList) = .null := by
  induction h with
  | noObject key keys hv => rw [follow_keys_cons, child_of_not_isObject hv, follow_null]
  | noKey keys hkey => rw [follow_keys_cons, child_of_lookup_eq_none hkey, follow_null]
  | step hkey _ ih => rw [follow_keys_cons, child_of_lookup hkey, ih]

/-- Keys lead somewhere unless they stop on the way. -/
theorem leads_or_stops (v : Value) (keys : List String) : (∃ w, Leads v keys w) ∨ Stops v keys := by
  induction keys generalizing v with
  | nil => exact .inl ⟨v, .here v⟩
  | cons key keys ih =>
    cases v with
    | object fields =>
      cases hkey : fields.lookup key with
      | none => exact .inr (.noKey keys hkey)
      | some v =>
        obtain ⟨w, hw⟩ | hstops := ih v
        · exact .inl ⟨w, .step hkey hw⟩
        · exact .inr (.step hkey hstops)
    | _ => exact .inr (.noObject key keys rfl)

end

/-- Behind a dot a path goes on from the value at what stands before it, if that is an object. At
keys that are joined by dots is the value to which they lead, and nothing if they stop on the way. -/
theorem resolve_by_keys (r : Value) :
    (∀ p q : String, r.resolve (p ++ "." ++ q) =
        if (r.resolve p).isObject then (r.resolve p).resolve q else .null) ∧
      ∀ keys : List String, keys ≠ [] → (∀ key ∈ keys, '.' ∉ key.toList) →
        ((∃ v, Leads r keys v) ∨ Stops r keys) ∧
          (∀ v, Leads r keys v → r.resolve (".".intercalate keys) = v) ∧
          (Stops r keys → r.resolve (".".intercalate keys) = .null) := by
  refine ⟨fun p q => ?_, fun keys hne hdot => ?_⟩
  · rw [resolve_append]
    cases hobject : (r.resolve p).isObject with
    | true => rfl
    | false => exact resolve_of_not_isObject hobject q
  · have hkeys : r.resolve (".".intercalate keys) = r.follow (keys.map String.toList) := by
      rw [resolve, Path.ofString_intercalate hne hdot]
    rw [hkeys]
    exact ⟨leads_or_stops r keys, fun v => Leads.follow_eq, Stops.follow_eq⟩

/-- An empty key between two dots, and a key whose value is nothing. -/
theorem resolve_by_keys_nested :
    let r : Value := .object
      [("budget", .object [("", .object [("amount", .int 50)])]), ("scope", .null)]
    let keys := ["budget", "", "amount"]
    let others := ["scope", "size"]
    (keys ≠ [] ∧ (∀ key ∈ keys, '.' ∉ key.toList) ∧ Leads r keys (.int 50) ∧
        r.resolve (".".intercalate keys) = .int 50) ∧
      others ≠ [] ∧ (∀ key ∈ others, '.' ∉ key.toList) ∧ Stops r others ∧
        r.resolve (".".intercalate others) = .null := by
  intro r keys others
  have hkeys : keys ≠ [] ∧ ∀ key ∈ keys, '.' ∉ key.toList := by decide
  have hothers : others ≠ [] ∧ ∀ key ∈ others, '.' ∉ key.toList := by decide
  have hleads : Leads r keys (.int 50) := .step rfl (.step rfl (.step rfl (.here _)))
  have hstops : Stops r others := .step rfl (.noObject "size" [] rfl)
  obtain ⟨-, hvalue, -⟩ := (resolve_by_keys r).2 keys hkeys.1 hkeys.2
  obtain ⟨-, -, hnothing⟩ := (resolve_by_keys r).2 others hothers.1 hothers.2
  exact ⟨⟨hkeys.1, hkeys.2, hleads, hvalue _ hleads⟩, hothers.1, hothers.2, hstops, hnothing hstops⟩

end Value

end FreelanceBoard
