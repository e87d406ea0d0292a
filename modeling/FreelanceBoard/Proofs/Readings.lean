import FreelanceBoard.Proofs.Documents

/-! What a reading decides and where it reports. A reading judges a condition if it succeeds exactly
where the condition holds; a part that is read under a key is reported under that key, and a key that
the schema does not have under its own name. -/
namespace FreelanceBoard

/-- Some issue starts at a place: it was found there or further in. -/
def Reported (issues : List Issue) (place : List String) : Prop :=
  ∃ issue ∈ issues, place <+: issue.place

namespace Checked

variable {α β : Type}

@[simp] theorem issues_map (f : α → β) (c : Checked α) : (c.map f).issues = c.issues := by
  cases c <;> rfl

@[simp] theorem issues_apply (f : Checked (α → β)) (c : Checked α) :
    (f.apply c).issues = f.issues ++ c.issues := by
  cases f <;> cases c <;> simp [apply, issues]

@[simp] theorem issues_under (key : String) (c : Checked α) :
    (c.under key).issues = c.issues.map (Issue.under key) := by
  cases c <;> rfl

theorem seqLeft_eq (c : Checked α) (d : Checked β) :
    c <* d = (c.map (Function.const β)).apply d := rfl

def ReportsAt (c : Checked α) (place : List String) : Prop := Reported c.issues place

theorem reportsAt_map {f : α → β} {c : Checked α} {place : List String} :
    (c.map f).ReportsAt place ↔ c.ReportsAt place := by
  simp [ReportsAt, Reported]

theorem reportsAt_apply {f : Checked (α → β)} {c : Checked α} {place : List String} :
    (f.apply c).ReportsAt place ↔ f.ReportsAt place ∨ c.ReportsAt place := by
  simp [ReportsAt, Reported, or_and_right, exists_or]

theorem not_reportsAt_valid {a : α} {place : List String} : ¬ (valid a).ReportsAt place := by
  simp [ReportsAt, Reported, issues]

theorem reportsAt_under {key k : String} {c : Checked α} {rest : List String} :
    (c.under key).ReportsAt (k :: rest) ↔ k = key ∧ c.ReportsAt rest := by
  simp only [ReportsAt, Reported, issues_under, List.mem_map, exists_exists_and_eq_and, Issue.under_place,
    List.cons_prefix_cons]
  exact ⟨fun ⟨i, hi, hk, hrest⟩ => ⟨hk, i, hi, hrest⟩, fun ⟨hk, i, hi, hrest⟩ => ⟨i, hi, hk, hrest⟩⟩

/-- A reading that succeeds where `P` holds, and else has something to report. -/
def Judges (c : Checked α) (P : Prop) : Prop :=
  (∃ a, c = .valid a) ∧ P ∨ (∃ issue issues, c = .invalid (issue :: issues)) ∧ ¬ P

namespace Judges

variable {c : Checked α} {P Q : Prop}

theorem of_valid {a : α} (h : P) : (valid a).Judges P := .inl ⟨⟨a, rfl⟩, h⟩

theorem of_issue {cause : Cause} (h : ¬ P) : (issue cause : Checked α).Judges P :=
  .inr ⟨⟨_, _, rfl⟩, h⟩

theorem congr (h : c.Judges P) (hPQ : P ↔ Q) : c.Judges Q := by
  rcases h with ⟨hc, hP⟩ | ⟨hc, hP⟩
  · exact .inl ⟨hc, hPQ.1 hP⟩
  · exact .inr ⟨hc, fun hQ => hP (hPQ.2 hQ)⟩

theorem map (h : c.Judges P) (f : α → β) : (c.map f).Judges P := by
  rcases h with ⟨⟨a, rfl⟩, hP⟩ | ⟨⟨issue, issues, rfl⟩, hP⟩
  · exact .inl ⟨⟨_, rfl⟩, hP⟩
  · exact .inr ⟨⟨_, _, rfl⟩, hP⟩

theorem under (h : c.Judges P) (key : String) : (c.under key).Judges P := by
  rcases h with ⟨⟨a, rfl⟩, hP⟩ | ⟨⟨issue, issues, rfl⟩, hP⟩
  · exact .inl ⟨⟨_, rfl⟩, hP⟩
  · exact .inr ⟨⟨_, _, rfl⟩, hP⟩

/-- Of two readings side by side both have to succeed. -/
theorem apply {f : Checked (α → β)} (hf : f.Judges P) (hc : c.Judges Q) :
    (f.apply c).Judges (P ∧ Q) := by
  rcases hf with ⟨⟨g, rfl⟩, hP⟩ | ⟨⟨issue, issues, rfl⟩, hP⟩ <;>
    rcases hc with ⟨⟨a, rfl⟩, hQ⟩ | ⟨⟨other, others, rfl⟩, hQ⟩
  · exact .inl ⟨⟨_, rfl⟩, hP, hQ⟩
  · exact .inr ⟨⟨_, _, rfl⟩, fun h => hQ h.2⟩
  · exact .inr ⟨⟨_, _, rfl⟩, fun h => hP h.1⟩
  · exact .inr ⟨⟨_, _, rfl⟩, fun h => hP h.1⟩

theorem valid_iff (h : c.Judges P) : (∃ a, c = .valid a) ↔ P := by
  rcases h with ⟨hc, hP⟩ | ⟨⟨issue, issues, rfl⟩, hP⟩
  · simp [hc, hP]
  · simp [hP]

theorem reportsAt_nil_iff (h : c.Judges P) : c.ReportsAt [] ↔ ¬ P := by
  rcases h with ⟨⟨a, rfl⟩, hP⟩ | ⟨⟨issue, issues, rfl⟩, hP⟩
  · simp [not_reportsAt_valid, hP]
  · simp [ReportsAt, Reported, Checked.issues, hP]

end Judges

end Checked

namespace Fields

open Checked

variable {α : Type} {fields : Fields} {key : String} {read : Reader α}

theorem lookup_eq_none_iff_notMem : fields.lookup key = none ↔ key ∉ fields.keys := by
  constructor
  · intro h hmem
    rw [lookup_eq_get_of_mem hmem] at h
    cases h
  · exact lookup_eq_none_of_notMem

theorem judges_optional {default : α} {P : Value → Prop} (h : ∀ v, (read v).Judges (P v)) :
    (fields.optional key default read).Judges (∀ v ∈ fields.lookup key, P v) := by
  rw [optional]
  cases fields.lookup key with
  | none => exact .of_valid (by simp)
  | some v => exact ((h v).under key).congr (by simp)

/-- What may as well be null is read from what stands under its key, if anything does. -/
theorem judges_optional_null {read : Reader (Option α)} {P : Value → Prop}
    (h : ∀ v, (read v).Judges (P v)) (hnull : P .null) :
    (fields.optional key none read).Judges (P (fields.get key)) := by
  refine (judges_optional h).congr ?_
  rw [get]
  cases fields.lookup key <;> simp [hnull]

theorem reportsAt_optional {default : α} {k : String} {rest : List String} :
    (fields.optional key default read).ReportsAt (k :: rest) ↔
      k = key ∧ ∃ v ∈ fields.lookup key, (read v).ReportsAt rest := by
  rw [optional]
  cases fields.lookup key with
  | none => simp [not_reportsAt_valid]
  | some v => simp [reportsAt_under]

/-- A fault of a field is reported under the key of the field. -/
theorem reportsAt_of_judges {default : α} {P : Prop} {k : String}
    (h : (fields.optional key default read).Judges P) :
    (fields.optional key default read).ReportsAt [k] ↔ k = key ∧ ¬ P := by
  rw [← h.reportsAt_nil_iff, Fields.reportsAt_optional, optional]
  cases fields.lookup key with
  | none => simp [not_reportsAt_valid]
  | some v => simp [ReportsAt, Reported]

/-- What was read from a key that may be missing or null. -/
theorem optional_nullable_eq_valid {o : Option α}
    (h : fields.optional key none (Reader.nullable read) = .valid o) :
    (o = none ∧ fields.get key = .null) ∨ ∃ a, o = some a ∧ read (fields.get key) = .valid a := by
  rw [optional] at h
  rw [get]
  cases hlookup : fields.lookup key with
  | none =>
    rw [hlookup] at h
    exact .inl ⟨(valid.inj h).symm, rfl⟩
  | some v =>
    simp only [hlookup, under_eq_valid_iff] at h
    cases v with
    | null => exact .inl ⟨(valid.inj h).symm, rfl⟩
    | _ =>
      obtain ⟨a, ha, rfl⟩ := map_eq_valid_iff.1 h
      exact .inr ⟨a, rfl, ha⟩

theorem mem_unknown_iff {keys : List String} {k : String} :
    (∃ v, (k, v) ∈ fields.filter fun (k, _) => !keys.contains k) ↔ k ∈ fields.keys ∧ k ∉ keys := by
  simp [Fields.keys]

theorem judges_onlyKeys (keys : List String) :
    (fields.onlyKeys keys).Judges (∀ k ∈ fields.keys, k ∈ keys) := by
  have hunknown := @mem_unknown_iff fields keys
  rw [onlyKeys]
  cases hfilter : fields.filter fun (k, _) => !keys.contains k with
  | nil =>
    refine .of_valid fun k hk => ?_
    by_contra hnew
    obtain ⟨v, hv⟩ := hunknown.2 ⟨hk, hnew⟩
    rw [hfilter] at hv
    cases hv
  | cons entry rest =>
    obtain ⟨hk, hnew⟩ := hunknown.1 ⟨entry.2, hfilter ▸ List.mem_cons_self⟩
    exact .inr ⟨⟨_, _, rfl⟩, fun h => hnew (h _ hk)⟩

theorem issues_onlyKeys {keys : List String} : (fields.onlyKeys keys).issues =
    (fields.filter fun (k, _) => !keys.contains k).map fun (k, _) => ⟨.unknownKey, [k]⟩ := by
  rw [onlyKeys]
  split
  · rename_i h
    rw [h]
    rfl
  · rfl

theorem reportsAt_onlyKeys {keys : List String} {k : String} {rest : List String} :
    (fields.onlyKeys keys).ReportsAt (k :: rest) ↔ k ∈ fields.keys ∧ k ∉ keys ∧ rest = [] := by
  rw [← and_assoc, ← mem_unknown_iff, ReportsAt, Reported, issues_onlyKeys]
  simp only [List.mem_map, exists_exists_and_eq_and, List.cons_prefix_cons, List.prefix_nil]
  constructor
  · rintro ⟨⟨k', v⟩, hmem, rfl, hrest⟩
    exact ⟨⟨v, hmem⟩, hrest⟩
  · rintro ⟨⟨v, hmem⟩, hrest⟩
    exact ⟨(k, v), hmem, rfl, hrest⟩

theorem placed_optional {default : α} {issue : Issue}
    (h : issue ∈ (fields.optional key default read).issues) : issue.place ≠ [] := by
  rw [optional] at h
  cases hlookup : fields.lookup key with
  | none => simp [hlookup, issues] at h
  | some v =>
    simp only [hlookup, issues_under, List.mem_map] at h
    obtain ⟨inner, -, rfl⟩ := h
    simp

theorem placed_onlyKeys {keys : List String} {issue : Issue}
    (h : issue ∈ (fields.onlyKeys keys).issues) : issue.place ≠ [] := by
  rw [issues_onlyKeys, List.mem_map] at h
  obtain ⟨entry, -, rfl⟩ := h
  simp

end Fields

/-- What may stand under each key of an object, or be missing there. -/
abbrev Rules := List (String × (Option Value → Prop))

namespace Rules

variable {rules : Rules} {fields : Fields} {key : String} {rule : Option Value → Prop}

def keys (rules : Rules) : List String := rules.map Prod.fst

/-- Under a key without a rule nothing may stand. -/
def Allows (rules : Rules) (key : String) (v : Option Value) : Prop :=
  match rules.lookup key with
  | some rule => rule v
  | none => v = none

def Admits (rules : Rules) (fields : Fields) : Prop := ∀ key, rules.Allows key (fields.lookup key)

theorem lookup_eq_some_iff (h : rules.keys.Nodup) :
    rules.lookup key = some rule ↔ (key, rule) ∈ rules := by
  induction rules with
  | nil => simp
  | cons entry rest ih =>
    obtain ⟨k, first⟩ := entry
    obtain ⟨hnew, hrest⟩ : k ∉ keys rest ∧ (keys rest).Nodup := by simpa [keys] using h
    by_cases hk : key = k
    · have hnone : (key, rule) ∉ rest := fun hmem => hnew (hk ▸ List.mem_map_of_mem hmem)
      simp [hk ▸ hnone, hk, eq_comm]
    · have hbeq : (key == k) = false := by simpa using hk
      simp [List.lookup_cons, hbeq, hk, ih hrest]

/-- A key is at fault by its rule, or because it has none. -/
theorem not_allows_iff (h : rules.keys.Nodup) : ¬ rules.Allows key (fields.lookup key) ↔
    (∃ entry ∈ rules, key = entry.1 ∧ ¬ entry.2 (fields.lookup entry.1)) ∨
      key ∈ fields.keys ∧ key ∉ rules.keys := by
  rw [Allows]
  cases hrule : rules.lookup key with
  | some rule =>
    have hmem := (lookup_eq_some_iff h).1 hrule
    have hknown : key ∈ rules.keys := List.mem_map_of_mem hmem
    simp only [hknown, not_true, and_false, or_false]
    constructor
    · intro hfault
      exact ⟨_, hmem, rfl, hfault⟩
    · rintro ⟨⟨k, other⟩, hother, rfl, hfault⟩
      have hsame := (lookup_eq_some_iff h).2 hother
      rw [hrule, Option.some.injEq] at hsame
      exact hsame ▸ hfault
  | none =>
    have hunknown : key ∉ rules.keys := by
      intro hmem
      obtain ⟨⟨k, rule⟩, hentry, rfl⟩ := List.mem_map.1 hmem
      rw [(lookup_eq_some_iff h).2 hentry] at hrule
      cases hrule
    simp only [Fields.lookup_eq_none_iff_notMem, not_not, hunknown, not_false_eq_true, and_true]
    refine ⟨.inr, fun hfault => ?_⟩
    rcases hfault with ⟨entry, hentry, rfl, -⟩ | hkey
    · exact absurd (List.mem_map_of_mem hentry) hunknown
    · exact hkey

theorem admits_iff (h : rules.keys.Nodup) : rules.Admits fields ↔
    (∀ entry ∈ rules, entry.2 (fields.lookup entry.1)) ∧ ∀ key ∈ fields.keys, key ∈ rules.keys := by
  constructor
  · intro hadmits
    refine ⟨fun entry hentry => ?_, fun key hkey => ?_⟩
    · by_contra hfault
      exact (not_allows_iff h).2 (.inl ⟨entry, hentry, rfl, hfault⟩) (hadmits _)
    · by_contra hfault
      exact (not_allows_iff h).2 (.inr ⟨hkey, hfault⟩) (hadmits _)
  · rintro ⟨hrules, hkeys⟩ key
    by_contra hfault
    rcases (not_allows_iff h).1 hfault with ⟨entry, hentry, -, hbroken⟩ | ⟨hkey, hnew⟩
    · exact hbroken (hrules entry hentry)
    · exact hnew (hkeys key hkey)

end Rules

/-- The items of a collection. -/
def Value.items? : Value → Option (List Value)
  | .list items => some items
  | .tuple items => some items
  | .set items => some items
  | _ => none

namespace Reader

open Checked

variable {α : Type} {read : Reader α}

theorem judges_strictText (v : Value) : (strictText v).Judges (∃ s, v = .text s) := by
  cases v with
  | text s => exact .of_valid ⟨s, rfl⟩
  | _ => exact .of_issue (by simp)

theorem judges_strictBool (v : Value) : (strictBool v).Judges (∃ b, v = .bool b) := by
  cases v with
  | bool b => exact .of_valid ⟨b, rfl⟩
  | _ => exact .of_issue (by simp)

theorem judges_nullable {P : Value → Prop} (h : ∀ v, (read v).Judges (P v)) (v : Value) :
    (nullable read v).Judges (v = .null ∨ P v) := by
  cases v with
  | null => exact .of_valid (.inl rfl)
  | _ => exact ((h _).map some).congr (by simp)

theorem judges_object {schema : String} {read : Fields → Checked α} {P : Fields → Prop}
    (h : ∀ fields, (read fields).Judges (P fields)) (v : Value) :
    (object schema read v).Judges (∃ fields, v = .object fields ∧ P fields) := by
  cases v with
  | object fields => exact (h fields).congr (by simp)
  | _ => exact .of_issue (by simp)

theorem judges_itemsFrom {P : Value → Prop} (h : ∀ v, (read v).Judges (P v)) (index : Nat)
    (vs : List Value) : (itemsFrom read index vs).Judges (∀ v ∈ vs, P v) := by
  induction vs generalizing index with
  | nil => exact .of_valid (by simp)
  | cons v vs ih =>
    exact ((((h v).under _).map _).apply (ih (index + 1))).congr (by simp)

theorem judges_listOf {P : Value → Prop} (h : ∀ v, (read v).Judges (P v)) (v : Value) :
    (listOf read v).Judges (∃ items, v.items? = some items ∧ ∀ w ∈ items, P w) := by
  cases v with
  | list items => exact (judges_itemsFrom h 0 items).congr (by simp [Value.items?])
  | tuple items => exact (judges_itemsFrom h 0 items).congr (by simp [Value.items?])
  | set items => exact (judges_itemsFrom h 0 items).congr (by simp [Value.items?])
  | _ => exact .of_issue (by simp [Value.items?])

theorem toString_injective : Function.Injective (toString : Nat → String) := by
  intro i j h
  have hdigits : Nat.toDigits 10 i = Nat.toDigits 10 j := String.ofList_injective h
  calc i = Nat.ofDigitChars 10 (Nat.toDigits 10 i) 0 :=
        (Nat.ofDigitChars_toDigits (by decide) (Nat.le_refl 10)).symm
    _ = Nat.ofDigitChars 10 (Nat.toDigits 10 j) 0 := by rw [hdigits]
    _ = j := Nat.ofDigitChars_toDigits (by decide) (Nat.le_refl 10)

/-- The items are reported under their numbers, each that is at fault. -/
theorem reportsAt_itemsFrom {P : Value → Prop} (h : ∀ v, (read v).Judges (P v)) {vs : List Value}
    {index : Nat} {key : String} : (itemsFrom read index vs).ReportsAt [key] ↔
      ∃ i v, vs[i]? = some v ∧ key = toString (index + i) ∧ ¬ P v := by
  induction vs generalizing index with
  | nil => simp [itemsFrom, not_reportsAt_valid]
  | cons v vs ih =>
    rw [itemsFrom, map_eq, seq_eq, reportsAt_apply, reportsAt_map, reportsAt_under,
      (h v).reportsAt_nil_iff, ih]
    constructor
    · rintro (⟨hkey, hfault⟩ | ⟨i, w, hw, hkey, hfault⟩)
      · exact ⟨0, v, rfl, hkey, hfault⟩
      · exact ⟨i + 1, w, hw, by rw [hkey]; congr 1; omega, hfault⟩
    · rintro ⟨i, w, hw, hkey, hfault⟩
      cases i with
      | zero =>
        cases hw
        exact .inl ⟨hkey, hfault⟩
      | succ i => exact .inr ⟨i, w, hw, by rw [hkey]; congr 1; omega, hfault⟩

theorem reportsAt_listOf {P : Value → Prop} (h : ∀ v, (read v).Judges (P v)) {v w : Value}
    {items : List Value} {i : Nat} (hv : v.items? = some items) (hw : items[i]? = some w) :
    (listOf read v).ReportsAt [toString i] ↔ ¬ P w := by
  have hread : listOf read v = itemsFrom read 0 items := by
    cases v <;> cases hv <;> rfl
  rw [hread, reportsAt_itemsFrom h]
  constructor
  · rintro ⟨j, u, hu, hkey, hfault⟩
    have hij : i = j := by simpa using toString_injective hkey
    rw [← hij, hw, Option.some.injEq] at hu
    exact hu ▸ hfault
  · intro hfault
    exact ⟨i, w, hw, by rw [Nat.zero_add], hfault⟩

end Reader

end FreelanceBoard
