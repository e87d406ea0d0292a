import FreelanceBoard.Filter
import FreelanceBoard.Proofs.Readings

/-! Which values are filters. What may stand under each key of a filter and of a budget is written
down apart from the reading: a value is read exactly if it keeps to these rules, what was read is what
was given, and the issues of a refused object are found at its faults and nowhere else. -/
namespace FreelanceBoard

/-- The key of the budget of a pricing. -/
def Pricing.key : Pricing → String
  | .fixed => "fixed"
  | .hourly => "hourly"

namespace Value

def IsTextOrNull (v : Value) : Prop := v = .null ∨ ∃ s, v = .text s

def IsTextsOrNull (v : Value) : Prop :=
  v = .null ∨ ∃ items, v.items? = some items ∧ ∀ w ∈ items, ∃ s, w = .text s

/-- A bound is a number, no truth value, and finite. -/
def IsBoundOrNull (v : Value) : Prop :=
  v = .null ∨ (∃ n, v = .int n) ∨ ∃ x, v = .float x ∧ x.isFinite = true

end Value

def BudgetFilter.rules : Rules :=
  [("checked", fun v => ∀ w ∈ v, ∃ b, w = .bool b),
   ("currency", fun v => (v.getD .null).IsTextOrNull),
   ("min", fun v => (v.getD .null).IsBoundOrNull),
   ("max", fun v => (v.getD .null).IsBoundOrNull)]

def Value.IsBudgetOrNull (v : Value) : Prop :=
  v = .null ∨ ∃ fields, v = .object fields ∧ BudgetFilter.rules.Admits fields

def ProjectFilter.rules : Rules :=
  [("title", fun v => (v.getD .null).IsTextOrNull),
   ("skills", fun v => (v.getD .null).IsTextsOrNull),
   ("fixed", fun v => (v.getD .null).IsBudgetOrNull),
   ("hourly", fun v => (v.getD .null).IsBudgetOrNull)]

def Value.IsFilterOrNull (v : Value) : Prop :=
  v = .null ∨ ∃ fields, v = .object fields ∧ ProjectFilter.rules.Admits fields

/-- A budget as it was given; only a missing `checked` is filled in. -/
structure BudgetFilter.Keeps (b : BudgetFilter) (fields : Fields) : Prop where
  checked : (fields.lookup "checked").getD (.bool false) = .bool b.checked
  currency : fields.get "currency" = .ofOption .text b.currency
  min : fields.get "min" = .ofOption Number.toValue b.min
  max : fields.get "max" = .ofOption Number.toValue b.max

/-- A filter as it was given, the skills as a list. -/
structure ProjectFilter.Keeps (f : ProjectFilter) (fields : Fields) : Prop where
  title : fields.get "title" = .ofOption .text f.title
  skills : f.skills = none ∧ fields.get "skills" = .null ∨
    ∃ skills, f.skills = some skills ∧ (fields.get "skills").items? = some (skills.map .text)
  budgetFor : ∀ p : Pricing, f.budgetFor p = none ∧ fields.get p.key = .null ∨
    ∃ b budget, f.budgetFor p = some b ∧ fields.get p.key = .object budget ∧ b.Keeps budget

/-- The issues of a refused object: there is one at each fault, and each is at a fault. -/
structure ProjectFilter.Blames (fields : Fields) (issues : List Issue) : Prop where
  keys : ∀ key, Reported issues [key] ↔ ¬ rules.Allows key (fields.lookup key)
  items : ∀ items : List Value, fields.lookup "skills" = some (.list items) →
    ∀ (i : Nat) (v : Value), items[i]? = some v →
    (Reported issues ["skills", toString i] ↔ ¬ ∃ s, v = .text s)
  budgetKeys : ∀ (p : Pricing) budget, fields.lookup p.key = some (.object budget) → ∀ key,
    (Reported issues [p.key, key] ↔ ¬ BudgetFilter.rules.Allows key (budget.lookup key))
  onlyFaults : ∀ issue ∈ issues, ∃ key, [key] <+: issue.place ∧
    ¬ rules.Allows key (fields.lookup key)

open Checked

theorem Fields.judges_textOrNull {fields : Fields} (key : String) :
    (fields.optional key none (Reader.nullable Reader.strictText)).Judges (fields.get key).IsTextOrNull :=
  judges_optional_null (Reader.judges_nullable Reader.judges_strictText) (.inl rfl)

namespace BudgetFilter

variable {fields : Fields}

theorem rules_nodup : rules.keys.Nodup := by decide

theorem judges_readBound (v : Value) : (readBound v).Judges v.IsBoundOrNull := by
  cases v with
  | null => exact .of_valid (.inl rfl)
  | int n => exact .of_valid (.inr (.inl ⟨n, rfl⟩))
  | float x =>
    rw [readBound]
    cases hx : x.isFinite with
    | true => exact .of_valid (.inr (.inr ⟨x, rfl, hx⟩))
    | false => exact .of_issue (by simp [Value.IsBoundOrNull, hx])
  | bool b => exact .of_issue (by simp [Value.IsBoundOrNull])
  | _ => exact .inr ⟨⟨_, _, rfl⟩, by simp [Value.IsBoundOrNull]⟩

theorem judges_checked :
    (fields.optional "checked" false Reader.strictBool).Judges
      (∀ v ∈ fields.lookup "checked", ∃ b, v = .bool b) :=
  Fields.judges_optional Reader.judges_strictBool

theorem judges_bound (key : String) :
    (fields.optional key none readBound).Judges (fields.get key).IsBoundOrNull :=
  Fields.judges_optional_null judges_readBound (.inl rfl)

theorem judges_readFields (fields : Fields) : (readFields fields).Judges (rules.Admits fields) := by
  rw [Rules.admits_iff rules_nodup, readFields, seqLeft_eq]
  simp only [Checked.map_eq, Checked.seq_eq]
  refine Judges.congr ((((((judges_checked.map _).apply (Fields.judges_textOrNull "currency")).apply
    (judges_bound "min")).apply (judges_bound "max")).map _).apply (Fields.judges_onlyKeys keys)) ?_
  simp [rules, Fields.get, and_assoc, Rules.keys, keys]

theorem judges_read (v : Value) :
    (read v).Judges (∃ fields, v = .object fields ∧ rules.Admits fields) :=
  Reader.judges_object judges_readFields v

/-- A key is reported if what stands under it is not allowed there. -/
theorem reportsAt_readFields {key : String} :
    (readFields fields).ReportsAt [key] ↔ ¬ rules.Allows key (fields.lookup key) := by
  rw [Rules.not_allows_iff rules_nodup, readFields, seqLeft_eq]
  simp only [Checked.map_eq, Checked.seq_eq, reportsAt_apply, reportsAt_map,
    Fields.reportsAt_of_judges judges_checked,
    Fields.reportsAt_of_judges (Fields.judges_textOrNull "currency"),
    Fields.reportsAt_of_judges (judges_bound _), Fields.reportsAt_onlyKeys, and_true]
  simp [rules, Fields.get, or_assoc, Rules.keys, keys]

end BudgetFilter

namespace ProjectFilter

variable {fields : Fields}

theorem rules_nodup : rules.keys.Nodup := by decide

theorem judges_skills :
    (fields.optional "skills" none (Reader.nullable (Reader.listOf Reader.strictText))).Judges
      (fields.get "skills").IsTextsOrNull :=
  Fields.judges_optional_null (Reader.judges_nullable (Reader.judges_listOf Reader.judges_strictText))
    (.inl rfl)

theorem judges_budget (key : String) :
    (fields.optional key none (Reader.nullable BudgetFilter.read)).Judges
      (fields.get key).IsBudgetOrNull :=
  Fields.judges_optional_null (Reader.judges_nullable BudgetFilter.judges_read) (.inl rfl)

theorem judges_readFields (fields : Fields) : (readFields fields).Judges (rules.Admits fields) := by
  rw [Rules.admits_iff rules_nodup, readFields, seqLeft_eq]
  simp only [Checked.map_eq, Checked.seq_eq]
  refine Judges.congr (((((((Fields.judges_textOrNull "title").map _).apply judges_skills).apply
    (judges_budget "fixed")).apply (judges_budget "hourly")).map _).apply
    (Fields.judges_onlyKeys keys)) ?_
  simp [rules, Fields.get, and_assoc, Rules.keys, keys]

/-- A key is reported if what stands under it is not allowed there. -/
theorem reportsAt_readFields {key : String} :
    (readFields fields).ReportsAt [key] ↔ ¬ rules.Allows key (fields.lookup key) := by
  rw [Rules.not_allows_iff rules_nodup, readFields, seqLeft_eq]
  simp only [Checked.map_eq, Checked.seq_eq, reportsAt_apply, reportsAt_map,
    Fields.reportsAt_of_judges (Fields.judges_textOrNull "title"),
    Fields.reportsAt_of_judges judges_skills, Fields.reportsAt_of_judges (judges_budget _),
    Fields.reportsAt_onlyKeys, and_true]
  simp [rules, Fields.get, or_assoc, Rules.keys, keys]

/-- Inside the skills only the reading of the skills reports, item by item. -/
theorem reportsAt_readFields_skills {items : List Value} {i : Nat} {w : Value}
    (h : fields.lookup "skills" = some (.list items)) (hw : items[i]? = some w) :
    (readFields fields).ReportsAt ["skills", toString i] ↔ ¬ ∃ s, w = .text s := by
  rw [← Reader.reportsAt_listOf Reader.judges_strictText (v := .list items) rfl hw, readFields, seqLeft_eq]
  simp [reportsAt_apply, reportsAt_map, Fields.reportsAt_optional, Fields.reportsAt_onlyKeys, h,
    Reader.nullable]

/-- Inside a budget only the reading of that budget reports, key by key. -/
theorem reportsAt_readFields_budget {p : Pricing} {key : String} {budget : Fields}
    (h : fields.lookup p.key = some (.object budget)) :
    (readFields fields).ReportsAt [p.key, key] ↔
      ¬ BudgetFilter.rules.Allows key (budget.lookup key) := by
  rw [← BudgetFilter.reportsAt_readFields, readFields, seqLeft_eq]
  cases p <;> rw [Pricing.key] at h ⊢ <;>
    simp [reportsAt_apply, reportsAt_map, Fields.reportsAt_optional, Fields.reportsAt_onlyKeys, h,
      Reader.nullable, BudgetFilter.read, Reader.object]

theorem placed_of_readFields {issue : Issue} (h : issue ∈ (readFields fields).issues) :
    issue.place ≠ [] := by
  simp only [readFields, seqLeft_eq, Checked.map_eq, Checked.seq_eq, issues_apply, issues_map,
    List.mem_append] at h
  rcases h with (((h | h) | h) | h) | h
  · exact Fields.placed_optional h
  · exact Fields.placed_optional h
  · exact Fields.placed_optional h
  · exact Fields.placed_optional h
  · exact Fields.placed_onlyKeys h

theorem blames_of_readFields {issues : List Issue} (h : readFields fields = .invalid issues) :
    Blames fields issues := by
  have hissues : ∀ place, Reported issues place ↔ (readFields fields).ReportsAt place := by
    intro place
    rw [h]
    rfl
  refine ⟨fun key => ?_, fun items hitems i v hv => ?_, fun p budget hbudget key => ?_,
    fun issue hissue => ?_⟩
  · rw [hissues, reportsAt_readFields]
  · rw [hissues, reportsAt_readFields_skills hitems hv]
  · rw [hissues, reportsAt_readFields_budget hbudget]
  · have hplaced : issue.place ≠ [] := placed_of_readFields (by rw [h]; exact hissue)
    obtain ⟨key, rest, hplace⟩ := List.exists_cons_of_ne_nil hplaced
    have hkey : [key] <+: issue.place := by simp [hplace]
    exact ⟨key, hkey, reportsAt_readFields.1 ((hissues [key]).1 ⟨issue, hissue, hkey⟩)⟩

end ProjectFilter

theorem Fields.kept_text {fields : Fields} {key : String} {t : Option String}
    (h : fields.optional key none (Reader.nullable Reader.strictText) = .valid t) :
    fields.get key = .ofOption .text t := by
  rcases optional_nullable_eq_valid h with ⟨rfl, hnull⟩ | ⟨s, rfl, hs⟩
  · exact hnull
  · exact Reader.strictText_eq_valid_iff.1 hs

theorem Reader.nullable_strictText (t : Option String) :
    nullable strictText (.ofOption .text t) = .valid t :=
  @nullable_ofOption String strictText .text (fun _ => rfl) (fun _ h => by cases h) t

theorem Reader.listOf_strictTexts (ts : List String) :
    listOf strictText (.texts ts) = .valid ts :=
  @itemsFrom_map String strictText .text (fun _ => rfl) 0 ts

theorem Reader.listOf_strictText_eq_valid {v : Value} {ts : List String}
    (h : listOf strictText v = .valid ts) : v.items? = some (ts.map .text) := by
  cases v with
  | list items => exact congrArg some (itemsFrom_strictText_eq_valid h)
  | tuple items => exact congrArg some (itemsFrom_strictText_eq_valid h)
  | set items => exact congrArg some (itemsFrom_strictText_eq_valid h)
  | _ => cases h

namespace BudgetFilter

variable {fields : Fields} {b : BudgetFilter}

theorem readBound_eq_valid {v : Value} {n : Option Number} (h : readBound v = .valid n) :
    v = .ofOption Number.toValue n := by
  cases v with
  | float x =>
    rw [readBound] at h
    split_ifs at h
    · cases h
      rfl
    · cases h
  | null => cases h; rfl
  | int n => cases h; rfl
  | _ => cases h

theorem kept_bound {key : String} {n : Option Number}
    (h : fields.optional key none readBound = .valid n) :
    fields.get key = .ofOption Number.toValue n := by
  rw [Fields.optional] at h
  rw [Fields.get]
  cases hlookup : fields.lookup key with
  | none =>
    rw [hlookup] at h
    cases h
    rfl
  | some v =>
    rw [hlookup, under_eq_valid_iff] at h
    exact readBound_eq_valid h

theorem kept_checked {b : Bool}
    (h : fields.optional "checked" false Reader.strictBool = .valid b) :
    (fields.lookup "checked").getD (.bool false) = .bool b := by
  rw [Fields.optional] at h
  cases hlookup : fields.lookup "checked" with
  | none =>
    rw [hlookup] at h
    cases h
    rfl
  | some v =>
    rw [hlookup, under_eq_valid_iff] at h
    cases v <;> cases h
    rfl

theorem readFields_eq_valid_iff : readFields fields = .valid b ↔
    fields.optional "checked" false Reader.strictBool = .valid b.checked ∧
    fields.optional "currency" none (Reader.nullable Reader.strictText) = .valid b.currency ∧
    fields.optional "min" none readBound = .valid b.min ∧
    fields.optional "max" none readBound = .valid b.max ∧
    fields.onlyKeys keys = .valid () := by
  obtain ⟨checked, currency, min, max⟩ := b
  rw [readFields, seqLeft_eq]
  simp only [Checked.map_eq, Checked.seq_eq, apply_eq_valid_iff, map_eq_valid_iff]
  constructor
  · rintro ⟨_, _, ⟨_, ⟨_, _, ⟨_, _, ⟨_, _, ⟨_, h0, rfl⟩, h1, rfl⟩, h2, rfl⟩, h3, rfl⟩, rfl⟩, h4, h⟩
    cases h
    exact ⟨h0, h1, h2, h3, h4⟩
  · rintro ⟨h0, h1, h2, h3, h4⟩
    exact ⟨_, _, ⟨_, ⟨_, _, ⟨_, _, ⟨_, _, ⟨_, h0, rfl⟩, h1, rfl⟩, h2, rfl⟩, h3, rfl⟩, rfl⟩, h4, rfl⟩

theorem keeps_of_readFields (h : readFields fields = .valid b) : b.Keeps fields := by
  obtain ⟨hchecked, hcurrency, hmin, hmax, -⟩ := readFields_eq_valid_iff.1 h
  exact ⟨kept_checked hchecked, Fields.kept_text hcurrency, kept_bound hmin, kept_bound hmax⟩

theorem keeps_of_read {v : Value} (h : read v = .valid b) :
    ∃ budget, v = .object budget ∧ b.Keeps budget := by
  cases v with
  | object budget => exact ⟨budget, rfl, keeps_of_readFields h⟩
  | _ => cases h

end BudgetFilter

namespace ProjectFilter

variable {fields : Fields} {f : ProjectFilter}

theorem readFields_eq_valid_iff : readFields fields = .valid f ↔
    fields.optional "title" none (Reader.nullable Reader.strictText) = .valid f.title ∧
    fields.optional "skills" none (Reader.nullable (Reader.listOf Reader.strictText)) = .valid f.skills ∧
    fields.optional "fixed" none (Reader.nullable BudgetFilter.read) = .valid f.fixed ∧
    fields.optional "hourly" none (Reader.nullable BudgetFilter.read) = .valid f.hourly ∧
    fields.onlyKeys keys = .valid () := by
  obtain ⟨title, skills, fixed, hourly⟩ := f
  rw [readFields, seqLeft_eq]
  simp only [Checked.map_eq, Checked.seq_eq, apply_eq_valid_iff, map_eq_valid_iff]
  constructor
  · rintro ⟨_, _, ⟨_, ⟨_, _, ⟨_, _, ⟨_, _, ⟨_, h0, rfl⟩, h1, rfl⟩, h2, rfl⟩, h3, rfl⟩, rfl⟩, h4, h⟩
    cases h
    exact ⟨h0, h1, h2, h3, h4⟩
  · rintro ⟨h0, h1, h2, h3, h4⟩
    exact ⟨_, _, ⟨_, ⟨_, _, ⟨_, _, ⟨_, _, ⟨_, h0, rfl⟩, h1, rfl⟩, h2, rfl⟩, h3, rfl⟩, rfl⟩, h4, rfl⟩

theorem kept_budget {key : String} {b : Option BudgetFilter}
    (h : fields.optional key none (Reader.nullable BudgetFilter.read) = .valid b) :
    b = none ∧ fields.get key = .null ∨
      ∃ c budget, b = some c ∧ fields.get key = .object budget ∧ c.Keeps budget := by
  rcases Fields.optional_nullable_eq_valid h with ⟨rfl, hnull⟩ | ⟨c, rfl, hc⟩
  · exact .inl ⟨rfl, hnull⟩
  · obtain ⟨budget, hbudget, hkeeps⟩ := BudgetFilter.keeps_of_read hc
    exact .inr ⟨c, budget, rfl, hbudget, hkeeps⟩

theorem keeps_of_readFields (h : readFields fields = .valid f) : f.Keeps fields := by
  obtain ⟨htitle, hskills, hfixed, hhourly, -⟩ := readFields_eq_valid_iff.1 h
  refine ⟨Fields.kept_text htitle, ?_, fun p => ?_⟩
  · rcases Fields.optional_nullable_eq_valid hskills with ⟨hnone, hnull⟩ | ⟨skills, hsome, hread⟩
    · exact .inl ⟨hnone, hnull⟩
    · exact .inr ⟨skills, hsome, Reader.listOf_strictText_eq_valid hread⟩
  · cases p with
    | fixed => exact kept_budget hfixed
    | hourly => exact kept_budget hhourly

end ProjectFilter

/-- A bound that can be written down: a number, and finite. -/
def Number.Finite : Number → Prop
  | .int _ => True
  | .float x => x.isFinite = true

namespace BudgetFilter

/-- A budget filter whose bounds can be written down. -/
structure Finite (b : BudgetFilter) : Prop where
  min : ∀ n ∈ b.min, n.Finite
  max : ∀ n ∈ b.max, n.Finite

theorem readBound_toValue {bound : Option Number} (h : ∀ n ∈ bound, n.Finite) :
    readBound (.ofOption Number.toValue bound) = .valid bound := by
  cases bound with
  | none => rfl
  | some n =>
    cases n with
    | int k => rfl
    | float x => exact if_pos (h _ rfl)

theorem read_toValue {b : BudgetFilter} (h : b.Finite) : read b.toValue = .valid b :=
  readFields_eq_valid_iff.2 ⟨(Fields.optional_eq_valid_iff rfl).2 rfl,
    (Fields.optional_eq_valid_iff rfl).2 (Reader.nullable_strictText b.currency),
    (Fields.optional_eq_valid_iff rfl).2 (readBound_toValue h.min),
    (Fields.optional_eq_valid_iff rfl).2 (readBound_toValue h.max), rfl⟩

theorem nullable_toValue {b : Option BudgetFilter} (h : ∀ c, b = some c → c.Finite) :
    Reader.nullable read (.ofOption toValue b) = .valid b := by
  cases b with
  | none => rfl
  | some c => exact congrArg (Checked.map some) (read_toValue (h c rfl))

end BudgetFilter

/-- A filter that is written down is read as it was. -/
theorem ProjectFilter.validate_toValue {f : ProjectFilter}
    (h : ∀ p b, f.budgetFor p = some b → b.Finite) : validate f.toValue = .ok (some f) := by
  have hread : readFields [("title", .ofOption .text f.title),
      ("skills", .ofOption (fun skills => .list (skills.map .text)) f.skills),
      ("fixed", .ofOption BudgetFilter.toValue f.fixed),
      ("hourly", .ofOption BudgetFilter.toValue f.hourly)] = .valid f :=
    readFields_eq_valid_iff.2
      ⟨(Fields.optional_eq_valid_iff rfl).2 (Reader.nullable_strictText f.title),
      (Fields.optional_eq_valid_iff rfl).2
        (Reader.nullable_ofOption Reader.listOf_strictTexts (fun _ h => by cases h) f.skills),
      (Fields.optional_eq_valid_iff rfl).2 (BudgetFilter.nullable_toValue (h .fixed)),
      (Fields.optional_eq_valid_iff rfl).2 (BudgetFilter.nullable_toValue (h .hourly)), rfl⟩
  rw [toValue, validate, hread]

end FreelanceBoard
