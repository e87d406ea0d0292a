import FreelanceBoard.Proofs.FilterPlan
import FreelanceBoard.Proofs.JsonReadings
import FreelanceBoard.Proofs.PlanLikeness

/-! What is written out is read back. The documents of projects and proposals are read as what they
were written from, so that reading and writing settles a value at once. A plan is read back from its
own written form, and where its predicates compare with values of JSON alone also from that as JSON. -/
namespace FreelanceBoard

namespace Reader

variable {α : Type}

/-- Reads a value, and writes out what was read. -/
def thenWritten (read : Reader α) (write : α → Value) : Reader Value := fun v => (read v).map write

/-- Where what is written is read back, a second reading and writing changes nothing. -/
theorem thenWritten_andThen {read : Reader α} {write : α → Value}
    (h : ∀ a, read (write a) = .valid a) (v : Value) :
    (thenWritten read write v).andThen (thenWritten read write) = thenWritten read write v := by
  rw [thenWritten]
  cases hread : read v with
  | invalid issues => rfl
  | valid a =>
    have hagain : thenWritten read write (write a) = .valid (write a) := by
      rw [thenWritten, h]
      rfl
    exact hagain

end Reader

/-- Whatever value a project or a proposal is read from, its document is read as the same model, and
reading and writing that document again changes nothing. -/
theorem documents_read_back (v : Value) :
    (∀ p, Project.read v = .valid p → Project.read p.toDocument = .valid p ∧
      Reader.thenWritten Project.read Project.toDocument p.toDocument = .valid p.toDocument) ∧
    (∀ r, Proposal.read v = .valid r → Proposal.read r.toDocument = .valid r ∧
      Reader.thenWritten Proposal.read Proposal.toDocument r.toDocument = .valid r.toDocument) ∧
    (Reader.thenWritten Project.read Project.toDocument v).andThen
        (Reader.thenWritten Project.read Project.toDocument) =
      Reader.thenWritten Project.read Project.toDocument v ∧
    (Reader.thenWritten Proposal.read Proposal.toDocument v).andThen
        (Reader.thenWritten Proposal.read Proposal.toDocument) =
      Reader.thenWritten Proposal.read Proposal.toDocument v := by
  have hproject : ∀ p : Project, Project.read p.toDocument = .valid p := Project.read_toDocument
  have hproposal : ∀ r : Proposal, Proposal.read r.toDocument = .valid r := Proposal.read_toDocument
  refine ⟨fun p _ => ⟨hproject p, ?_⟩, fun r _ => ⟨hproposal r, ?_⟩,
    Reader.thenWritten_andThen hproject v, Reader.thenWritten_andThen hproposal v⟩
  · rw [Reader.thenWritten, hproject]
    rfl
  · rw [Reader.thenWritten, hproposal]
    rfl

/-- A numeral for the amount, a word for the truth value, a tuple and a set for lists, keys that are
not known and parts that are missing. -/
theorem documents_read_back_lax :
    let v : Value := .object [("stars", .int 5), ("id", .text "P1"), ("owner", .text "U1"),
      ("skills", .tuple [.text "go", .text "sql"]), ("proposers", .set [.text "U2"]),
      ("budget", .object [("amount", .text " +1_0.0 "), ("note", .null), ("currency", .text "USD"),
        ("type", .text "hourly rate")]), ("scope", .object []), ("is_published", .text "Yes")]
    let w : Value := .object [("id", .text "R1"), ("project_id", .text "P1"),
      ("budget", .object [("type", .text "fixed rate"), ("currency", .text "EUR"), ("amount", .bool true)])]
    let p : Project := ⟨"P1", "U1", none, none, ["go", "sql"], some ⟨none, none, none⟩,
      some ⟨.hourly, "USD", 10⟩, true, [], ["U2"]⟩
    let r : Proposal := ⟨"R1", "P1", none, none, some ⟨.fixed, "EUR", 1⟩, none⟩
    Project.read v = .valid p ∧ Project.read p.toDocument = .valid p ∧
      Proposal.read w = .valid r ∧ Proposal.read r.toDocument = .valid r := by
  intro v w p r
  have hword : Reader.laxBool (.text "Yes") = .valid true := by
    have hlower : "Yes".toLower = "yes" := by decide +kernel
    rw [Reader.laxBool, Reader.boolOfText, hlower]
    rfl
  have hp : Project.read v = .valid p := Project.readFields_eq_valid_iff.2 ⟨rfl, rfl, rfl, rfl, rfl,
    rfl, rfl, (Fields.optional_eq_valid_iff rfl).2 hword, rfl, rfl⟩
  have hr : Proposal.read w = .valid r := rfl
  exact ⟨hp, ((documents_read_back v).1 p hp).1, hr, ((documents_read_back w).2.1 r hr).1⟩

theorem Checked.andThen_eq_valid_iff {α β : Type} {c : Checked α} {next : α → Checked β} {b : β} :
    c.andThen next = .valid b ↔ ∃ a, c = .valid a ∧ next a = .valid b := by
  cases c <;> simp [andThen]

theorem Operator.ofValue?_eq_some_iff {v : Value} {o : Operator} :
    ofValue? v = some o ↔ v = .text o.name := by
  constructor
  · intro h
    cases v with
    | text s =>
      have hname := List.find?_some h
      rw [beq_iff_eq] at hname
      rw [hname]
    | _ => cases h
  · rintro rfl
    exact ofValue?_name o

namespace Predicate

theorem readLimit_boundOf (l : Option Limit) : ∃ strict lax,
    Reader.nullable Reader.laxNumber (boundOf true l) = .valid strict ∧
    Reader.nullable Reader.laxNumber (boundOf false l) = .valid lax ∧
    ∀ reason, readLimit reason strict lax = .valid l := by
  rcases l with _ | ⟨_ | _, x⟩
  · exact ⟨none, none, rfl, rfl, fun _ => rfl⟩
  · exact ⟨none, some x, rfl, rfl, fun _ => rfl⟩
  · exact ⟨some x, none, rfl, rfl, fun _ => rfl⟩

/-- What the fields of a written comparison or join have to be for a predicate to be read. -/
inductive FieldsOf (fields : Fields) (parts : Checked (List Predicate)) : Operator → Predicate → Prop
  | eq {path : String} {v : Value} (hpath : fields.required "field" Reader.laxText = .valid path)
      (hv : fields.required "value" .valid = .valid v) : FieldsOf fields parts .eq (.eq path v)
  | ne {path : String} {v : Value} (hpath : fields.required "field" Reader.laxText = .valid path)
      (hv : fields.required "value" .valid = .valid v) : FieldsOf fields parts .ne (.ne path v)
  | among {path : String} {vs : List Value}
      (hpath : fields.required "field" Reader.laxText = .valid path)
      (hvs : fields.required "values" (Reader.tupleOf .valid) = .valid vs) :
      FieldsOf fields parts .among (.among path vs)
  | range {f : RangeFields} {p : Predicate}
      (hpath : fields.required "field" Reader.laxText = .valid f.path)
      (hgt : readBound fields "gt" = .valid f.gt) (hgte : readBound fields "gte" = .valid f.gte)
      (hlt : readBound fields "lt" = .valid f.lt) (hlte : readBound fields "lte" = .valid f.lte)
      (hp : f.check = .valid p) : FieldsOf fields parts .range p
  | containsAll {path : String} {texts : List String}
      (hpath : fields.required "field" Reader.laxText = .valid path)
      (htexts : fields.required "values" (Reader.tupleOf Reader.laxText) = .valid texts) :
      FieldsOf fields parts .containsAll (.containsAll path texts)
  | allOf {ps : List Predicate} (hps : parts = .valid ps) : FieldsOf fields parts .allOf (.allOf ps)
  | anyOf {ps : List Predicate} (hps : parts = .valid ps) : FieldsOf fields parts .anyOf (.anyOf ps)

theorem readAs_eq_valid_iff {o : Operator} {fields : Fields} {parts : Checked (List Predicate)}
    {p : Predicate} : readAs o fields parts = .valid p ↔
      fields.optional "op" () (Reader.literal o.name) = .valid () ∧ FieldsOf fields parts o p := by
  constructor
  · intro h
    simp only [readAs, Checked.map_eq, Checked.seq_eq] at h
    cases o <;> simp only [Checked.apply_eq_valid_iff, Checked.map_eq_valid_iff] at h
    case eq =>
      obtain ⟨_, v, ⟨_, path, ⟨_, hop, rfl⟩, hpath, rfl⟩, hv, rfl⟩ := h
      exact ⟨hop, .eq hpath hv⟩
    case ne =>
      obtain ⟨_, v, ⟨_, path, ⟨_, hop, rfl⟩, hpath, rfl⟩, hv, rfl⟩ := h
      exact ⟨hop, .ne hpath hv⟩
    case among =>
      obtain ⟨_, vs, ⟨_, path, ⟨_, hop, rfl⟩, hpath, rfl⟩, hvs, rfl⟩ := h
      exact ⟨hop, .among hpath hvs⟩
    case range =>
      obtain ⟨f, hf, hp⟩ := Checked.andThen_eq_valid_iff.1 h
      simp only [Checked.apply_eq_valid_iff, Checked.map_eq_valid_iff] at hf
      obtain ⟨_, lte, ⟨_, lt, ⟨_, gte, ⟨_, gt, ⟨_, path, ⟨_, hop, rfl⟩, hpath, rfl⟩, hgt, rfl⟩, hgte,
        rfl⟩, hlt, rfl⟩, hlte, rfl⟩ := hf
      exact ⟨hop, .range hpath hgt hgte hlt hlte hp⟩
    case containsAll =>
      obtain ⟨_, texts, ⟨_, path, ⟨_, hop, rfl⟩, hpath, rfl⟩, htexts, rfl⟩ := h
      exact ⟨hop, .containsAll hpath htexts⟩
    case allOf =>
      obtain ⟨_, ps, ⟨_, hop, rfl⟩, hps, rfl⟩ := h
      exact ⟨hop, .allOf hps⟩
    case anyOf =>
      obtain ⟨_, ps, ⟨_, hop, rfl⟩, hps, rfl⟩ := h
      exact ⟨hop, .anyOf hps⟩
  · rintro ⟨hop, h⟩
    cases h with
    | range hpath hgt hgte hlt hlte hp =>
      simp [readAs, hop, hpath, hgt, hgte, hlt, hlte, hp, Checked.andThen, Checked.map, Checked.apply]
    | _ => simp [readAs, *, Checked.map, Checked.apply]

theorem read_eq_valid_iff {v : Value} {p : Predicate} : read v = .valid p ↔ ∃ fields o,
    v = .object fields ∧ fields.lookup "op" = some (.text (Operator.name o)) ∧
      readAs o fields (readParts fields) = .valid p := by
  constructor
  · intro h
    cases v with
    | object fields =>
      rw [read] at h
      split at h
      · cases h
      · rename_i tag hlookup
        split at h
        · cases h
        · rename_i o ho
          rw [Checked.under_eq_valid_iff] at h
          exact ⟨fields, o, rfl, Operator.ofValue?_eq_some_iff.1 ho ▸ hlookup, h⟩
    | _ => cases h
  · rintro ⟨fields, o, rfl, hlookup, h⟩
    rw [read, hlookup]
    simp [h, Checked.under]

mutual

/-- What a predicate is written as is read as that predicate. -/
theorem read_toValue (p : Predicate) : read p.toValue = .valid p := by
  cases p with
  | eq path v =>
    exact read_eq_valid_iff.2 ⟨_, .eq, rfl, rfl, readAs_eq_valid_iff.2 ⟨rfl, .eq rfl rfl⟩⟩
  | ne path v =>
    exact read_eq_valid_iff.2 ⟨_, .ne, rfl, rfl, readAs_eq_valid_iff.2 ⟨rfl, .ne rfl rfl⟩⟩
  | among path vs =>
    have hvs : Reader.tupleOf .valid (.tuple (vs.map id)) = .valid vs :=
      Reader.itemsFrom_map (fun _ => rfl) 0 vs
    rw [List.map_id] at hvs
    exact read_eq_valid_iff.2 ⟨_, .among, rfl, rfl, readAs_eq_valid_iff.2
      ⟨rfl, .among rfl (Fields.required_eq_valid_iff.2 ⟨_, rfl, hvs⟩)⟩⟩
  | range path lower upper =>
    obtain ⟨gt, gte, hgt, hgte, hlower⟩ := readLimit_boundOf lower
    obtain ⟨lt, lte, hlt, hlte, hupper⟩ := readLimit_boundOf upper
    have hcheck : RangeFields.check ⟨path, gt, gte, lt, lte⟩ = .valid (.range path lower upper) := by
      simp [RangeFields.check, hlower, hupper, Checked.andThen, Checked.map]
    refine read_eq_valid_iff.2 ⟨_, .range, rfl, rfl, readAs_eq_valid_iff.2
      ⟨rfl, .range rfl ?_ ?_ ?_ ?_ hcheck⟩⟩
    · exact (Fields.optional_eq_valid_iff rfl).2 hgt
    · exact (Fields.optional_eq_valid_iff rfl).2 hgte
    · exact (Fields.optional_eq_valid_iff rfl).2 hlt
    · exact (Fields.optional_eq_valid_iff rfl).2 hlte
  | containsAll path texts =>
    have htexts : Reader.tupleOf Reader.laxText (.tuple (texts.map .text)) = .valid texts :=
      Reader.listOf_texts texts
    exact read_eq_valid_iff.2 ⟨_, .containsAll, rfl, rfl, readAs_eq_valid_iff.2
      ⟨rfl, .containsAll rfl (Fields.required_eq_valid_iff.2 ⟨_, rfl, htexts⟩)⟩⟩
  | allOf parts =>
    have hparts : (readFrom 0 (toValues parts)).under "predicates" = .valid parts :=
      Checked.under_eq_valid_iff.2 (readFrom_toValues 0 parts)
    exact read_eq_valid_iff.2 ⟨_, .allOf, rfl, rfl, readAs_eq_valid_iff.2 ⟨rfl, .allOf hparts⟩⟩
  | anyOf parts =>
    have hparts : (readFrom 0 (toValues parts)).under "predicates" = .valid parts :=
      Checked.under_eq_valid_iff.2 (readFrom_toValues 0 parts)
    exact read_eq_valid_iff.2 ⟨_, .anyOf, rfl, rfl, readAs_eq_valid_iff.2 ⟨rfl, .anyOf hparts⟩⟩
termination_by structural p

theorem readFrom_toValues (index : Nat) (ps : List Predicate) :
    readFrom index (toValues ps) = .valid ps := by
  cases ps with
  | nil => rfl
  | cons p ps =>
    rw [toValues, readFrom, read_toValue p, readFrom_toValues (index + 1) ps]
    rfl
termination_by structural ps

end

mutual

/-- Whether the predicate compares with values of JSON alone. -/
def holdsJson : Predicate → Bool
  | .eq _ v => v.isJson
  | .ne _ v => v.isJson
  | .among _ vs => Value.areJson vs
  | .range _ _ _ => true
  | .containsAll _ _ => true
  | .allOf parts => partsHoldJson parts
  | .anyOf parts => partsHoldJson parts
termination_by structural p => p

def partsHoldJson : List Predicate → Bool
  | [] => true
  | p :: ps => holdsJson p && partsHoldJson ps
termination_by structural ps => ps

end

theorem RangeFields.eq_range_of_check {f : RangeFields} {p : Predicate} (h : f.check = .valid p) :
    ∃ lower upper, p = .range f.path lower upper := by
  obtain ⟨lower, -, hupper⟩ := Checked.andThen_eq_valid_iff.1 h
  obtain ⟨upper, -, rfl⟩ := Checked.map_eq_valid_iff.1 hupper
  exact ⟨lower, upper, rfl⟩

mutual

/-- The predicate with all its values as JSON. -/
def asJson : Predicate → Predicate
  | .eq path v => .eq path v.asJson
  | .ne path v => .ne path v.asJson
  | .among path vs => .among path (Value.itemsAsJson vs)
  | .range path lower upper => .range path lower upper
  | .containsAll path texts => .containsAll path texts
  | .allOf parts => .allOf (partsAsJson parts)
  | .anyOf parts => .anyOf (partsAsJson parts)
termination_by structural p => p

def partsAsJson : List Predicate → List Predicate
  | [] => []
  | p :: ps => asJson p :: partsAsJson ps
termination_by structural ps => ps

end

theorem FieldsOf.asJson {o : Operator} {fields : Fields} {parts parts' : Checked (List Predicate)}
    {p : Predicate} (h : FieldsOf fields parts o p)
    (hparts : ∀ ps, parts = .valid ps → parts' = .valid (partsAsJson ps)) :
    FieldsOf (Value.fieldsAsJson fields) parts' o p.asJson := by
  have hbound : ∀ {key : String} {x : Option Double}, readBound fields key = .valid x →
      readBound (Value.fieldsAsJson fields) key = .valid x :=
    fun hx => (Reader.ReadsJson.laxNumber.nullable).optional rfl hx
  cases h with
  | eq hpath hv => exact .eq (Reader.ReadsJson.laxText.required hpath) (Reader.ReadsJson.anything.required hv)
  | ne hpath hv => exact .ne (Reader.ReadsJson.laxText.required hpath) (Reader.ReadsJson.anything.required hv)
  | among hpath hvs =>
    have hvs' := Reader.ReadsJson.anything.tupleOf.required hvs
    rw [← Value.itemsAsJson_eq_map] at hvs'
    exact .among (Reader.ReadsJson.laxText.required hpath) hvs'
  | range hpath hgt hgte hlt hlte hp =>
    obtain ⟨lower, upper, rfl⟩ := RangeFields.eq_range_of_check hp
    exact .range (Reader.ReadsJson.laxText.required hpath) (hbound hgt) (hbound hgte) (hbound hlt)
      (hbound hlte) hp
  | containsAll hpath htexts =>
    have htexts' := Reader.ReadsJson.laxText.tupleOf.required htexts
    rw [List.map_id] at htexts'
    exact .containsAll (Reader.ReadsJson.laxText.required hpath) htexts'
  | allOf hps => exact .allOf (hparts _ hps)
  | anyOf hps => exact .anyOf (hparts _ hps)

-- One theorem for each function of the reading: from a value to its fields, on to the field with the
-- parts, along the list that stands there, and with each part to a value again.
mutual

/-- A predicate is read from the form of a value as JSON too, with its own values as JSON. -/
theorem read_asJson {v : Value} {p : Predicate} (h : read v = .valid p) :
    read v.asJson = .valid p.asJson := by
  cases v with
  | object fields =>
    obtain ⟨_, o, ⟨⟩, hlookup, hread⟩ := read_eq_valid_iff.1 h
    obtain ⟨hop, hfields⟩ := readAs_eq_valid_iff.1 hread
    have hlookup' : (Value.fieldsAsJson fields).lookup "op" = some (.text o.name) := by
      rw [Value.lookup_fieldsAsJson, hlookup]
      rfl
    exact read_eq_valid_iff.2 ⟨_, o, rfl, hlookup', readAs_eq_valid_iff.2
      ⟨(Reader.ReadsJson.literal o.name).optional rfl hop,
        hfields.asJson fun ps hps => readParts_asJson hps⟩⟩
  | _ => cases h
termination_by structural v

theorem readParts_asJson {fields : Fields} {ps : List Predicate}
    (h : readParts fields = .valid ps) :
    readParts (Value.fieldsAsJson fields) = .valid (partsAsJson ps) := by
  cases fields with
  | nil => cases h
  | cons entry fields =>
    obtain ⟨k, v⟩ := entry
    rw [readParts] at h
    rw [Value.fieldsAsJson, readParts]
    by_cases hk : k = "predicates"
    · rw [if_pos hk, Checked.under_eq_valid_iff] at h ⊢
      exact readItems_asJson h
    · rw [if_neg hk] at h ⊢
      exact readParts_asJson h
termination_by structural fields

theorem readItems_asJson {v : Value} {ps : List Predicate} (h : readItems v = .valid ps) :
    readItems v.asJson = .valid (partsAsJson ps) := by
  cases v with
  | list items => exact readFrom_asJson h
  | tuple items => exact readFrom_asJson h
  | set items => exact readFrom_asJson h
  | _ => cases h
termination_by structural v

theorem readFrom_asJson {index : Nat} {vs : List Value} {ps : List Predicate}
    (h : readFrom index vs = .valid ps) :
    readFrom index (Value.itemsAsJson vs) = .valid (partsAsJson ps) := by
  cases vs with
  | nil =>
    cases h
    rfl
  | cons v vs =>
    rw [readFrom, Checked.map_eq, Checked.seq_eq, Checked.apply_eq_valid_iff] at h
    obtain ⟨g, ps, hg, hps, rfl⟩ := h
    obtain ⟨p, hp, rfl⟩ := Checked.map_eq_valid_iff.1 hg
    rw [Value.itemsAsJson, readFrom, read_asJson (Checked.under_eq_valid_iff.1 hp),
      readFrom_asJson hps]
    rfl
termination_by structural vs

end

theorem readsJson_read : Reader.ReadsJson read asJson := fun _ _ h => read_asJson h

mutual

theorem asJson_eq_self_iff (p : Predicate) : p.asJson = p ↔ p.holdsJson = true := by
  cases p with
  | eq path v => simp [asJson, holdsJson, Value.asJson_eq_self_iff]
  | ne path v => simp [asJson, holdsJson, Value.asJson_eq_self_iff]
  | among path vs => simp [asJson, holdsJson, Value.itemsAsJson_eq_self_iff]
  | range path lower upper => simp [asJson, holdsJson]
  | containsAll path texts => simp [asJson, holdsJson]
  | allOf parts => rw [asJson, holdsJson, allOf.injEq, partsAsJson_eq_self_iff]
  | anyOf parts => rw [asJson, holdsJson, anyOf.injEq, partsAsJson_eq_self_iff]
termination_by structural p

theorem partsAsJson_eq_self_iff (ps : List Predicate) :
    partsAsJson ps = ps ↔ partsHoldJson ps = true := by
  cases ps with
  | nil => simp [partsAsJson, partsHoldJson]
  | cons p ps =>
    rw [partsAsJson, partsHoldJson, List.cons.injEq, Bool.and_eq_true, asJson_eq_self_iff p,
      partsAsJson_eq_self_iff ps]
termination_by structural ps

end

theorem partsHoldJson_of_forall {ps : List Predicate} (h : ∀ p ∈ ps, p.holdsJson = true) :
    partsHoldJson ps = true := by
  induction ps with
  | nil => rfl
  | cons p ps ih =>
    rw [partsHoldJson, h p (by simp), ih fun q hq => h q (by simp [hq]), Bool.and_self]

theorem holdsJson_any {ps : List Predicate} (h : ∀ p ∈ ps, p.holdsJson = true) :
    (any ps).holdsJson = true := by
  obtain ⟨p, rfl⟩ | ⟨-, hany⟩ := any_cases ps
  · exact h p (by simp)
  · rw [hany]
    exact partsHoldJson_of_forall h

end Predicate

theorem SearchStage.readFields_eq_valid_iff {fields : Fields} {s : SearchStage} :
    readFields fields = .valid s ↔
      fields.optional "kind" () (Reader.literal "search") = .valid () ∧
      fields.required "field" Reader.laxText = .valid s.field ∧
      fields.required "query" Reader.laxText = .valid s.query ∧
      fields.optional "fuzzy_max_edits" titleEdits Reader.laxInt = .valid s.edits := by
  rw [readFields]
  simp only [Checked.map_eq, Checked.seq_eq, Checked.apply_eq_valid_iff, Checked.map_eq_valid_iff]
  constructor
  · rintro ⟨_, edits, ⟨_, query, ⟨_, field, ⟨_, hkind, rfl⟩, hfield, rfl⟩, hquery, rfl⟩, hedits, rfl⟩
    exact ⟨hkind, hfield, hquery, hedits⟩
  · rintro ⟨hkind, hfield, hquery, hedits⟩
    exact ⟨_, _, ⟨_, _, ⟨_, _, ⟨_, hkind, rfl⟩, hfield, rfl⟩, hquery, rfl⟩, hedits, rfl⟩

theorem MatchStage.readFields_eq_valid_iff {fields : Fields} {m : MatchStage} :
    readFields fields = .valid m ↔
      fields.optional "kind" () (Reader.literal "match") = .valid () ∧
      fields.required "name" Reader.laxText = .valid m.name ∧
      fields.required "predicate" Predicate.read = .valid m.predicate := by
  rw [readFields]
  simp only [Checked.map_eq, Checked.seq_eq, Checked.apply_eq_valid_iff, Checked.map_eq_valid_iff]
  constructor
  · rintro ⟨_, predicate, ⟨_, name, ⟨_, hkind, rfl⟩, hname, rfl⟩, hpredicate, rfl⟩
    exact ⟨hkind, hname, hpredicate⟩
  · rintro ⟨hkind, hname, hpredicate⟩
    exact ⟨_, _, ⟨_, _, ⟨_, hkind, rfl⟩, hname, rfl⟩, hpredicate, rfl⟩

namespace Stage

/-- The stage with the values of its predicate as JSON. -/
def asJson : Stage → Stage
  | .search s => .search s
  | .keep m => .keep ⟨m.name, m.predicate.asJson⟩

theorem read_eq_valid_iff {v : Value} {s : Stage} : read v = .valid s ↔ ∃ fields, v = .object fields ∧
    ((∃ t, fields.lookup "kind" = some (.text "search") ∧ SearchStage.readFields fields = .valid t ∧
        s = .search t) ∨
      ∃ m, fields.lookup "kind" = some (.text "match") ∧ MatchStage.readFields fields = .valid m ∧
        s = .keep m) := by
  constructor
  · intro h
    cases v with
    | object fields =>
      refine ⟨fields, rfl, ?_⟩
      rw [read] at h
      split at h
      · cases h
      · rename_i tag hkind
        rw [readTagged.eq_def] at h
        split at h
        · obtain ⟨t, ht, rfl⟩ := Checked.map_eq_valid_iff.1 (Checked.under_eq_valid_iff.1 h)
          exact .inl ⟨t, hkind, ht, rfl⟩
        · obtain ⟨m, hm, rfl⟩ := Checked.map_eq_valid_iff.1 (Checked.under_eq_valid_iff.1 h)
          exact .inr ⟨m, hkind, hm, rfl⟩
        · cases h
    | _ => cases h
  · rintro ⟨fields, rfl, ⟨t, hkind, ht, rfl⟩ | ⟨m, hkind, hm, rfl⟩⟩
    · rw [read, hkind]
      simp [readTagged, ht, Checked.under, Checked.map]
    · rw [read, hkind]
      simp [readTagged, hm, Checked.under, Checked.map]

theorem read_toValue (s : Stage) : read s.toValue = .valid s := by
  cases s with
  | search s => exact read_eq_valid_iff.2 ⟨_, rfl, .inl ⟨s, rfl, rfl, rfl⟩⟩
  | keep m =>
    have hpredicate := m.predicate.read_toValue
    exact read_eq_valid_iff.2 ⟨_, rfl, .inr ⟨m, rfl, MatchStage.readFields_eq_valid_iff.2
      ⟨rfl, rfl, Fields.required_eq_valid_iff.2 ⟨_, rfl, hpredicate⟩⟩, rfl⟩⟩

theorem readsJson_read : Reader.ReadsJson read asJson := fun v s h => by
  obtain ⟨fields, rfl, hstage⟩ := read_eq_valid_iff.1 h
  have hlookup : ∀ {kind : String}, fields.lookup "kind" = some (.text kind) →
      (Value.fieldsAsJson fields).lookup "kind" = some (.text kind) := by
    intro kind hkind
    rw [Value.lookup_fieldsAsJson, hkind]
    rfl
  refine read_eq_valid_iff.2 ⟨_, rfl, ?_⟩
  rcases hstage with ⟨t, hkind, ht, rfl⟩ | ⟨m, hkind, hm, rfl⟩
  · obtain ⟨htag, hfield, hquery, hedits⟩ := SearchStage.readFields_eq_valid_iff.1 ht
    exact .inl ⟨t, hlookup hkind, SearchStage.readFields_eq_valid_iff.2
      ⟨(Reader.ReadsJson.literal "search").optional rfl htag, Reader.ReadsJson.laxText.required hfield,
        Reader.ReadsJson.laxText.required hquery, Reader.ReadsJson.laxInt.optional rfl hedits⟩, rfl⟩
  · obtain ⟨htag, hname, hpredicate⟩ := MatchStage.readFields_eq_valid_iff.1 hm
    exact .inr ⟨⟨m.name, m.predicate.asJson⟩, hlookup hkind, MatchStage.readFields_eq_valid_iff.2
      ⟨(Reader.ReadsJson.literal "match").optional rfl htag, Reader.ReadsJson.laxText.required hname,
        Predicate.readsJson_read.required hpredicate⟩, rfl⟩

theorem asJson_eq_self_iff (s : Stage) :
    s.asJson = s ↔ ∀ m, s = .keep m → m.predicate.holdsJson = true := by
  cases s with
  | search s => simp [asJson]
  | keep m =>
    obtain ⟨name, predicate⟩ := m
    simp [asJson, Predicate.asJson_eq_self_iff]

end Stage

namespace Plan

def asJson (p : Plan) : Plan := ⟨p.stages.map Stage.asJson⟩

/-- The predicates of all match stages compare with values of JSON alone. -/
def HoldsJson (p : Plan) : Prop := ∀ m ∈ p.matchStages, m.predicate.holdsJson = true

theorem read_toValue (p : Plan) : read p.toValue = .valid p := by
  have hstages : Reader.tupleOf Stage.read (.tuple (p.stages.map Stage.toValue)) = .valid p.stages :=
    Reader.itemsFrom_map Stage.read_toValue 0 p.stages
  exact Checked.map_eq_valid_iff.2 ⟨p.stages, (Fields.optional_eq_valid_iff rfl).2 hstages, rfl⟩

theorem readsJson_read : Reader.ReadsJson read asJson := fun v p h => by
  cases v with
  | object fields =>
    obtain ⟨stages, hstages, rfl⟩ := Checked.map_eq_valid_iff.1 h
    exact Checked.map_eq_valid_iff.2
      ⟨_, Stage.readsJson_read.tupleOf.optional rfl hstages, rfl⟩
  | _ => cases h

theorem mem_matchStages_iff {p : Plan} {m : MatchStage} :
    m ∈ p.matchStages ↔ .keep m ∈ p.stages := by
  rw [matchStages, List.mem_filterMap]
  constructor
  · rintro ⟨s, hs, hm⟩
    cases s with
    | search s => cases hm
    | keep m' => exact Option.some.inj hm ▸ hs
  · exact fun h => ⟨_, h, rfl⟩

theorem asJson_eq_self_iff (p : Plan) : p.asJson = p ↔ p.HoldsJson := by
  obtain ⟨stages⟩ := p
  have hmap : stages.map Stage.asJson = stages ↔ ∀ s ∈ stages, s.asJson = s := by
    have hleft := List.map_inj_left (l := stages) (f := Stage.asJson) (g := id)
    rwa [List.map_id] at hleft
  simp only [HoldsJson, mem_matchStages_iff, asJson, mk.injEq]
  rw [hmap]
  simp only [Stage.asJson_eq_self_iff]
  exact ⟨fun h m hm => h _ hm m rfl, fun h s hs m hm => h m (hm ▸ hs)⟩

theorem HoldsJson.of_asking (f : ProjectFilter) (actor : String) : (asking f actor).HoldsJson := by
  intro m hm
  have hrange : ∀ r : BudgetRange, r.predicate.holdsJson = true := by
    rintro ⟨_ | _, currency, min, max⟩ <;> rfl
  rw [matchStages_asking, ProjectFilter.matchStages, List.mem_append, List.mem_append,
    List.mem_singleton] at hm
  rcases hm with (rfl | hm) | hm
  · rfl
  · split at hm
    · cases hm
    · rw [List.mem_singleton] at hm
      subst hm
      refine Predicate.holdsJson_any fun q hq => ?_
      obtain ⟨r, -, rfl⟩ := List.mem_map.1 hq
      exact hrange r
  · split at hm
    · cases hm
    · rw [List.mem_singleton] at hm
      subst hm
      rfl

/-- A plan is read back from what it is written as, and from that as JSON. -/
structure ReadsBack (p : Plan) : Prop where
  written : read p.toValue = .valid p
  isJson : p.toValue.asJson.isJson = true
  fromJson : read p.toValue.asJson = .valid p

theorem HoldsJson.readsBack {p : Plan} (h : p.HoldsJson) : p.ReadsBack where
  written := p.read_toValue
  isJson := p.toValue.isJson_asJson
  fromJson := by rw [readsJson_read _ _ p.read_toValue, p.asJson_eq_self_iff.2 h]

/-- A plan that was read from JSON holds nothing else. -/
theorem HoldsJson.of_read {v : Value} {p : Plan} (hv : v.isJson = true) (hp : read v = .valid p) :
    p.HoldsJson := by
  -- the value is its own form as JSON, so the plan that is read from that is the same one
  have hasJson := readsJson_read v p hp
  rw [v.asJson_eq_self_iff.2 hv, hp] at hasJson
  exact p.asJson_eq_self_iff.1 (Checked.valid.inj hasJson).symm

end Plan

/-- Every plan that is read from a request with JSON values, and every plan that a filter is given,
is read back from what it is written as. -/
theorem plans_read_back :
    (∀ v p, Plan.read v = .valid p → (v.isJson = true → p.HoldsJson) ∧ (p.HoldsJson → p.ReadsBack)) ∧
    ∀ raw actor p, Plan.ofFilter raw actor = .ok p → p.HoldsJson ∧ p.ReadsBack := by
  refine ⟨fun v p hp => ⟨fun hv => .of_read hv hp, fun h => h.readsBack⟩, fun raw actor p hp => ?_⟩
  obtain ⟨filter, a, -, -, -, -, rfl⟩ := Plan.ofFilter_eq_ok_iff.1 hp
  have h := Plan.HoldsJson.of_asking (filter.getD .blank) a
  exact ⟨h, h.readsBack⟩

/-- A tree with a value that is no number, and a plan for a filter that asks for everything. -/
theorem plans_read_back_nested :
    let v : Value := .object [("stages", .list [
      .object [("kind", .text "search"), ("field", .text "title"), ("query", .text "css")],
      .object [("kind", .text "match"), ("name", .text "deep"), ("predicate",
        .object [("op", .text "any_of"), ("predicates", .list [
          .object [("op", .text "range"), ("field", .text "amount"), ("gt", .float .negativeZero),
            ("lte", .float (.infinite false))],
          .object [("op", .text "all_of"), ("predicates", .list [
            .object [("op", .text "ne"), ("field", .text "a.b"), ("value", .float .nan)],
            .object [("op", .text "in"), ("field", .text "c"), ("values",
              .list [.null, .list [.bool true], .object [("k", .int 2)]])]])]])])]])]
    let p : Plan := ⟨[.search ⟨"title", "css", titleEdits⟩, .keep ⟨"deep", .anyOf [
      .range "amount" (some ⟨true, .negativeZero⟩) (some ⟨false, .infinite false⟩),
      .allOf [.ne "a.b" (.float .nan),
        .among "c" [.null, .list [.bool true], .object [("k", .int 2)]]]]⟩]⟩
    let f : ProjectFilter := ⟨some "css", some ["sql", "go"],
      some ⟨true, some "USD", some (.float .negativeZero), none⟩, none⟩
    v.isJson = true ∧ Plan.read v = .valid p ∧ p.ReadsBack ∧
      Plan.ofFilter f.toValue (.text "U1") = .ok (Plan.asking f "U1") ∧
      (Plan.asking f "U1").ReadsBack := by
  intro v p f
  have hv : v.isJson = true := rfl
  have hp : Plan.read v = .valid p := rfl
  have hf : ProjectFilter.validate f.toValue = .ok (some f) := rfl
  have hfits : f.Fits := by
    rintro (_ | _) b hb hactive
    · cases hb
      exact ⟨by rintro n ⟨⟩; simp [Number.toDouble?], by rintro n ⟨⟩⟩
    · cases hb
  have hplan : Plan.ofFilter f.toValue (.text "U1") = .ok (Plan.asking f "U1") :=
    Plan.ofFilter_eq_ok_iff.2 ⟨some f, "U1", hf, .inl rfl, by decide, hfits, rfl⟩
  obtain ⟨hread, hoffered⟩ := plans_read_back
  obtain ⟨hjson, hback⟩ := hread v p hp
  exact ⟨hv, hp, hback (hjson hv), hplan, (hoffered _ _ _ hplan).2⟩

end FreelanceBoard
