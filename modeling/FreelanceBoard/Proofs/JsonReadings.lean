import FreelanceBoard.Proofs.Documents

/-! Values as JSON, which knows no tuples, sets and octets: a list stands for either of the former, a
text for octets. Whatever is read from a value is read from its form as JSON too, as far as the reading
takes one kind of list for another. -/
namespace FreelanceBoard

namespace Value

mutual

/-- Whether a value is one of JSON: no octets, no tuple and no set stand in it. -/
def isJson : Value → Bool
  | .bytes _ _ => false
  | .list items => areJson items
  | .tuple _ => false
  | .set _ => false
  | .object fields => fieldsAreJson fields
  | _ => true
termination_by structural v => v

def areJson : List Value → Bool
  | [] => true
  | v :: vs => isJson v && areJson vs
termination_by structural vs => vs

def fieldsAreJson : List (String × Value) → Bool
  | [] => true
  | (_, v) :: fields => isJson v && fieldsAreJson fields
termination_by structural fields => fields

end

mutual

/-- The value with a list in place of every tuple and set, and octets as the text that they encode. -/
def asJson : Value → Value
  | .bytes _ octets => .text ((String.fromUTF8? octets).getD "")
  | .list items => .list (itemsAsJson items)
  | .tuple items => .list (itemsAsJson items)
  | .set items => .list (itemsAsJson items)
  | .object fields => .object (fieldsAsJson fields)
  | v => v
termination_by structural v => v

def itemsAsJson : List Value → List Value
  | [] => []
  | v :: vs => asJson v :: itemsAsJson vs
termination_by structural vs => vs

def fieldsAsJson : List (String × Value) → List (String × Value)
  | [] => []
  | (k, v) :: fields => (k, asJson v) :: fieldsAsJson fields
termination_by structural fields => fields

end

mutual

theorem isJson_asJson (v : Value) : v.asJson.isJson = true := by
  cases v with
  | list items => rw [asJson, isJson, areJson_itemsAsJson]
  | tuple items => rw [asJson, isJson, areJson_itemsAsJson]
  | set items => rw [asJson, isJson, areJson_itemsAsJson]
  | object fields => rw [asJson, isJson, fieldsAreJson_fieldsAsJson]
  | _ => rfl
termination_by structural v

theorem areJson_itemsAsJson (vs : List Value) : areJson (itemsAsJson vs) = true := by
  cases vs with
  | nil => rfl
  | cons v vs => rw [itemsAsJson, areJson, isJson_asJson v, areJson_itemsAsJson vs, Bool.and_self]
termination_by structural vs

theorem fieldsAreJson_fieldsAsJson (fields : Fields) : fieldsAreJson (fieldsAsJson fields) = true := by
  cases fields with
  | nil => rfl
  | cons entry fields =>
    obtain ⟨k, v⟩ := entry
    rw [fieldsAsJson, fieldsAreJson, isJson_asJson v, fieldsAreJson_fieldsAsJson fields,
      Bool.and_self]
termination_by structural fields

end

mutual

theorem asJson_eq_self_iff (v : Value) : v.asJson = v ↔ v.isJson = true := by
  cases v with
  | list items => rw [asJson, isJson, list.injEq, itemsAsJson_eq_self_iff]
  | object fields => rw [asJson, isJson, object.injEq, fieldsAsJson_eq_self_iff]
  | _ => simp [asJson, isJson]
termination_by structural v

theorem itemsAsJson_eq_self_iff (vs : List Value) : itemsAsJson vs = vs ↔ areJson vs = true := by
  cases vs with
  | nil => simp [itemsAsJson, areJson]
  | cons v vs =>
    rw [itemsAsJson, areJson, List.cons.injEq, Bool.and_eq_true, asJson_eq_self_iff v,
      itemsAsJson_eq_self_iff vs]
termination_by structural vs

theorem fieldsAsJson_eq_self_iff (fields : Fields) :
    fieldsAsJson fields = fields ↔ fieldsAreJson fields = true := by
  cases fields with
  | nil => simp [fieldsAsJson, fieldsAreJson]
  | cons entry fields =>
    obtain ⟨k, v⟩ := entry
    rw [fieldsAsJson, fieldsAreJson, List.cons.injEq, Prod.mk.injEq, Bool.and_eq_true,
      asJson_eq_self_iff v, fieldsAsJson_eq_self_iff fields]
    simp
termination_by structural fields

end

theorem itemsAsJson_eq_map (vs : List Value) : itemsAsJson vs = vs.map asJson := by
  induction vs with
  | nil => rfl
  | cons v vs ih => rw [itemsAsJson, ih, List.map_cons]

theorem lookup_fieldsAsJson (fields : Fields) (key : String) :
    (fieldsAsJson fields).lookup key = (fields.lookup key).map asJson := by
  induction fields with
  | nil => rfl
  | cons entry fields ih =>
    obtain ⟨k, v⟩ := entry
    rw [fieldsAsJson, List.lookup_cons, List.lookup_cons, ih]
    cases key == k <;> rfl

end Value

/-- What is read from a value is also read from its form as JSON, with `h` done to it. -/
def Reader.ReadsJson {α : Type} (read : Reader α) (h : α → α) : Prop :=
  ∀ v a, read v = .valid a → read v.asJson = .valid (h a)

namespace Reader.ReadsJson

open Value

variable {α : Type} {read : Reader α} {h : α → α}

theorem anything : ReadsJson .valid asJson := fun v a hv => by
  cases hv
  rfl

/-- What is read from octets is read from their text. -/
theorem ofOctets {readText : String → Checked α} {cause : Cause} {octets : ByteArray} {a : α}
    (h : ofOctets readText cause octets = .valid a) :
    readText ((String.fromUTF8? octets).getD "") = .valid a := by
  rw [Reader.ofOctets] at h
  cases hs : String.fromUTF8? octets with
  | none =>
    rw [hs] at h
    cases h
  | some s =>
    rw [hs] at h
    exact h

theorem laxText : ReadsJson laxText id := fun v s hv => by
  cases v with
  | text t => exact hv
  | bytes fixed octets => exact ofOctets hv
  | _ => cases hv

theorem literal (expected : String) : ReadsJson (literal expected) id := fun v u hv => by
  cases v with
  | text s => exact hv
  | _ => cases hv

theorem laxNumber : ReadsJson laxNumber id := fun v x hv => by
  cases v with
  | bytes fixed octets =>
    cases fixed with
    | false => cases hv
    | true => exact ofOctets hv
  | list _ | tuple _ | set _ | object _ => cases hv
  | _ => exact hv

theorem laxInt : ReadsJson laxInt id := fun v n hv => by
  cases v with
  | bytes fixed octets =>
    cases fixed with
    | false => cases hv
    | true => exact ofOctets hv
  | list _ | tuple _ | set _ | object _ => cases hv
  | _ => exact hv

theorem nullable (hread : ReadsJson read id) : ReadsJson (nullable read) id := fun v o hv => by
  cases v with
  | null => exact hv
  | _ =>
    obtain ⟨a, ha, rfl⟩ := Checked.map_eq_valid_iff.1 hv
    exact Checked.map_eq_valid_iff.2 ⟨a, hread _ a ha, rfl⟩

theorem itemsFrom (hread : ReadsJson read h) {index : Nat} {vs : List Value} {as : List α}
    (hvs : itemsFrom read index vs = .valid as) :
    Reader.itemsFrom read index (itemsAsJson vs) = .valid (as.map h) := by
  induction vs generalizing index as with
  | nil =>
    cases hvs
    rfl
  | cons v vs ih =>
    rw [Reader.itemsFrom, Checked.map_eq, Checked.seq_eq, Checked.apply_eq_valid_iff] at hvs
    obtain ⟨g, as, hg, has, rfl⟩ := hvs
    obtain ⟨a, ha, rfl⟩ := Checked.map_eq_valid_iff.1 hg
    rw [itemsAsJson, Reader.itemsFrom, hread v a (Checked.under_eq_valid_iff.1 ha), ih has]
    rfl

theorem tupleOf (hread : ReadsJson read h) : ReadsJson (tupleOf read) (List.map h) := fun v as hv => by
  cases v with
  | list items => exact itemsFrom hread hv
  | tuple items => exact itemsFrom hread hv
  | set items => exact itemsFrom hread hv
  | _ => cases hv

theorem required (hread : ReadsJson read h) {fields : Fields} {key : String} {a : α}
    (ha : fields.required key read = .valid a) :
    Fields.required (fieldsAsJson fields) key read = .valid (h a) := by
  obtain ⟨v, hlookup, hv⟩ := Fields.required_eq_valid_iff.1 ha
  have hlookup' : (fieldsAsJson fields).lookup key = some v.asJson := by
    rw [lookup_fieldsAsJson, hlookup, Option.map_some]
  exact Fields.required_eq_valid_iff.2 ⟨v.asJson, hlookup', hread v a hv⟩

theorem optional (hread : ReadsJson read h) {fields : Fields} {key : String} {default a : α}
    (hdefault : h default = default) (ha : fields.optional key default read = .valid a) :
    Fields.optional (fieldsAsJson fields) key default read = .valid (h a) := by
  have hlookup := lookup_fieldsAsJson fields key
  cases hkey : fields.lookup key with
  | none =>
    rw [hkey] at hlookup
    rw [Fields.optional_of_lookup_eq_none hkey] at ha
    cases ha
    rw [Fields.optional_of_lookup_eq_none hlookup, hdefault]
  | some v =>
    rw [hkey] at hlookup
    rw [Fields.optional_eq_valid_iff hkey] at ha
    exact (Fields.optional_eq_valid_iff hlookup).2 (hread v a ha)

end Reader.ReadsJson

end FreelanceBoard
