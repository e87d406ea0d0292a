import FreelanceBoard.Proofs.Values
import FreelanceBoard.Schema.Scalar
import Mathlib.Data.List.Forall2

/-! Values that stand for a text: the text itself, and its octets. A lax reading takes either for the
text, while as keys of records the two differ. -/
namespace FreelanceBoard

theorem fromUTF8?_eq_some_iff {octets : ByteArray} {s : String} :
    String.fromUTF8? octets = some s ↔ octets = s.toByteArray := by
  rw [String.fromUTF8?]
  constructor
  · intro h
    split at h
    · cases h
      rfl
    · cases h
  · rintro rfl
    exact dif_pos s.isValidUTF8

namespace Value

def IsOctets (v : Value) : Prop := ∃ fixed octets, v = .bytes fixed octets

theorem not_isOctets_text (s : String) : ¬ (text s).IsOctets := by
  rintro ⟨fixed, octets, h⟩
  cases h

/-- What a lax reading of a value as text gives. -/
def Spells (v : Value) (s : String) : Prop := v = .text s ∨ ∃ fixed, v = .bytes fixed s.toByteArray

variable {v : Value} {s t : String}

@[simp] theorem text_spells_iff : (text t).Spells s ↔ t = s := by
  simp [Spells]

@[simp] theorem bytes_spells_iff {fixed : Bool} {octets : ByteArray} :
    (bytes fixed octets).Spells s ↔ octets = s.toByteArray := by
  simp [Spells]

theorem Spells.unique (h : v.Spells s) (h' : v.Spells t) : s = t := by
  rcases h with rfl | ⟨fixed, rfl⟩
  · exact text_spells_iff.1 h'
  · exact String.toByteArray_inj.1 (bytes_spells_iff.1 h')

theorem Spells.truthy_iff (h : v.Spells s) : v.truthy = true ↔ s ≠ "" := by
  rcases h with rfl | ⟨fixed, rfl⟩
  · simp
  · have hempty : s.toByteArray.isEmpty = s.isEmpty := rfl
    simp [truthy, hempty]

theorem Spells.same_self (h : v.Spells s) : v.same v = true := by
  rcases h with rfl | ⟨fixed, rfl⟩ <;> simp [same]

theorem Spells.isOctets (h : v.Spells s) (hkey : v.isKey = false) : v.IsOctets := by
  rcases h with rfl | ⟨fixed, rfl⟩
  · rw [isKey_text] at hkey
    cases hkey
  · exact ⟨fixed, _, rfl⟩

end Value

namespace Reader

variable {v : Value} {s : String}

theorem strictText_eq_valid_iff : strictText v = .valid s ↔ v = .text s := by
  cases v <;> simp [strictText, Checked.issue]

theorem laxText_eq_valid_iff : laxText v = .valid s ↔ v.Spells s := by
  cases v with
  | text t => simp [laxText]
  | bytes fixed octets =>
    have hread := @fromUTF8?_eq_some_iff octets s
    rw [laxText, ofOctets, Value.bytes_spells_iff, ← hread]
    cases String.fromUTF8? octets <;> simp [Checked.issue]
  | _ => simp [laxText, Checked.issue, Value.Spells]

theorem itemsFrom_laxText_eq_valid_iff {index : Nat} {vs : List Value} {ts : List String} :
    itemsFrom laxText index vs = .valid ts ↔ List.Forall₂ Value.Spells vs ts := by
  induction vs generalizing index ts with
  | nil => simp [itemsFrom, eq_comm]
  | cons v vs ih =>
    rw [itemsFrom, Checked.map_eq, Checked.seq_eq, Checked.apply_eq_valid_iff,
      List.forall₂_cons_left_iff]
    simp only [Checked.map_eq_valid_iff, Checked.under_eq_valid_iff, laxText_eq_valid_iff, ih]
    constructor
    · rintro ⟨_, us, ⟨t, ht, rfl⟩, hus, rfl⟩
      exact ⟨t, us, ht, hus, rfl⟩
    · rintro ⟨t, us, ht, hus, rfl⟩
      exact ⟨_, us, ⟨t, ht, rfl⟩, hus, rfl⟩

end Reader

/-- What a user may be known by: a text, or the octets of one, which nothing can change. -/
inductive Name where
  | text (s : String)
  | octets (s : String)
deriving DecidableEq

namespace Name

def value : Name → Value
  | text s => .text s
  | octets s => .bytes true s.toByteArray

/-- The text that a name is read as. -/
def string : Name → String
  | text s => s
  | octets s => s

/-- The name that a value is, if it is one. -/
def ofValue? : Value → Option Name
  | .text s => some (text s)
  | .bytes true octs => (String.fromUTF8? octs).map octets
  | _ => none

variable {n k : Name} {v : Value}

@[simp] theorem ofValue?_eq_some_iff : ofValue? v = some n ↔ v = n.value := by
  cases v with
  | text s => cases n <;> simp [ofValue?, value]
  | bytes fixed octs =>
    cases fixed with
    | false => cases n <;> simp [ofValue?, value]
    | true => cases n <;> simp [ofValue?, value, fromUTF8?_eq_some_iff]
  | _ => cases n <;> simp [ofValue?, value]

theorem value_injective : Function.Injective value := by
  intro n k h
  have hn : ofValue? k.value = some n := ofValue?_eq_some_iff.2 h.symm
  rw [ofValue?_eq_some_iff.2 rfl] at hn
  exact (Option.some.inj hn).symm

theorem text_injective : Function.Injective text := fun _ _ h => text.inj h

theorem spells_value (n : Name) : n.value.Spells n.string := by
  cases n with
  | text s => exact .inl rfl
  | octets s => exact .inr ⟨true, rfl⟩

/-- Names are read as texts, each as its own. -/
theorem forall₂_spells_iff {ns : List Name} {ts : List String} :
    List.Forall₂ Value.Spells (ns.map value) ts ↔ ts = ns.map string := by
  rw [List.forall₂_map_left_iff]
  induction ns generalizing ts with
  | nil => simp
  | cons n ns ih =>
    rw [List.forall₂_cons_left_iff, List.map_cons]
    constructor
    · rintro ⟨t, us, ht, hus, rfl⟩
      rw [ih.1 hus, n.spells_value.unique ht]
    · rintro rfl
      exact ⟨_, _, n.spells_value, ih.2 rfl, rfl⟩

@[simp] theorem isKey_value (n : Name) : n.value.isKey = true := by
  cases n <;> simp [value, Value.isKey]

/-- Of the keys only the name itself is the same as a name. -/
theorem value_same_iff (hv : v.isKey = true) : n.value.same v = true ↔ v = n.value := by
  cases n with
  | text s => exact Value.text_same_iff
  | octets s =>
    cases v with
    | bytes fixed octs =>
      have hfixed : fixed = true := by simpa [Value.isKey] using hv
      simp [value, Value.same, hfixed, ByteArray.ext_iff, eq_comm]
    | _ => simp [value, Value.same]

@[simp] theorem same_value (n k : Name) : n.value.same k.value = decide (n = k) := by
  rw [Bool.eq_iff_iff, value_same_iff (isKey_value k), decide_eq_true_eq, eq_comm]
  exact value_injective.eq_iff

theorem memberOf_names {ns : List Name} : n.value.memberOf (ns.map value) = true ↔ n ∈ ns := by
  rw [Value.memberOf, List.any_map, List.any_eq_true]
  simp

theorem eq_text_of_forall_ne (h : ∀ octets, n.value ≠ .bytes true octets) : n = text n.string := by
  cases n with
  | text s => rfl
  | octets s => exact absurd rfl (h _)

theorem eq_text_of_not_isOctets (h : ¬ n.value.IsOctets) : n = text n.string :=
  eq_text_of_forall_ne fun octets heq => h ⟨true, octets, heq⟩

/-- What is read as a text and can be a key is a name. -/
theorem exists_of_spells {s : String} (h : v.Spells s) (hv : v.isKey = true) :
    ∃ n : Name, v = n.value ∧ n.string = s := by
  rcases h with rfl | ⟨fixed, rfl⟩
  · exact ⟨text s, rfl, rfl⟩
  · have hfixed : fixed = true := by simpa [Value.isKey] using hv
    exact ⟨octets s, by rw [hfixed]; rfl, rfl⟩

end Name

end FreelanceBoard
