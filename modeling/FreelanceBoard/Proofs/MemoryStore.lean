import FreelanceBoard.Proofs.RecordStore
import FreelanceBoard.Store.Memory

/-! A store in memory is one that the catalog can rely on. -/
namespace FreelanceBoard

/-- A record as an entry of a collection. -/
def Fields.entry (r : Fields) : Entry := ⟨r.idName.value, r⟩

namespace Entries

variable {records : List Fields}

theorem slotOf?_value (records : List Fields) (id : Name) :
    slotOf? (records.map Fields.entry) id.value =
      (Keyed.find? Fields.idName id records).map Fields.entry := by
  rw [slotOf?, Keyed.find?, List.find?_map]
  congr 2
  funext r
  exact Name.same_value r.idName id

theorem slotOf?_of_ne_value (records : List Fields) {id : Value} (hid : id.isKey = true)
    (h : ∀ name : Name, id ≠ name.value) : slotOf? (records.map Fields.entry) id = none := by
  rw [slotOf?, List.find?_eq_none]
  intro e he hsame
  obtain ⟨r, -, rfl⟩ := List.mem_map.1 he
  exact h _ ((Name.value_same_iff hid).1 hsame)

theorem put_entry (records : List Fields) (r : Fields) :
    put (records.map Fields.entry) r.idName.value r =
      (Keyed.put Fields.idName r records).map Fields.entry := by
  induction records with
  | nil => exact if_pos r.idName.isKey_value
  | cons a as ih =>
    rw [List.map_cons, put, Keyed.put]
    by_cases h : a.idName = r.idName
    · have hsame : (Fields.entry a).key.same r.idName.value = true := by simp [Fields.entry, h]
      rw [if_pos hsame, if_pos h, List.map_cons]
      exact congrArg (fun k : Name => Entry.mk k.value r :: as.map Fields.entry) h
    · have hsame : ¬ (Fields.entry a).key.same r.idName.value = true := by simp [Fields.entry, h]
      rw [if_neg hsame, if_neg h, List.map_cons, ih]

theorem erase_entry (records : List Fields) (id : Name) :
    erase (records.map Fields.entry) id.value =
      (Keyed.erase Fields.idName id records).map Fields.entry := by
  rw [erase, Keyed.erase, List.filter_map]
  congr 2
  funext r
  simp [Fields.entry]

end Entries

namespace Memory

/-- The collections of a store hold given records, each under its id. -/
def Holds (m : Memory) (C : String → List Fields) : Prop :=
  ∀ name ∈ Collection.known, m.entries name = (C name).map Fields.entry ∧
    ∀ r ∈ C name, r.lookup "id" = some r.idName.value

variable {m : Memory} {C : String → List Fields} {name : String}

theorem Holds.contents (h : m.Holds C) (hname : name ∈ Collection.known) :
    m.contents name = (C name).map .object := by
  rw [Memory.contents, (h name hname).1, Entries.records, List.map_map]
  rfl

theorem Holds.setTable (h : m.Holds C) {t : Table} {records : List Fields}
    (ht : t.entries = records.map Fields.entry)
    (hrecords : ∀ r ∈ records, r.lookup "id" = some r.idName.value) :
    (m.setTable name t).Holds (Function.update C name records) := by
  intro other hother
  by_cases hne : other = name
  · rw [hne, entries_setTable_self, Function.update_self]
    exact ⟨ht, hrecords⟩
  · rw [entries_setTable_of_ne _ _ hne, Function.update_of_ne hne]
    exact h other hother

theorem Holds.lookup (h : m.Holds C) (hname : name ∈ Collection.known) (id : Value) :
    (m.lookup name id).map (fun e => e.map fun e => Value.object e.record) = lookupIn (C name) id := by
  rw [Memory.lookup, (h name hname).1]
  by_cases hid : ∃ k : Name, id = k.value
  · obtain ⟨k, rfl⟩ := hid
    rw [if_pos k.isKey_value, Entries.slotOf?_value, lookupIn_value]
    cases Keyed.find? Fields.idName k (C name) <;> rfl
  · have hne : ∀ k : Name, id ≠ k.value := fun k h => hid ⟨k, h⟩
    rw [lookupIn_of_ne_value _ hne]
    by_cases hkey : id.isKey = true
    · rw [if_pos hkey, if_pos hkey, Entries.slotOf?_of_ne_value _ hkey hne]
      rfl
    · rw [if_neg hkey, if_neg hkey]
      rfl

theorem holds_empty : empty.Holds Ledger.empty.contents := by
  intro name hname
  simp only [Collection.known, List.mem_cons, List.not_mem_nil, or_false] at hname
  rcases hname with rfl | rfl | rfl
  · exact ⟨rfl, fun r hr => by cases hr⟩
  · exact ⟨rfl, fun r hr => by cases hr⟩
  · exact ⟨rfl, fun r hr => by cases hr⟩

theorem Holds.lookup_value (h : m.Holds C) (hname : name ∈ Collection.known) (id : Name) :
    m.lookup name id.value = .ok ((Keyed.find? Fields.idName id (C name)).map Fields.entry) := by
  rw [Memory.lookup, if_pos id.isKey_value, (h name hname).1, Entries.slotOf?_value]

/-- What a collection holds after one more record has been put there. -/
theorem Holds.put (h : m.Holds C) (hname : name ∈ Collection.known) {r : Fields}
    (hid : r.lookup "id" = some r.idName.value) :
    (m.setTable name ((m.table name).put r.idName.value r)).Holds
      (Function.update C name (Keyed.put Fields.idName r (C name))) := by
  have hput : ((m.table name).put r.idName.value r).entries =
      (Keyed.put Fields.idName r (C name)).map Fields.entry := by
    rw [← Entries.put_entry, ← (h name hname).1]
    rfl
  refine h.setTable hput fun a ha => ?_
  rcases Keyed.mem_of_mem_put ha with rfl | ha
  · exact hid
  · exact (h name hname).2 a ha

theorem Holds.update (h : m.Holds C) (hname : name ∈ Collection.known) {id : Name}
    {r changes r' : Fields} (hr : Keyed.find? Fields.idName id (C name) = some r)
    (hput : r.putAll changes = r') (hid : r'.lookup "id" = some id.value) :
    ∃ t, t.Holds (Function.update C name (Keyed.put Fields.idName r' (C name))) ∧
      handle (.update name id.value changes) m = (.ok (some (.object r')), t) := by
  have hkey : r'.idName = id := Fields.idName_of_lookup hid
  refine ⟨_, h.put hname (hkey ▸ hid), ?_⟩
  rw [handle, Memory.update, h.lookup_value hname, hr, hkey]
  simp only [Option.map_some, Fields.entry, hput]

/-- A store in memory can be relied on, and whatever value may be looked up. -/
theorem serves : Serves (fun _ => True) handle Holds where
  findById {m C name id} h hname _ := ⟨m, h, by rw [handle, h.lookup hname]⟩
  find {m C name p keep} h hname _ hkeep := by
    refine ⟨m, (C name).filter keep, h, ?_, List.Perm.refl _⟩
    rw [handle, select, h.contents hname, Value.keepIf_map hkeep]
    rfl
  insert {m C name r} h hname hid _ := by
    refine ⟨_, h.put hname hid, ?_⟩
    rw [handle, Memory.insert, hid]
    exact if_pos r.idName.isKey_value
  update {m C name id r changes r'} h hname _ hr hput _ hid := h.update hname hr hput hid
  updateMissing {m C name id changes} h hname _ hr := by
    refine ⟨m, h, ?_⟩
    rw [handle, Memory.update, h.lookup_value hname, hr]
    rfl
  delete {m C name id r} h hname _ hr := by
    have hsome : (m.entries name).isEmpty = false := by
      rw [(h name hname).1, List.isEmpty_map, List.isEmpty_eq_false_iff]
      exact List.ne_nil_of_mem (Keyed.mem_of_find? hr)
    have herase : ((m.table name).erase id.value).entries =
        (Keyed.erase Fields.idName id (C name)).map Fields.entry := by
      rw [← Entries.erase_entry, ← (h name hname).1]
      rfl
    refine ⟨_, h.setTable herase fun a ha => (h name hname).2 a (List.mem_of_mem_filter ha), ?_⟩
    rw [handle, Memory.delete, hsome, h.lookup_value hname, hr]
    rfl

end Memory

end FreelanceBoard
