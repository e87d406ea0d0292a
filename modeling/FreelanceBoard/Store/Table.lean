import FreelanceBoard.Value

/-! The collections of a store in memory. A collection keeps its records in the order in which they
came, each under the id that it had then; its ids can be keys, and no two of them are the same. -/
namespace FreelanceBoard

structure Entry where
  key : Value
  record : Fields

abbrev Entries := List Entry

namespace Entries

def slotOf? (es : Entries) (key : Value) : Option Entry := List.find? (fun e => e.key.same key) es

def records (es : Entries) : List Value := es.map fun e => .object e.record

/-- Puts a record in the place of the one with the same key, or at the end if it can have a key there. -/
def put (es : Entries) (key : Value) (record : Fields) : Entries :=
  match es with
  | [] => if key.isKey then [⟨key, record⟩] else []
  | e :: rest => if e.key.same key then ⟨e.key, record⟩ :: rest else e :: put rest key record

def erase (es : Entries) (key : Value) : Entries := es.filter fun e => !e.key.same key

structure DistinctKeys (es : Entries) : Prop where
  isKey : ∀ e ∈ es, e.key.isKey = true
  distinct : es.Pairwise fun e f => e.key.same f.key = false

variable {es : Entries} {key : Value} {record : Fields} {e : Entry}

@[simp] theorem records_nil : records [] = [] := rfl

@[simp] theorem put_nil (key : Value) (record : Fields) :
    put [] key record = if key.isKey then [⟨key, record⟩] else [] := rfl

theorem slotOf?_cons_of_same {rest : Entries} (h : e.key.same key = true) :
    slotOf? (e :: rest) key = some e := List.find?_cons_of_pos h

theorem slotOf?_cons_of_not_same {rest : Entries} (h : ¬ e.key.same key = true) :
    slotOf? (e :: rest) key = slotOf? rest key := List.find?_cons_of_neg h

theorem slotOf?_eq_none_iff : es.slotOf? key = none ↔ ∀ e ∈ es, e.key.same key = false := by
  simp [slotOf?]

theorem put_of_slotOf?_eq_none (hkey : key.isKey = true) (record : Fields)
    (h : es.slotOf? key = none) : es.put key record = es ++ [⟨key, record⟩] := by
  induction es with
  | nil => exact if_pos hkey
  | cons e rest ih =>
    by_cases he : e.key.same key = true
    · rw [slotOf?_cons_of_same he] at h
      cases h
    · rw [slotOf?_cons_of_not_same he] at h
      rw [put, if_neg he, ih h, List.cons_append]

theorem put_of_not_isKey (hkey : ¬ key.isKey = true) (record : Fields)
    (h : es.slotOf? key = none) : es.put key record = es := by
  induction es with
  | nil => exact if_neg hkey
  | cons e rest ih =>
    by_cases he : e.key.same key = true
    · rw [slotOf?_cons_of_same he] at h
      cases h
    · rw [slotOf?_cons_of_not_same he] at h
      rw [put, if_neg he, ih h]

/-- A record put under a key that is there takes the place of the one it had. -/
theorem keys_put (h : es.slotOf? key = some e) :
    (es.put key record).map Entry.key = es.map Entry.key := by
  induction es with
  | nil => cases h
  | cons f rest ih =>
    by_cases hf : f.key.same key = true
    · simp [put, hf]
    · rw [slotOf?_cons_of_not_same hf] at h
      simp [put, hf, ih h]

namespace DistinctKeys

theorem of_keys {fs : Entries} (h : es.DistinctKeys) (hkeys : fs.map Entry.key = es.map Entry.key) :
    fs.DistinctKeys := by
  have hpairs : (es.map Entry.key).Pairwise fun k l => k.same l = false :=
    List.pairwise_map.2 h.distinct
  refine ⟨fun e he => ?_, List.pairwise_map.1 (hkeys ▸ hpairs)⟩
  have hmem : e.key ∈ es.map Entry.key := hkeys ▸ List.mem_map_of_mem he
  obtain ⟨f, hf, hkey⟩ := List.mem_map.1 hmem
  rw [← hkey]
  exact h.isKey f hf

theorem put (h : es.DistinctKeys) (key : Value) (record : Fields) :
    (es.put key record).DistinctKeys := by
  cases hslot : es.slotOf? key with
  | some e => exact h.of_keys (keys_put hslot)
  | none =>
    by_cases hkey : key.isKey = true
    · rw [put_of_slotOf?_eq_none hkey record hslot]
      refine ⟨fun e he => ?_, ?_⟩
      · rcases List.mem_append.1 he with he | he
        · exact h.isKey e he
        · rw [List.mem_singleton.1 he]
          exact hkey
      · rw [List.pairwise_append]
        refine ⟨h.distinct, List.pairwise_singleton _ _, fun e he f hf => ?_⟩
        rw [List.mem_singleton.1 hf]
        exact slotOf?_eq_none_iff.1 hslot e he
    · rwa [put_of_not_isKey hkey record hslot]

theorem erase (h : es.DistinctKeys) (key : Value) : (es.erase key).DistinctKeys :=
  ⟨fun e he => h.isKey e (List.mem_filter.1 he).1, h.distinct.filter _⟩

end DistinctKeys

end Entries

/-- A collection. -/
@[ext] structure Table where
  entries : Entries
  keys : entries.DistinctKeys

namespace Table

def empty : Table := ⟨[], nofun, .nil⟩

def put (t : Table) (key : Value) (record : Fields) : Table :=
  ⟨t.entries.put key record, t.keys.put key record⟩

def erase (t : Table) (key : Value) : Table := ⟨t.entries.erase key, t.keys.erase key⟩

/-- The table with other records under its keys. -/
def mapRecords (t : Table) (f : Entry → Fields) : Table :=
  ⟨t.entries.map fun e => ⟨e.key, f e⟩, t.keys.of_keys (by rw [List.map_map]; rfl)⟩

/-- The table that the entries come to when they are put one after the other. -/
def ofEntries (es : Entries) : Table := es.foldl (fun t e => t.put e.key e.record) empty

end Table

end FreelanceBoard
