import FreelanceBoard.Proofs.Values
import FreelanceBoard.Store.Memory

/-! Collections of a store in memory, whatever their records are: what is found under a key, what is
put there, and what is left when a key is taken out. -/
namespace FreelanceBoard

namespace Value

/-- Only what marks a point is the same as a number. -/
theorem point?_of_same {v w : Value} {p : Extended} (h : v.same w = true) (hw : w.point? = some p) :
    v.point? = some p := by
  cases hv : v.point? with
  | some q =>
    have hq := (same_iff_of_point? hv).1 h
    rw [← hq, hw]
  | none =>
    cases v with
    | bool b => cases hv
    | int n => cases hv
    | float x =>
      have hx : x.point? = none := hv
      simp [same, hx] at h
    | _ => cases w <;> simp_all [same, point?]

theorem same_null_iff {v : Value} : v.same .null = true ↔ v = .null := by
  cases v with
  | float x => cases h : x.point? <;> simp [same, point?, h]
  | _ => simp [same, point?]

mutual

/-- Of keys that are the same as a third value the first is the same as the second. -/
theorem same_of_same {a b c : Value} (ha : a.isKey = true) (hac : a.same c = true)
    (hbc : b.same c = true) : a.same b = true := by
  match a with
  | .null =>
    cases c with
    | null => rw [same_null_iff.1 hbc, same_null_iff]
    | _ => simp [same] at hac
  -- numbers and truth values are the same where they mark the same point
  | .bool x =>
    have hc := (same_iff_of_point? (v := .bool x) rfl).1 hac
    exact (same_iff_of_point? rfl).2 (point?_of_same hbc hc)
  | .int n =>
    have hc := (same_iff_of_point? (v := .int n) rfl).1 hac
    exact (same_iff_of_point? rfl).2 (point?_of_same hbc hc)
  | .float x =>
    cases hx : x.point? with
    | none => simp [same, hx] at hac
    | some p =>
      have hv : (Value.float x).point? = some p := hx
      have hc := (same_iff_of_point? hv).1 hac
      exact (same_iff_of_point? hv).2 (point?_of_same hbc hc)
  | .text s =>
    have hc := text_same_iff.1 hac
    rw [hc] at hbc
    exact text_same_iff.2 (same_text_iff.1 hbc)
  | .bytes _ octets =>
    cases c with
    | bytes _ _ =>
      cases b with
      | bytes _ _ => simp_all [same]
      | float x => cases h : x.point? <;> simp [same, point?, h] at hbc
      | _ => simp [same, point?] at hbc
    | _ => simp [same] at hac
  | .tuple xs =>
    cases c with
    | tuple zs =>
      cases b with
      | tuple ys =>
        simp only [same, isKey] at *
        exact sameItems_of_sameItems ha hac hbc
      | float x => cases h : x.point? <;> simp [same, point?, h] at hbc
      | _ => simp [same, point?] at hbc
    | _ => simp [same] at hac
  | .list xs => simp [isKey] at ha
  | .set xs => simp [isKey] at ha
  | .object fs => simp [isKey] at ha
termination_by structural a

theorem sameItems_of_sameItems {as bs cs : List Value} (ha : areKeys as = true)
    (hac : sameItems as cs = true) (hbc : sameItems bs cs = true) : sameItems as bs = true := by
  match as, bs, cs with
  | [], [], _ => simp [sameItems]
  | [], _ :: _, [] => simp [sameItems] at hbc
  | [], _ :: _, _ :: _ => simp [sameItems] at hac
  | _ :: _, _, [] => simp [sameItems] at hac
  | _ :: _, [], _ :: _ => simp [sameItems] at hbc
  | a :: as, b :: bs, c :: cs =>
    simp only [sameItems, areKeys, Bool.and_eq_true] at *
    exact ⟨same_of_same ha.1 hac.1 hbc.1, sameItems_of_sameItems ha.2 hac.2 hbc.2⟩
termination_by structural as

end

end Value

namespace Entries

variable {es : Entries} {key : Value} {e : Entry}

theorem same_of_slotOf? (h : es.slotOf? key = some e) : e.key.same key = true := by
  have hsame := List.find?_some h
  simpa using hsame

theorem mem_of_slotOf? (h : es.slotOf? key = some e) : e ∈ es := List.mem_of_find?_eq_some h

/-- Apart from what is under its key, a record that is put changes nothing. -/
theorem erase_put {r : Fields} (h : es.slotOf? key = none → key.same key = true) :
    (es.put key r).erase key = es.erase key := by
  induction es with
  | nil =>
    have hkey := h rfl
    by_cases hisKey : key.isKey = true
    · simp [erase, hisKey, hkey]
    · simp [erase, hisKey]
  | cons f rest ih =>
    by_cases hf : f.key.same key = true
    · simp [put, erase, hf]
    · rw [slotOf?_cons_of_not_same hf] at h
      have hrest := ih h
      simpa [put, erase, hf] using hrest

/-- The rest of the entries have other keys than the first. -/
theorem DistinctKeys.not_same {a : Entry} {rest : Entries} (h : DistinctKeys (a :: rest))
    (ha : a.key.same key = true) (he : e ∈ rest) : ¬ e.key.same key = true := by
  intro hsame
  have hboth := Value.same_of_same (h.isKey a List.mem_cons_self) ha hsame
  rw [(List.pairwise_cons.1 h.distinct).1 e he] at hboth
  cases hboth

theorem DistinctKeys.tail {a : Entry} {rest : Entries} (h : DistinctKeys (a :: rest)) :
    rest.DistinctKeys :=
  ⟨fun e he => h.isKey e (List.mem_cons_of_mem _ he), (List.pairwise_cons.1 h.distinct).2⟩

/-- Under a key there is one record at most. -/
theorem DistinctKeys.eq_of_same {f : Entry} (h : es.DistinctKeys) (hf : es.slotOf? key = some f)
    (he : e ∈ es) (hsame : e.key.same key = true) : e = f := by
  induction es with
  | nil => cases he
  | cons a rest ih =>
    by_cases ha : a.key.same key = true
    · rw [slotOf?_cons_of_same ha] at hf
      cases hf
      rcases List.mem_cons.1 he with rfl | he
      · rfl
      · exact absurd hsame (h.not_same ha he)
    · rw [slotOf?_cons_of_not_same ha] at hf
      rcases List.mem_cons.1 he with rfl | he
      · exact absurd hsame ha
      · exact ih h.tail hf he

end Entries

namespace Memory

theorem distinctKeys (m : Memory) (name : String) : (m.entries name).DistinctKeys :=
  (m.table name).keys

end Memory

end FreelanceBoard
