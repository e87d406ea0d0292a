import FreelanceBoard.Proofs.Tables

/-! The records of a collection in memory and the keys they are filed under. A call moves nothing but
the record that it names; and as long as no update gives a record another id, every record that is
listed is found under the id it has, so that no two of a collection have the same. -/
namespace FreelanceBoard

namespace Value

mutual

theorem same_self_of_same {a b : Value} (ha : a.isKey = true) (h : a.same b = true) :
    b.same b = true := by
  match a with
  | .null =>
    cases b with
    | null => exact h
    | _ => simp [same] at h
  | .bool x =>
    have hpoint : (Value.bool x).point? = some (Extended.ofInt (if x then 1 else 0)) := rfl
    exact (same_iff_of_point? ((same_iff_of_point? hpoint).1 h)).2 ((same_iff_of_point? hpoint).1 h)
  | .int n =>
    have hpoint : (Value.int n).point? = some (Extended.ofInt n) := rfl
    exact (same_iff_of_point? ((same_iff_of_point? hpoint).1 h)).2 ((same_iff_of_point? hpoint).1 h)
  | .float x =>
    cases hx : x.point? with
    | none => simp [same, hx] at h
    | some p =>
      have hpoint : (Value.float x).point? = some p := hx
      exact (same_iff_of_point? ((same_iff_of_point? hpoint).1 h)).2 ((same_iff_of_point? hpoint).1 h)
  | .text s =>
    rw [text_same_iff.1 h]
    exact text_same_iff.2 rfl
  | .bytes fixed octets =>
    cases b with
    | bytes fixed' octets' => simp [same]
    | _ => simp [same] at h
  | .tuple xs =>
    cases b with
    | tuple ys =>
      simp only [same, isKey] at *
      exact sameItems_self_of_sameItems ha h
    | _ => simp [same] at h
  | .list xs => simp [isKey] at ha
  | .set xs => simp [isKey] at ha
  | .object fs => simp [isKey] at ha
termination_by structural a

theorem sameItems_self_of_sameItems {as bs : List Value} (ha : areKeys as = true)
    (h : sameItems as bs = true) : sameItems bs bs = true := by
  match as, bs with
  | [], [] => simp [sameItems]
  | [], _ :: _ => simp [sameItems] at h
  | _ :: _, [] => simp [sameItems] at h
  | a :: as, b :: bs =>
    simp only [sameItems, areKeys, Bool.and_eq_true] at *
    exact ⟨same_self_of_same ha.1 h.1, sameItems_self_of_sameItems ha.2 h.2⟩
termination_by structural as

end

end Value

namespace Fields

/-- What stands under a key after changes was there before, or is one of the changes. -/
theorem lookup_putAll_cases (fields changes : Fields) (key : String) :
    (fields.putAll changes).lookup key = fields.lookup key ∨
      ∃ v, (key, v) ∈ changes ∧ (fields.putAll changes).lookup key = some v := by
  induction changes generalizing fields with
  | nil => exact .inl rfl
  | cons change changes ih =>
    obtain ⟨k, v⟩ := change
    rw [putAll_cons]
    rcases ih (fields.put k v) with hsame | ⟨w, hw, hnew⟩
    · by_cases hk : key = k
      · subst hk
        rw [lookup_put_self] at hsame
        exact .inr ⟨v, List.mem_cons_self, hsame⟩
      · rw [lookup_put_of_ne _ _ hk] at hsame
        exact .inl hsame
    · exact .inr ⟨w, List.mem_cons_of_mem _ hw, hnew⟩

end Fields

namespace Entries

variable {es fs : Entries} {key : Value} {r : Fields} {e : Entry}

/-- Entries that have changed at most in one place, where both times there is nothing or a record that
is filed under the key. -/
def ChangesOnlyAt (key : Value) (es fs : Entries) : Prop :=
  ∃ before old new after, es = before ++ old ++ after ∧ fs = before ++ new ++ after ∧
    old.length ≤ 1 ∧ new.length ≤ 1 ∧ ∀ e ∈ old ++ new, e.key = key ∨ e.key.same key = true

theorem ChangesOnlyAt.refl (key : Value) (es : Entries) : ChangesOnlyAt key es es :=
  ⟨es, [], [], [], by simp, by simp, by simp, by simp, by simp⟩

theorem ChangesOnlyAt.cons (h : ChangesOnlyAt key es fs) (e : Entry) :
    ChangesOnlyAt key (e :: es) (e :: fs) := by
  obtain ⟨before, old, new, after, rfl, rfl, hplace⟩ := h
  exact ⟨e :: before, old, new, after, rfl, rfl, hplace⟩

theorem changesOnlyAt_put (es : Entries) (key : Value) (r : Fields) :
    ChangesOnlyAt key es (es.put key r) := by
  induction es with
  | nil =>
    by_cases hkey : key.isKey = true
    · exact ⟨[], [], [⟨key, r⟩], [], rfl, by simp [hkey], by simp, by simp, by simp⟩
    · rw [put_nil, if_neg hkey]
      exact .refl key []
  | cons e rest ih =>
    rw [put]
    by_cases he : e.key.same key = true
    · rw [if_pos he]
      exact ⟨[], [e], [⟨e.key, r⟩], rest, rfl, rfl, by simp, by simp, by simp [he]⟩
    · rw [if_neg he]
      exact ih.cons e

theorem changesOnlyAt_erase (h : es.DistinctKeys) (key : Value) :
    ChangesOnlyAt key es (es.erase key) := by
  induction es with
  | nil => exact .refl key []
  | cons e rest ih =>
    by_cases he : e.key.same key = true
    · have hrest : erase rest key = rest :=
        List.filter_eq_self.2 fun f hf => by simpa using h.not_same he hf
      refine ⟨[], [e], [], rest, rfl, ?_, by simp, by simp, by simp [he]⟩
      rw [erase, List.filter_cons_of_neg (by simp [he])]
      exact hrest
    · have hkept : erase (e :: rest) key = e :: erase rest key := List.filter_cons_of_pos (by simpa using he)
      rw [hkept]
      exact (ih h.tail).cons e

theorem mem_put (h : e ∈ es.put key r) :
    e ∈ es ∨ (∃ f ∈ es, f.key.same key = true ∧ e = ⟨f.key, r⟩) ∨
      es.slotOf? key = none ∧ e = ⟨key, r⟩ := by
  induction es with
  | nil =>
    by_cases hkey : key.isKey = true
    · rw [put_nil, if_pos hkey] at h
      exact .inr (.inr ⟨rfl, List.mem_singleton.1 h⟩)
    · rw [put_nil, if_neg hkey] at h
      cases h
  | cons f rest ih =>
    rw [put] at h
    by_cases hf : f.key.same key = true
    · rw [if_pos hf] at h
      rcases List.mem_cons.1 h with rfl | h
      · exact .inr (.inl ⟨f, List.mem_cons_self, hf, rfl⟩)
      · exact .inl (List.mem_cons_of_mem _ h)
    · rw [if_neg hf] at h
      rcases List.mem_cons.1 h with rfl | h
      · exact .inl List.mem_cons_self
      · rcases ih h with h | ⟨g, hg, hsame, rfl⟩ | ⟨hnone, rfl⟩
        · exact .inl (List.mem_cons_of_mem _ h)
        · exact .inr (.inl ⟨g, List.mem_cons_of_mem _ hg, hsame, rfl⟩)
        · exact .inr (.inr ⟨by rw [slotOf?_cons_of_not_same hf, hnone], rfl⟩)

end Entries

namespace Table

variable {t : Table} {key id : Value} {r : Fields} {e : Entry}

/-- An id under which a record may be filed, and will be if it is the same as itself. -/
structure FiledUnder (key id : Value) : Prop where
  isKey : id.isKey = true
  same : id.same id = true → key.same id = true

/-- Every record is filed under the id that it has. -/
def Filed (t : Table) : Prop :=
  ∀ e ∈ t.entries, ∃ id, e.record.lookup "id" = some id ∧ FiledUnder e.key id

theorem Filed.put (h : t.Filed) (hid : r.lookup "id" = some id)
    (hold : ∀ e ∈ t.entries, e.key.same key = true → FiledUnder e.key id)
    (hnew : t.entries.slotOf? key = none → FiledUnder key id) : (t.put key r).Filed := by
  intro e he
  rcases Entries.mem_put he with he | ⟨f, hf, hsame, rfl⟩ | ⟨hnone, rfl⟩
  · exact h e he
  · exact ⟨id, hid, hold f hf hsame⟩
  · exact ⟨id, hid, hnew hnone⟩

theorem Filed.put_ownId (h : t.Filed) (hkey : key.isKey = true) (hid : r.lookup "id" = some key) :
    (t.put key r).Filed :=
  h.put hid (fun _ _ hsame => ⟨hkey, fun _ => hsame⟩) fun _ => ⟨hkey, fun hself => hself⟩

theorem Filed.update {changes : Fields} (h : t.Filed) (hslot : t.entries.slotOf? key = some e)
    (hchanges : ∀ v, ("id", v) ∈ changes → v.isKey = true ∧ v.same key = true) :
    (t.put key (e.record.putAll changes)).Filed := by
  obtain ⟨id, hid, hfiled⟩ := h e (Entries.mem_of_slotOf? hslot)
  have hthere : t.entries.slotOf? key ≠ none := by simp [hslot]
  rcases Fields.lookup_putAll_cases e.record changes "id" with hsame | ⟨v, hv, hnew⟩
  · refine h.put (hsame.trans hid) (fun f hf hfkey => ?_) fun hnone => absurd hnone hthere
    rw [t.keys.eq_of_same hslot hf hfkey]
    exact hfiled
  · refine h.put hnew (fun f hf hfkey => ?_) fun hnone => absurd hnone hthere
    obtain ⟨hv, hsame⟩ := hchanges v hv
    exact ⟨hv, fun _ => Value.same_of_same (t.keys.isKey f hf) hfkey hsame⟩

theorem Filed.erase (h : t.Filed) (key : Value) : (t.erase key).Filed :=
  fun e he => h e (List.mem_of_mem_filter he)

theorem Filed.slotOf?_eq (h : t.Filed) (he : e ∈ t.entries) (hid : e.record.lookup "id" = some id)
    (hself : id.same id = true) : id.isKey = true ∧ t.entries.slotOf? id = some e := by
  obtain ⟨id', hid', hfiled⟩ := h e he
  rw [hid, Option.some.injEq] at hid'
  subst hid'
  have hsame := hfiled.same hself
  refine ⟨hfiled.isKey, ?_⟩
  cases hslot : t.entries.slotOf? id with
  | some f => rw [t.keys.eq_of_same hslot he hsame]
  | none =>
    rw [Entries.slotOf?_eq_none_iff.1 hslot e he] at hsame
    cases hsame

theorem Filed.distinctIds (h : t.Filed) :
    t.entries.records.Pairwise fun v w => (v.child "id").same (w.child "id") = false := by
  have hpairs : t.entries.Pairwise fun e f =>
      (Fields.get e.record "id").same (Fields.get f.record "id") = false := by
    refine t.keys.distinct.imp_of_mem fun {e f} he hf hdistinct => ?_
    obtain ⟨id, hid, hfiled⟩ := h e he
    obtain ⟨id', hid', hfiled'⟩ := h f hf
    rw [Fields.get_of_lookup hid, Fields.get_of_lookup hid']
    by_contra hne
    have hsame : id.same id' = true := by simpa using hne
    have hself := Value.same_of_same hfiled.isKey hsame hsame
    have hself' := Value.same_self_of_same hfiled.isKey hsame
    -- both keys are the same as the second id
    have hkey := Value.same_of_same (t.keys.isKey f hf) (hfiled'.same hself') hsame
    have hkeys := Value.same_of_same (t.keys.isKey e he) (hfiled.same hself) hkey
    rw [hdistinct] at hkeys
    cases hkeys
  exact List.pairwise_map.2 hpairs

end Table

namespace StoreCall

/-- The collection and the id that a call names, of those that write. -/
def target? : StoreCall → Option (String × Value)
  | .insert name r => (r.lookup "id").map fun id => (name, id)
  | .update name id _ => some (name, id)
  | .delete name id => some (name, id)
  | _ => none

/-- Whether a call leaves the record that it names its id. -/
def KeepsId : StoreCall → Prop
  | .update _ id changes => ∀ v, ("id", v) ∈ changes → v.isKey = true ∧ v.same id = true
  | _ => True

end StoreCall

namespace Memory

variable {m : Memory} {c : StoreCall} {name : String}

def after (m : Memory) (c : StoreCall) : Memory := (handle c m).2

def afterAll (m : Memory) (calls : List StoreCall) : Memory := calls.foldl after m

/-- A call that writes leaves every other collection, and of the named one every other record and the
order; a call that reads leaves everything. -/
def ChangesOnlyTarget (m n : Memory) (c : StoreCall) : Prop :=
  match c.target? with
  | none => n = m
  | some (name, id) => (∀ other, other ≠ name → n.entries other = m.entries other) ∧
    Entries.ChangesOnlyAt id (m.entries name) (n.entries name)

theorem ChangesOnlyTarget.setTable {id : Value} {t : Table} (hc : c.target? = some (name, id))
    (h : Entries.ChangesOnlyAt id (m.entries name) t.entries) :
    ChangesOnlyTarget m (m.setTable name t) c := by
  rw [ChangesOnlyTarget, hc]
  refine ⟨fun other hother => entries_setTable_of_ne m t hother, ?_⟩
  rwa [entries_setTable_self]

theorem ChangesOnlyTarget.refl (m : Memory) (c : StoreCall) : ChangesOnlyTarget m m c := by
  rw [ChangesOnlyTarget]
  cases c.target? with
  | none => rfl
  | some target => exact ⟨fun _ _ => rfl, .refl _ _⟩

/-- What a call makes of a store: nothing new, a record put under a key, or one taken out. -/
theorem after_cases (m : Memory) (c : StoreCall) :
    m.after c = m ∨
    (∃ name r id, c = .insert name r ∧ r.lookup "id" = some id ∧ id.isKey = true ∧
      m.after c = m.setTable name ((m.table name).put id r)) ∨
    (∃ name id changes e, c = .update name id changes ∧ id.isKey = true ∧
      (m.entries name).slotOf? id = some e ∧
      m.after c = m.setTable name ((m.table name).put id (e.record.putAll changes))) ∨
    ∃ name id, c = .delete name id ∧ m.after c = m.setTable name ((m.table name).erase id) := by
  cases c with
  | insert name r =>
    rw [after, handle, insert]
    cases hid : r.lookup "id" with
    | none => exact .inl rfl
    | some id =>
      by_cases hkey : id.isKey = true
      · exact .inr (.inl ⟨name, r, id, rfl, hid, hkey, by simp [hkey]⟩)
      · exact .inl (by simp [hkey])
  | update name id changes =>
    rw [after, handle, update, lookup]
    by_cases hkey : id.isKey = true
    · cases hslot : (m.entries name).slotOf? id with
      | none => exact .inl (by simp [hkey])
      | some e => exact .inr (.inr (.inl ⟨name, id, changes, e, rfl, hkey, hslot, by simp [hkey]⟩))
    · exact .inl (by simp [hkey])
  | delete name id =>
    rw [after, handle, delete, lookup]
    by_cases hempty : (m.entries name).isEmpty = true
    · exact .inl (by simp [hempty])
    · by_cases hkey : id.isKey = true
      · cases hslot : (m.entries name).slotOf? id with
        | none => exact .inl (by simp [hempty, hkey])
        | some e => exact .inr (.inr (.inr ⟨name, id, rfl, by simp [hempty, hkey]⟩))
      · exact .inl (by simp [hempty, hkey])
  | _ => exact .inl rfl

def Filed (m : Memory) : Prop := ∀ name, (m.table name).Filed

theorem Filed.setTable {t : Table} (h : m.Filed) (ht : t.Filed) : (m.setTable name t).Filed := by
  intro other
  by_cases hother : other = name
  · rwa [hother, table_setTable_self]
  · rw [table_setTable_of_ne m t hother]
    exact h other

theorem changesOnlyTarget_after (m : Memory) (c : StoreCall) : ChangesOnlyTarget m (m.after c) c := by
  rcases m.after_cases c with hafter | ⟨name, r, id, rfl, hid, -, hafter⟩ |
    ⟨name, id, changes, e, rfl, -, -, hafter⟩ | ⟨name, id, rfl, hafter⟩ <;> rw [hafter]
  · exact .refl m c
  · exact .setTable (by rw [StoreCall.target?, hid]; rfl) (Entries.changesOnlyAt_put _ id r)
  · exact .setTable rfl (Entries.changesOnlyAt_put _ id _)
  · exact .setTable rfl (Entries.changesOnlyAt_erase (m.distinctKeys name) id)

theorem Filed.after (h : m.Filed) (hc : c.KeepsId) : (m.after c).Filed := by
  rcases m.after_cases c with hafter | ⟨name, r, id, -, hid, hkey, hafter⟩ |
    ⟨name, id, changes, e, rfl, hkey, hslot, hafter⟩ | ⟨name, id, -, hafter⟩ <;> rw [hafter]
  · exact h
  · exact h.setTable ((h name).put_ownId hkey hid)
  · exact h.setTable ((h name).update hslot hc)
  · exact h.setTable ((h name).erase id)

theorem Filed.of_add {n : Memory} {record : Value} (h : m.Filed)
    (hadd : m.add name record = .ok n) : n.Filed := by
  cases record with
  | object r =>
    rw [add] at hadd
    cases hid : r.lookup "id" with
    | none => simp [hid] at hadd
    | some id =>
      by_cases hkey : id.isKey = true
      · simp only [hid, hkey, if_true, Except.ok.injEq] at hadd
        exact hadd ▸ h.setTable ((h name).put_ownId hkey hid)
      · simp [hid, hkey] at hadd
  | _ => cases hadd

theorem of_foldlM {σ α : Type} {P : σ → Prop} {step : σ → α → Except Fault σ}
    (hstep : ∀ {s a t}, P s → step s a = .ok t → P t) {as : List α} {s t : σ} (hs : P s)
    (h : as.foldlM step s = .ok t) : P t := by
  induction as generalizing s with
  | nil =>
    cases h
    exact hs
  | cons a as ih =>
    rw [List.foldlM_cons] at h
    cases ha : step s a with
    | error f =>
      rw [ha] at h
      cases h
    | ok u =>
      rw [ha] at h
      exact ih (hstep hs ha) h

theorem Filed.of_collections {collections : Fields} (h : ofCollections collections = .ok m) :
    m.Filed := by
  have hempty : empty.Filed := fun name e he => nomatch he
  refine of_foldlM (fun {s a t} hs hstep => ?_) hempty h
  cases hrecords : a.2.elements with
  | error f =>
    simp only [hrecords] at hstep
    cases hstep
  | ok records =>
    simp only [hrecords] at hstep
    exact of_foldlM (fun hm hadd => Filed.of_add hm hadd) hs hstep

theorem Filed.afterAll {calls : List StoreCall} (h : m.Filed) (hcalls : ∀ c ∈ calls, c.KeepsId) :
    (m.afterAll calls).Filed := by
  induction calls generalizing m with
  | nil => exact h
  | cons c calls ih =>
    exact ih (h.after (hcalls c List.mem_cons_self))
      fun d hd => hcalls d (List.mem_cons_of_mem _ hd)

theorem mem_contents_of_find {predicate : Option Predicate} {found : List Value} {v : Value}
    (h : (handle (.find name predicate) m).1 = .ok found) (hv : v ∈ found) : v ∈ m.contents name := by
  cases predicate with
  | none =>
    cases h
    exact hv
  | some p =>
    cases hselect : Value.keepIf p.admits (m.contents name) with
    | error f => simp [handle, select, hselect, Fault.lift] at h
    | ok kept =>
      simp only [handle, select, hselect, Fault.lift, Except.ok.injEq] at h
      exact Value.mem_of_keepIf hselect (h ▸ hv)

theorem Filed.findById {v : Value} (h : m.Filed) (hv : v ∈ m.contents name) :
    ∃ r id, v = .object r ∧ r.lookup "id" = some id ∧
      (id.same id = true → (handle (.findById name id) m).1 = .ok (some v)) := by
  obtain ⟨e, he, rfl⟩ := List.mem_map.1 hv
  obtain ⟨id, hid, -⟩ := h name e he
  refine ⟨e.record, id, rfl, hid, fun hself => ?_⟩
  obtain ⟨hkey, hslot⟩ := (h name).slotOf?_eq he hid hself
  simp [handle, lookup, entries, hkey, hslot, Except.map]

/-- Whatever is written to a store, a call leaves everything but the record that it names. As long as
no update gives a record another id, every record that is listed is the one that is found under its
own id, and no two records of a collection have the same. -/
theorem reachable_filed {collections : Fields} (hm : ofCollections collections = .ok m)
    (calls : List StoreCall) :
    (∀ c, ChangesOnlyTarget (m.afterAll calls) ((m.afterAll calls).after c) c) ∧
    ((∀ c ∈ calls, c.KeepsId) → ∀ name,
      (∀ predicate found, (handle (.find name predicate) (m.afterAll calls)).1 = .ok found →
        ∀ v ∈ found, ∃ r id, v = .object r ∧ r.lookup "id" = some id ∧ (id.same id = true →
          (handle (.findById name id) (m.afterAll calls)).1 = .ok (some v))) ∧
      ((m.afterAll calls).contents name).Pairwise fun v w =>
        (v.child "id").same (w.child "id") = false) := by
  have hfiled := Filed.of_collections hm
  refine ⟨fun c => changesOnlyTarget_after _ c, fun hcalls name => ?_⟩
  have hafter := hfiled.afterAll hcalls
  refine ⟨fun predicate found hfound v hv => ?_, (hafter name).distinctIds⟩
  exact hafter.findById (mem_contents_of_find hfound hv)

/-- A user who is given a name is still found under the id. -/
theorem reachable_filed_renamed :
    let m : Memory := .holding [("users", [⟨.text "U1", [("id", .text "U1")]⟩])]
    let calls : List StoreCall := [.insert "users" [("id", .text "U2")],
      .update "users" (.text "U1") [("name", .text "Ann")], .delete "users" (.text "U2")]
    ofCollections [("users", .list [.object [("id", .text "U1")]])] = .ok m ∧
      (∀ c ∈ calls, c.KeepsId) ∧
      (handle (.findById "users" (.text "U1")) (m.afterAll calls)).1 =
        .ok (some (.object [("id", .text "U1"), ("name", .text "Ann")])) := by
  intro m calls
  have hm : ofCollections [("users", .list [.object [("id", .text "U1")]])] = .ok m := rfl
  have hcalls : ∀ c ∈ calls, c.KeepsId := by simp [calls, StoreCall.KeepsId]
  have hlisted : (handle (.find "users" none) (m.afterAll calls)).1 =
      .ok [.object [("id", .text "U1"), ("name", .text "Ann")]] := rfl
  obtain ⟨r, id, hv, hid, hfound⟩ :=
    ((reachable_filed hm calls).2 hcalls "users").1 none _ hlisted _ List.mem_cons_self
  cases hv
  cases hid
  exact ⟨hm, hcalls, hfound rfl⟩

/-- An update may give a record the id of no record or of another one, and leaves it filed where it
was: then it is not found under the id that it has, or is one of two that have it. -/
theorem changed_id_not_refiled :
    let created : List StoreCall := [.insert "users" [("id", .text "U1")]]
    let renamed : StoreCall := .update "users" (.text "U1") [("id", .text "U2")]
    let m := empty.afterAll (created ++ [renamed])
    let n := empty.afterAll (created ++ [.insert "users" [("id", .text "U2")], renamed])
    ofCollections [] = .ok empty ∧
      (handle (.find "users" none) m).1 = .ok [.object [("id", .text "U2")]] ∧
      (handle (.findById "users" (.text "U2")) m).1 = .ok none ∧
      n.contents "users" = [.object [("id", .text "U2")], .object [("id", .text "U2")]] :=
  ⟨rfl, rfl, rfl, rfl⟩

end Memory

end FreelanceBoard
