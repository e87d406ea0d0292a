import FreelanceBoard.Proofs.Ledger
import FreelanceBoard.Proofs.QueryMeaning

/-! What the catalog relies on of a record store, whichever it is, and what a program comes to on
every store that can be relied on. -/
namespace FreelanceBoard

mutual

/-- A value put in the place of another: an object is merged into an object key by key, and anything
else takes the place as it is. -/
def Value.mergedInto : Value → Value → Value
  | .object changes, w => match w with
    | .object fields => .object (Fields.merge changes fields)
    | _ => .object changes
  | v, _ => v
termination_by structural v => v

/-- The fields of an object after a partial update. -/
def Fields.merge : List (String × Value) → Fields → Fields
  | [], fields => fields
  | (k, v) :: changes, fields =>
    Fields.merge changes (fields.put k (match fields.lookup k with
      | some w => v.mergedInto w
      | none => v))
termination_by structural changes => changes

end

/-- Where nothing nested is put, merging is setting. -/
theorem Fields.merge_single {key : String} {v : Value} (hv : ∀ w, v.mergedInto w = v)
    (fields : Fields) : Fields.merge [(key, v)] fields = fields.putAll [(key, v)] := by
  have hvalue : (match fields.lookup key with
      | some w => v.mergedInto w
      | none => v) = v := by
    cases fields.lookup key with
    | none => rfl
    | some w => exact hv w
  rw [Fields.merge, Fields.merge, hvalue]
  rfl

/-- Merging is setting where no value that is put is changed by one that it takes the place of. -/
theorem Fields.merge_eq_putAll {changes fields : Fields}
    (h : ∀ key v, (key, v) ∈ changes → ∀ w, fields.lookup key = some w ∨ (key, w) ∈ changes →
      v.mergedInto w = v) : Fields.merge changes fields = fields.putAll changes := by
  have hmerge : ∀ done rest : Fields, done ++ rest = changes → ∀ gs : Fields,
      (∀ key w, gs.lookup key = some w → fields.lookup key = some w ∨ (key, w) ∈ changes) →
        Fields.merge rest gs = gs.putAll rest := by
    intro done rest
    induction rest generalizing done with
    | nil => exact fun _ gs _ => rfl
    | cons change rest ih =>
      obtain ⟨k, v⟩ := change
      intro hchanges gs hgs
      have hmem : (k, v) ∈ changes := by simp [← hchanges]
      have hvalue : (match gs.lookup k with
          | some w => v.mergedInto w
          | none => v) = v := by
        cases hw : gs.lookup k with
        | none => rfl
        | some w => exact h k v hmem w (hgs k w hw)
      rw [Fields.merge, hvalue, Fields.putAll_cons]
      refine ih (done ++ [(k, v)]) (by simpa using hchanges) _ fun key w hw => ?_
      by_cases hk : key = k
      · rw [hk, Fields.lookup_put_self] at hw
        cases hw
        exact .inr (hk ▸ hmem)
      · rw [Fields.lookup_put_of_ne _ _ hk] at hw
        exact hgs key w hw
  exact hmerge [] changes rfl fields fun key w hw => .inl hw

theorem Scope.mergedInto_toDocument (s t : Scope) :
    s.toDocument.mergedInto t.toDocument = s.toDocument := by
  rw [Scope.toDocument, Scope.toDocument, Value.mergedInto]
  refine congrArg Value.object (Fields.merge_eq_putAll fun key v hv w _ => ?_)
  simp only [List.mem_cons, Prod.mk.injEq, List.not_mem_nil, or_false] at hv
  rcases hv with ⟨-, rfl⟩ | ⟨-, rfl⟩ | ⟨-, rfl⟩
  · cases s.size <;> rfl
  · cases s.duration <;> rfl
  · cases s.experience <;> rfl

theorem Budget.mergedInto_toDocument (a b : Budget) :
    a.toDocument.mergedInto b.toDocument = a.toDocument := rfl

/-- Documents have all their fields, so that none of a replaced scope or budget is left. -/
theorem Project.mergedInto_get {key : String} (h : key ∈ Catalog.editableFields) (p p' : Project) :
    (Fields.get p.fields key).mergedInto (Fields.get p'.fields key) = Fields.get p.fields key := by
  simp only [Catalog.editableFields, List.mem_cons, List.not_mem_nil, or_false] at h
  rcases h with rfl | rfl | rfl | rfl | rfl
  · show (Value.ofOption .text p.title).mergedInto _ = Value.ofOption .text p.title
    cases p.title <;> rfl
  · show (Value.ofOption .text p.description).mergedInto _ = Value.ofOption .text p.description
    cases p.description <;> rfl
  · rfl
  · show (Value.ofOption Scope.toDocument p.scope).mergedInto (.ofOption Scope.toDocument p'.scope) =
      Value.ofOption Scope.toDocument p.scope
    cases p.scope with
    | none => rfl
    | some s =>
      cases p'.scope with
      | none => rfl
      | some t => exact s.mergedInto_toDocument t
  · show (Value.ofOption Budget.toDocument p.budget).mergedInto (.ofOption Budget.toDocument p'.budget) =
      Value.ofOption Budget.toDocument p.budget
    cases p.budget with
    | none => rfl
    | some a =>
      cases p'.budget with
      | none => rfl
      | some b => exact a.mergedInto_toDocument b

/-- The changed fields of a project may be merged into its record as well as set there. -/
theorem Posting.Revised.merge_eq {q : Posting} {names : List String} {p : Project}
    (h : q.Revised names p) (hnames : ∀ key ∈ names, key ∈ Catalog.editableFields) :
    Fields.merge (names.map fun key => (key, Fields.get p.fields key)) q.fields =
      Posting.fields { q with project := p } := by
  rw [← h.putAll_eq hnames]
  refine Fields.merge_eq_putAll fun key v hv w hw => ?_
  obtain ⟨name, hname, hsame⟩ := List.mem_map.1 hv
  cases hsame
  have hkey := hnames key hname
  rcases hw with hw | hw
  · have hread : key ∉ ["freelancers", "proposers"] := by
      have hlocked : ∀ k ∈ Catalog.editableFields, k ∉ ["freelancers", "proposers"] := by decide
      exact hlocked key hkey
    rw [q.lookup_fields hread] at hw
    rw [← Fields.get_of_lookup hw]
    exact Project.mergedInto_get hkey p q.project
  · obtain ⟨other, -, hother⟩ := List.mem_map.1 hw
    cases hother
    exact Project.mergedInto_get hkey p p

def Value.IsText (v : Value) : Prop := ∃ s, v = .text s

theorem Name.exists_text {name : Name} (h : name.value.IsText) : ∃ s, name = text s := by
  obtain ⟨s, hs⟩ := h
  exact ⟨s, value_injective hs⟩

/-- What a lookup among records comes to; by what cannot be a key it fails. -/
def lookupIn (records : List Fields) (id : Value) : Except Failure (Option Value) :=
  match Name.ofValue? id with
  | some name => .ok ((Keyed.find? Fields.idName name records).map .object)
  | none => if id.isKey then .ok none else .error (.fault .wrongKind)

theorem lookupIn_value (records : List Fields) (name : Name) :
    lookupIn records name.value = .ok ((Keyed.find? Fields.idName name records).map .object) := by
  rw [lookupIn, Name.ofValue?_eq_some_iff.2 rfl]

theorem lookupIn_of_ne_value (records : List Fields) {id : Value} (h : ∀ name : Name, id ≠ name.value) :
    lookupIn records id = if id.isKey then .ok none else .error (.fault .wrongKind) := by
  have hnone : Name.ofValue? id = none :=
    Option.eq_none_iff_forall_ne_some.2 fun name hname => h name (Name.ofValue?_eq_some_iff.1 hname)
  rw [lookupIn, hnone]

/-- What is relied on of a store. `holds` says which records its collections hold in a state;
`allowed` are the ids that may be used. An update is relied on only where it makes no difference whether
nested objects are replaced or merged. -/
structure Serves {σ : Type} (allowed : Value → Prop) (handle : Handler Store Failure σ)
    (holds : σ → (String → List Fields) → Prop) : Prop where
  findById {s : σ} {C : String → List Fields} {name : String} {id : Value} :
    holds s C → name ∈ Collection.known → allowed id →
    ∃ t, holds t C ∧ handle (.findById name id) s = (lookupIn (C name) id, t)
  find {s : σ} {C : String → List Fields} {name : String} {p : Predicate} {keep : Fields → Bool} :
    holds s C → name ∈ Collection.known → (∀ r ∈ C name, p.Suits (.object r)) →
    (∀ r ∈ C name, p.admits (.object r) = .ok (keep r)) →
    ∃ t, ∃ found : List Fields, holds t C ∧
      handle (.find name (some p)) s = (.ok (found.map .object), t) ∧
      found.Perm ((C name).filter keep)
  insert {s : σ} {C : String → List Fields} {name : String} {r : Fields} :
    holds s C → name ∈ Collection.known → r.lookup "id" = some r.idName.value →
    allowed r.idName.value →
    ∃ t, holds t (Function.update C name (Keyed.put Fields.idName r (C name))) ∧
      handle (.insert name r) s = (.ok (.object r), t)
  update {s : σ} {C : String → List Fields} {name : String} {id : Name} {r changes r' : Fields} :
    holds s C → name ∈ Collection.known → allowed id.value →
    Keyed.find? Fields.idName id (C name) = some r →
    r.putAll changes = r' → Fields.merge changes r = r' → r'.lookup "id" = some id.value →
    ∃ t, holds t (Function.update C name (Keyed.put Fields.idName r' (C name))) ∧
      handle (.update name id.value changes) s = (.ok (some (.object r')), t)
  updateMissing {s : σ} {C : String → List Fields} {name : String} {id : Name} {changes : Fields} :
    holds s C → name ∈ Collection.known → allowed id.value →
    Keyed.find? Fields.idName id (C name) = none →
    ∃ t, holds t C ∧ handle (.update name id.value changes) s = (.ok none, t)
  delete {s : σ} {C : String → List Fields} {name : String} {id : Name} {r : Fields} :
    holds s C → name ∈ Collection.known → allowed id.value →
    Keyed.find? Fields.idName id (C name) = some r →
    ∃ t, holds t (Function.update C name (Keyed.erase Fields.idName id (C name))) ∧
      handle (.delete name id.value) s = (.ok true, t)

/-- On every store to be relied on, a program that starts with one ledger and one number of issued ids
ends with another, and with an outcome as described. -/
def Gives {α : Type} (allowed : Value → Prop) (ids : Nat → String) (p : BoardProgram α)
    (before : Ledger × Nat) (P : Except Failure α → Prop) (after : Ledger × Nat) : Prop :=
  ∀ ⦃σ : Type⦄ ⦃handle : Handler Store Failure σ⦄ ⦃holds : σ → (String → List Fields) → Prop⦄,
    Serves allowed handle holds → ∀ s, holds s before.1.contents →
      ∃ outcome t, p.run (Board.withIds ids handle) (s, before.2) = (outcome, (t, after.2)) ∧
        holds t after.1.contents ∧ P outcome

namespace Gives

variable {α β : Type} {allowed : Value → Prop} {ids : Nat → String} {before middle after : Ledger × Nat}
  {L : Ledger} {n : Nat}

theorem done {a : α} {P : Except Failure α → Prop} (h : P (.ok a)) :
    Gives allowed ids (.done a) before P before :=
  fun _ _ _ _ s hs => ⟨_, s, rfl, hs, h⟩

theorem failed {e : Failure} {P : Except Failure α → Prop} (h : P (.error e)) :
    Gives allowed ids (.failed e) before P before :=
  fun _ _ _ _ s hs => ⟨_, s, rfl, hs, h⟩

theorem mono {p : BoardProgram α} {P Q : Except Failure α → Prop} (h : Gives allowed ids p before P after)
    (hPQ : ∀ o, P o → Q o) : Gives allowed ids p before Q after := by
  intro σ handle holds hserves s hs
  obtain ⟨o, t, hrun, ht, hP⟩ := h hserves s hs
  exact ⟨o, t, hrun, ht, hPQ o hP⟩

/-- A program that succeeds, and then another that depends on what the first has found. -/
theorem bind_of {p : BoardProgram α} {f : α → BoardProgram β} {Q : α → Prop}
    {P : Except Failure β → Prop} (hp : Gives allowed ids p before (fun o => ∃ a, o = .ok a ∧ Q a) middle)
    (hf : ∀ a, Q a → Gives allowed ids (f a) middle P after) :
    Gives allowed ids (p.bind f) before P after := by
  intro σ handle holds hserves s hs
  obtain ⟨o, t, hrun, ht, a, rfl, hQ⟩ := hp hserves s hs
  obtain ⟨o', u, hrun', hu, hP⟩ := hf a hQ hserves t ht
  refine ⟨o', u, ?_, hu, hP⟩
  rw [Program.run_bind, hrun]
  exact hrun'

theorem bind {p : BoardProgram α} {f : α → BoardProgram β} {a : α} {P : Except Failure β → Prop}
    (hp : Gives allowed ids p before (· = .ok a) middle)
    (hf : Gives allowed ids (f a) middle P after) : Gives allowed ids (p.bind f) before P after := by
  refine bind_of (hp.mono fun o ho => ⟨a, ho, rfl⟩) ?_
  rintro _ rfl
  exact hf

theorem bind_error {p : BoardProgram α} {f : α → BoardProgram β} {e : Failure}
    {P : Except Failure β → Prop} (hp : Gives allowed ids p before (· = .error e) after)
    (hP : P (.error e)) : Gives allowed ids (p.bind f) before P after := by
  intro σ handle holds hserves s hs
  obtain ⟨o, t, hrun, ht, rfl⟩ := hp hserves s hs
  refine ⟨_, t, ?_, ht, hP⟩
  rw [Program.run_bind, hrun]

theorem freshId : Gives allowed ids Board.freshId (L, n) (· = .ok (ids n)) (L, n + 1) :=
  fun _ _ _ _ s hs => ⟨_, s, rfl, hs, rfl⟩

theorem attempt {x : Except Fault α} {a : α} (h : x = .ok a) :
    Gives allowed ids (Board.attempt x) before (· = .ok a) before := by
  subst h
  exact done rfl

/-- A single call, where every store to be relied on answers it. -/
theorem call {c : StoreCall} {P : Except Failure c.Reply → Prop} {L' : Ledger}
    (h : ∀ ⦃σ : Type⦄ ⦃handle : Handler Store Failure σ⦄ ⦃holds : σ → (String → List Fields) → Prop⦄,
      Serves allowed handle holds → ∀ s, holds s L.contents →
        ∃ o t, handle c s = (o, t) ∧ holds t L'.contents ∧ P o) :
    Gives allowed ids (Board.onStore (.call c .done)) (L, n) P (L', n) := by
  intro σ handle holds hserves s hs
  obtain ⟨o, t, hcall, ht, hP⟩ := h hserves s hs
  refine ⟨o, t, ?_, ht, hP⟩
  rw [Board.run_onStore, Program.run_call, hcall]
  cases o <;> rfl

theorem findById {name : String} (hname : name ∈ Collection.known) {id : Value} (hid : allowed id) :
    Gives allowed ids (Catalog.findById name id) (L, n) (· = lookupIn (L.contents name) id) (L, n) := by
  refine call fun _ _ _ hserves s hs => ?_
  obtain ⟨t, ht, hcall⟩ := hserves.findById hs hname hid
  exact ⟨_, t, hcall, ht, rfl⟩

theorem find {name : String} (hname : name ∈ Collection.known) {p : Predicate} {keep : Fields → Bool}
    (hsuits : ∀ r ∈ L.contents name, p.Suits (.object r))
    (hkeep : ∀ r ∈ L.contents name, p.admits (.object r) = .ok (keep r)) :
    Gives allowed ids (Catalog.find name p) (L, n)
      (fun o => ∃ vs, o = .ok vs ∧ vs.Perm (((L.contents name).filter keep).map .object)) (L, n) := by
  refine call fun _ _ _ hserves s hs => ?_
  obtain ⟨t, found, ht, hcall, hfound⟩ := hserves.find hs hname hsuits hkeep
  exact ⟨_, t, hcall, ht, _, rfl, hfound.map _⟩

theorem insert {name : String} (hname : name ∈ Collection.known) {r : Fields} {L' : Ledger}
    (hid : r.lookup "id" = some r.idName.value) (hallowed : allowed r.idName.value)
    (hL' : L'.contents = Function.update L.contents name
      (Keyed.put Fields.idName r (L.contents name))) :
    Gives allowed ids (Catalog.insert name r) (L, n) (· = .ok (.object r)) (L', n) := by
  refine call fun _ _ _ hserves s hs => ?_
  obtain ⟨t, ht, hcall⟩ := hserves.insert hs hname hid hallowed
  exact ⟨_, t, hcall, hL' ▸ ht, rfl⟩

theorem update {name : String} (hname : name ∈ Collection.known) {id : Name}
    (hallowed : allowed id.value) {r changes r' : Fields} {L' : Ledger}
    (hr : Keyed.find? Fields.idName id (L.contents name) = some r)
    (hput : r.putAll changes = r') (hmerge : Fields.merge changes r = r')
    (hid : r'.lookup "id" = some id.value)
    (hL' : L'.contents = Function.update L.contents name
      (Keyed.put Fields.idName r' (L.contents name))) :
    Gives allowed ids (Catalog.update name id.value changes) (L, n)
      (· = .ok (some (.object r'))) (L', n) := by
  refine call fun _ _ _ hserves s hs => ?_
  obtain ⟨t, ht, hcall⟩ := hserves.update hs hname hallowed hr hput hmerge hid
  exact ⟨_, t, hcall, hL' ▸ ht, rfl⟩

/-- An update of a single field, with nothing nested in it. -/
theorem updateField {name : String} (hname : name ∈ Collection.known) {id : Name}
    (hallowed : allowed id.value) {key : String} {r r' : Fields} {v : Value} {L' : Ledger}
    (hr : Keyed.find? Fields.idName id (L.contents name) = some r) (hv : ∀ w, v.mergedInto w = v)
    (hput : r.put key v = r') (hid : r'.lookup "id" = some id.value)
    (hL' : L'.contents = Function.update L.contents name
      (Keyed.put Fields.idName r' (L.contents name))) :
    Gives allowed ids (Catalog.update name id.value [(key, v)]) (L, n)
      (· = .ok (some (.object r'))) (L', n) := by
  have hmerge : Fields.merge [(key, v)] r = r' := by
    rw [Fields.merge_single hv]
    exact hput
  exact update hname hallowed hr hput hmerge hid hL'

theorem updateMissing {name : String} (hname : name ∈ Collection.known) {id : Name}
    (hallowed : allowed id.value) {changes : Fields}
    (hr : Keyed.find? Fields.idName id (L.contents name) = none) :
    Gives allowed ids (Catalog.update name id.value changes) (L, n) (· = .ok none) (L, n) := by
  refine call fun _ _ _ hserves s hs => ?_
  obtain ⟨t, ht, hcall⟩ := hserves.updateMissing hs hname hallowed hr
  exact ⟨_, t, hcall, ht, rfl⟩

theorem delete {name : String} (hname : name ∈ Collection.known) {id : Name}
    (hallowed : allowed id.value) {r : Fields} {L' : Ledger}
    (hr : Keyed.find? Fields.idName id (L.contents name) = some r)
    (hL' : L'.contents = Function.update L.contents name
      (Keyed.erase Fields.idName id (L.contents name))) :
    Gives allowed ids (Board.onStore (Store.delete name id.value)) (L, n) (· = .ok true)
      (L', n) := by
  refine call fun _ _ _ hserves s hs => ?_
  obtain ⟨t, ht, hcall⟩ := hserves.delete hs hname hallowed hr
  exact ⟨_, t, hcall, hL' ▸ ht, rfl⟩

end Gives

end FreelanceBoard
