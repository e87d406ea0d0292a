import FreelanceBoard.Predicate
import Mathlib.Data.List.Basic

/-! What loose equality and the lookups built on it come to where one side is text or a number, and
what a loop over values comes to, where no step of it fails and where one does. -/
namespace FreelanceBoard

namespace Value

theorem same_text_iff {v : Value} {s : String} : v.same (.text s) = true ↔ v = .text s := by
  cases v with
  | float x => cases h : x.point? <;> simp [same, point?, h]
  | _ => simp [same, point?]

theorem text_same_iff {s : String} {v : Value} : (Value.text s).same v = true ↔ v = .text s := by
  cases v <;> simp [same, eq_comm]

/-- Numbers and truth values are the same as what marks the same point. -/
theorem same_iff_of_point? {v w : Value} {p : Extended} (hv : v.point? = some p) :
    v.same w = true ↔ w.point? = some p := by
  cases v with
  | bool b => simp_all [same, point?]
  | int n => simp_all [same, point?]
  | float x =>
    have hx : x.point? = some p := hv
    simp [same, hx]
  | _ => cases hv

theorem text_memberOf_iff {s : String} {items : List Value} :
    (Value.text s).memberOf items = true ↔ .text s ∈ items := by
  rw [memberOf, List.any_eq_true]
  constructor
  · rintro ⟨w, hw, hsame⟩
    rw [same_text_iff] at hsame
    exact hsame ▸ hw
  · intro h
    exact ⟨_, h, same_text_iff.2 rfl⟩

/-- A loop that keeps values by a test that never fails is a filter. -/
theorem keepIf_map {α : Type} {test : Value → Except Fault Bool} {f : α → Value} {keep : α → Bool}
    {as : List α} (h : ∀ a ∈ as, test (f a) = .ok (keep a)) :
    keepIf test (as.map f) = .ok ((as.filter keep).map f) := by
  induction as with
  | nil => rfl
  | cons a as ih =>
    have ha := h a (by simp)
    have has := ih fun b hb => h b (by simp [hb])
    cases hk : keep a <;> simp [keepIf, ha, has, hk]

theorem keepIf_eq_filter {test : Value → Except Fault Bool} {keep : Value → Bool}
    {vs : List Value} (h : ∀ v ∈ vs, test v = .ok (keep v)) :
    keepIf test vs = .ok (vs.filter keep) := by
  have hmap := keepIf_map (f := id) h
  simpa using hmap

/-- Whether a value passes a test, which it does not where the test fails. -/
def passes (test : Value → Except Fault Bool) (v : Value) : Bool := (test v).toOption.getD false

/-- A loop that keeps values by a test is a filter, or fails as the test does on one of them. -/
theorem keepIf_cases (test : Value → Except Fault Bool) (vs : List Value) :
    (∀ v ∈ vs, test v = .ok (passes test v)) ∧ keepIf test vs = .ok (vs.filter (passes test)) ∨
      ∃ v ∈ vs, ∃ f, test v = .error f ∧ keepIf test vs = .error f := by
  induction vs with
  | nil => exact .inl ⟨by simp, rfl⟩
  | cons v vs ih =>
    cases hv : test v with
    | error f => exact .inr ⟨v, List.mem_cons_self, f, hv, by simp [keepIf, hv]⟩
    | ok b =>
      have hpasses : passes test v = b := by simp [passes, hv, Except.toOption]
      obtain ⟨hall, hkept⟩ | ⟨w, hw, f, hfails, hends⟩ := ih
      · refine .inl ⟨List.forall_mem_cons.2 ⟨by rw [hv, hpasses], hall⟩, ?_⟩
        cases b <;> simp [keepIf, hv, hkept, hpasses]
      · exact .inr ⟨w, List.mem_cons_of_mem _ hw, f, hfails, by simp [keepIf, hv, hends]⟩

theorem mem_of_keepIf {test : Value → Except Fault Bool} {vs kept : List Value}
    (h : keepIf test vs = .ok kept) {v : Value} (hv : v ∈ kept) : v ∈ vs := by
  obtain ⟨-, hkept⟩ | ⟨w, -, f, -, hfails⟩ := keepIf_cases test vs
  · rw [hkept] at h
    exact List.mem_of_mem_filter (Except.ok.inj h ▸ hv)
  · rw [hfails] at h
    cases h

theorem exists_keepIf {test : Value → Except Fault Bool} {vs : List Value}
    (h : ∀ v ∈ vs, ∃ b, test v = .ok b) : ∃ kept, keepIf test vs = .ok kept := by
  obtain ⟨-, hkept⟩ | ⟨v, hv, f, hfails, -⟩ := keepIf_cases test vs
  · exact ⟨_, hkept⟩
  · obtain ⟨b, hb⟩ := h v hv
    rw [hb] at hfails
    cases hfails

/-- A test that fails in one way makes the loop fail in this way, whichever value it fails on. -/
theorem keepIf_eq_error_iff {test : Value → Except Fault Bool} {f : Fault}
    (honly : ∀ v g, test v = .error g → g = f) {vs : List Value} :
    keepIf test vs = .error f ↔ ∃ v ∈ vs, ∃ g, test v = .error g := by
  obtain ⟨hall, hkept⟩ | ⟨v, hv, g, hfails, hends⟩ := keepIf_cases test vs
  · rw [hkept]
    refine ⟨fun h => (by cases h), ?_⟩
    rintro ⟨v, hv, g, hfails⟩
    rw [hall v hv] at hfails
    cases hfails
  · rw [hends, honly v g hfails]
    exact ⟨fun _ => ⟨v, hv, g, hfails⟩, fun _ => rfl⟩

/-- Two loops in a row, the second over what passes the first test, are one that asks both tests, if
these fail in one way. -/
theorem keepIf_bind_keepIf {first second both : Value → Except Fault Bool} {f : Fault}
    (hboth : ∀ v, both v = match first v with
      | .ok true => second v
      | .ok false => .ok false
      | .error g => .error g)
    (honly : ∀ v g, both v = .error g → g = f) (vs : List Value) :
    (keepIf first vs).bind (keepIf second) = keepIf both vs := by
  obtain ⟨hall, hkept⟩ | ⟨v, hv, g, hfails, hends⟩ := keepIf_cases first vs
  · rw [hkept, Except.bind]
    obtain ⟨hrest, hleft⟩ | ⟨v, hv, g, hfails, hends⟩ :=
      keepIf_cases second (vs.filter (passes first))
    · have hpass : ∀ v ∈ vs, both v = .ok (passes first v && passes second v) := by
        intro v hv
        rw [hboth, hall v hv]
        cases hp : passes first v with
        | false => rfl
        | true => exact hrest v (List.mem_filter.2 ⟨hv, hp⟩)
      rw [hleft, keepIf_eq_filter hpass, List.filter_filter]
      simp only [Bool.and_comm]
    · obtain ⟨hmem, hp⟩ := List.mem_filter.1 hv
      have hv : both v = .error g := by rw [hboth, hall v hmem, hp]; exact hfails
      rw [hends, honly v g hv, (keepIf_eq_error_iff honly).2 ⟨v, hmem, g, hv⟩]
  · have hv' : both v = .error g := by rw [hboth, hfails]
    rw [hends, Except.bind, honly v g hv', (keepIf_eq_error_iff honly).2 ⟨v, hv, g, hv'⟩]

theorem collect_map {α : Type} {f : Value → Except Fault Value} {g h : α → Value} {as : List α}
    (hf : ∀ a ∈ as, f (g a) = .ok (h a)) : collect f (as.map g) = .ok (as.map h) := by
  induction as with
  | nil => rfl
  | cons a as ih =>
    have ha := hf a (by simp)
    have has := ih fun b hb => hf b (by simp [hb])
    simp [collect, ha, has]

theorem areKeys_of_texts {items : List Value} (h : ∀ v ∈ items, ∃ s, v = .text s) :
    areKeys items = true := by
  induction items with
  | nil => simp [areKeys]
  | cons v vs ih =>
    obtain ⟨s, rfl⟩ := h v (by simp)
    have hvs := ih fun w hw => h w (by simp [hw])
    simp [areKeys, hvs]

/-- Leaving out repetitions loses no text. -/
theorem text_mem_distinct_iff {s : String} {items : List Value} (h : ∀ v ∈ items, ∃ t, v = .text t) :
    .text s ∈ distinct items ↔ .text s ∈ items := by
  have hfold : ∀ kept : List Value,
      .text s ∈ items.foldl (fun kept v => if v.memberOf kept then kept else kept ++ [v]) kept ↔
        .text s ∈ kept ∨ .text s ∈ items := by
    induction items with
    | nil => simp
    | cons v vs ih =>
      intro kept
      obtain ⟨t, rfl⟩ := h v (by simp)
      rw [List.foldl_cons, ih fun w hw => h w (by simp [hw])]
      by_cases hmem : Value.text t ∈ kept
      · rw [if_pos (text_memberOf_iff.2 hmem), List.mem_cons]
        constructor
        · rintro (hs | hs)
          · exact .inl hs
          · exact .inr (.inr hs)
        · rintro (hs | hs | hs)
          · exact .inl hs
          · exact .inl (hs ▸ hmem)
          · exact .inr hs
      · rw [if_neg fun e => hmem (text_memberOf_iff.1 e), List.mem_append, List.mem_singleton,
          List.mem_cons, or_assoc]
  have hall := hfold []
  simpa [distinct] using hall

theorem text_memberOf_texts {s : String} {ts : List String} :
    (Value.text s).memberOf (ts.map .text) = true ↔ s ∈ ts := by
  rw [text_memberOf_iff]
  exact List.mem_map_of_injective fun a b h => Value.text.inj h

theorem eraseSame_texts (s : String) (ts : List String) :
    (Value.text s).eraseSame (ts.map .text) = (ts.erase s).map .text := by
  induction ts with
  | nil => rfl
  | cons t ts ih =>
    rw [List.map_cons, eraseSame, List.erase_cons]
    by_cases h : t = s
    · rw [h, if_pos (same_text_iff.2 rfl), if_pos (beq_self_eq_true s)]
    · have hsame : ¬ (Value.text t).same (.text s) = true := fun e =>
        h (Value.text.inj (same_text_iff.1 e))
      rw [if_neg hsame, if_neg (by simpa using h), List.map_cons, ih]

@[simp] theorem child_object (fields : Fields) (key : String) :
    (Value.object fields).child key = Fields.get fields key := rfl

end Value

end FreelanceBoard
