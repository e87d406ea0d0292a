import FreelanceBoard.Indexing
import FreelanceBoard.Proofs.Documents

/-! What is made of a list of values that is to be indexed: an action for each project and a line
for each other object, up to the first value that is no object, which stops the work. -/
namespace FreelanceBoard

theorem Project.read_of_not_isObject {v : Value} (h : v.isObject = false) :
    Project.read v = .issue (.notObject "Project") := by
  cases v with
  | object fields => cases h
  | _ => rfl

theorem Value.field_of_not_isObject {v : Value} (h : v.isObject = false) (key : String) :
    v.field key = .error .noSuchMethod := by
  cases v with
  | object fields => cases h
  | _ => rfl

theorem Value.field_of_isObject {v : Value} (h : v.isObject = true) (key : String) :
    v.field key = .ok (v.child key) := by
  cases v with
  | object fields => rfl
  | _ => cases h

namespace Batch

/-- The action that writes a project as a document. -/
def writing (index : String) (p : Project) : IndexAction := ⟨index, p.id, p.toDocument⟩

/-- The projects that can be read from the values, in order. -/
def accepted (items : List Value) : List Project := items.filterMap fun v => (Project.read v).value?

def refused (items : List Value) : List Value :=
  items.filter fun v => (Project.read v).value?.isNone

/-- The line about a value that cannot be read as a project. -/
def lineOn (v : Value) : String := skipLine (v.child "id") (Project.read v).issues

/-- The values that the work comes to. -/
def reached (items : List Value) : List Value := items.takeWhile Value.isObject

variable {index : String} {v : Value} {vs items : List Value} {p : Project} {issues : List Issue}

theorem accepted_cons_of_valid (h : Project.read v = .valid p) :
    accepted (v :: vs) = p :: accepted vs := by
  rw [accepted, List.filterMap_cons_some (by rw [h]; rfl)]
  rfl

theorem accepted_cons_of_invalid (h : Project.read v = .invalid issues) :
    accepted (v :: vs) = accepted vs := by
  rw [accepted, List.filterMap_cons_none (by rw [h]; rfl)]
  rfl

theorem refused_cons_of_valid (h : Project.read v = .valid p) : refused (v :: vs) = refused vs := by
  rw [refused, List.filter_cons_of_neg (by rw [h]; exact Bool.false_ne_true)]
  rfl

theorem refused_cons_of_invalid (h : Project.read v = .invalid issues) :
    refused (v :: vs) = v :: refused vs := by
  rw [refused, List.filter_cons_of_pos (by rw [h]; rfl)]
  rfl

theorem reached_cons_of_isObject (h : v.isObject = true) : reached (v :: vs) = v :: reached vs :=
  List.takeWhile_cons_of_pos h

theorem reached_cons_of_not_isObject (h : v.isObject = false) : reached (v :: vs) = [] :=
  List.takeWhile_cons_of_neg (by rw [h]; exact Bool.false_ne_true)

theorem ofItems_of_valid (h : Project.read v = .valid p) :
    ofItems index (v :: vs) =
      { ofItems index vs with actions := writing index p :: (ofItems index vs).actions } := by
  rw [ofItems, h]
  rfl

theorem ofItems_of_invalid (hv : v.isObject = true) (hid : (v.child "id").isPrintable = true)
    (h : Project.read v = .invalid issues) :
    ofItems index (v :: vs) =
      { ofItems index vs with lines := lineOn v :: (ofItems index vs).lines } := by
  simp only [ofItems, h, Value.field_of_isObject hv, hid, lineOn]
  rfl

theorem ofItems_of_not_isObject (hv : v.isObject = false) :
    ofItems index (v :: vs) = ⟨[], [], some .noSuchMethod⟩ := by
  rw [ofItems, Project.read_of_not_isObject hv, Value.field_of_not_isObject hv]
  rfl

theorem ofItems_eq (index : String) (hids : ∀ v ∈ items, (v.child "id").isPrintable = true) :
    ofItems index items =
      ⟨(accepted (reached items)).map (writing index), (refused (reached items)).map lineOn,
        if items.all Value.isObject then none else some .noSuchMethod⟩ := by
  induction items with
  | nil => rfl
  | cons v vs ih =>
    have ih := ih fun w hw => hids w (List.mem_cons_of_mem v hw)
    cases hv : v.isObject with
    | false =>
      rw [ofItems_of_not_isObject hv, reached_cons_of_not_isObject hv, List.all_cons, hv]
      rfl
    | true =>
      rw [reached_cons_of_isObject hv, List.all_cons, hv, Bool.true_and]
      cases h : Project.read v with
      | valid p =>
        rw [ofItems_of_valid h, ih, accepted_cons_of_valid h, refused_cons_of_valid h,
          List.map_cons]
      | invalid issues =>
        rw [ofItems_of_invalid hv (hids v List.mem_cons_self) h, ih, accepted_cons_of_invalid h,
          refused_cons_of_invalid h, List.map_cons]

theorem length_accepted_add_refused (items : List Value) :
    (accepted items).length + (refused items).length = items.length := by
  induction items with
  | nil => rfl
  | cons v vs ih =>
    cases h : Project.read v with
    | valid p =>
      rw [accepted_cons_of_valid h, refused_cons_of_valid h, List.length_cons, List.length_cons]
      omega
    | invalid issues =>
      rw [accepted_cons_of_invalid h, refused_cons_of_invalid h, List.length_cons, List.length_cons]
      omega

theorem exists_skipLine_eq (id : Value) (issues : List Issue) :
    ∃ rest, skipLine id issues = "Skipping invalid project " ++ rest := by
  have hassoc : ∀ display count : String,
      "Skipping invalid project " ++ display ++ ": " ++ count ++ " error(s)" =
        "Skipping invalid project " ++ (display ++ ": " ++ count ++ " error(s)") := by
    simp only [String.append_assoc, implies_true]
  exact ⟨_, hassoc id.display (toString issues.length)⟩

/-- Each value that the work comes to gives one action, in order, with the document of its project,
or one line. It comes to all of them unless one is no object, the ids in the lines being no numbers
of too many digits. -/
theorem batch_of_reached (index : String) {items : List Value}
    (hids : ∀ v ∈ items, (v.child "id").isPrintable = true) :
    let batch := ofValue index (.list items)
    batch = ⟨(accepted (reached items)).map (writing index), (refused (reached items)).map lineOn,
        if items.all Value.isObject then none else some .noSuchMethod⟩ ∧
      batch.actions.length + batch.lines.length = (reached items).length ∧
      (∀ a ∈ batch.actions, ∃ p, Project.read a.document = .valid p ∧ a = writing index p) ∧
      ∀ line ∈ batch.lines, ∃ rest, line = "Skipping invalid project " ++ rest := by
  intro batch
  have hbatch : batch = _ := ofItems_eq index hids
  refine ⟨hbatch, ?_, ?_, ?_⟩
  · rw [hbatch, List.length_map, List.length_map, length_accepted_add_refused]
  · rw [hbatch]
    intro a ha
    obtain ⟨p, -, rfl⟩ := List.mem_map.1 ha
    exact ⟨p, p.read_toDocument, rfl⟩
  · rw [hbatch]
    intro line hline
    obtain ⟨v, -, rfl⟩ := List.mem_map.1 hline
    exact exists_skipLine_eq _ _

/-- Of a project, an object without an owner, a number and one more project the first two are dealt
with. -/
theorem batch_of_reached_number :
    let items : List Value :=
      [.object [("id", .text "p1"), ("owner", .text "U1"), ("budget", .object
          [("type", .text "fixed rate"), ("currency", .text "USD"), ("amount", .text " 10 ")])],
        .object [("id", .text "p2")], .int 5, .object [("id", .text "p3"), ("owner", .text "U1")]]
    let batch := ofValue "projects" (.list items)
    let p : Project := ⟨"p1", "U1", none, none, [], none, some ⟨.fixed, "USD", 10⟩, false, [], []⟩
    let line := "Skipping invalid project 'p2': 1 error(s)"
    (∀ v ∈ items, (v.child "id").isPrintable = true) ∧
      batch = ⟨[writing "projects" p], [line], some .noSuchMethod⟩ ∧
      writing "projects" p ∈ batch.actions ∧
      (∃ q, Project.read (writing "projects" p).document = .valid q ∧
        writing "projects" p = writing "projects" q) ∧
      line ∈ batch.lines ∧ ∃ rest, line = "Skipping invalid project " ++ rest := by
  intro items batch p line
  have hids : ∀ v ∈ items, (v.child "id").isPrintable = true := by
    rw [← List.all_eq_true]
    rfl
  obtain ⟨-, -, hactions, hlines⟩ := batch_of_reached "projects" hids
  have hbatch : batch = ⟨[writing "projects" p], [line], some .noSuchMethod⟩ := by cbv
  have haction : writing "projects" p ∈ batch.actions := by
    rw [hbatch]
    exact List.mem_singleton_self _
  have hline : line ∈ batch.lines := by
    rw [hbatch]
    exact List.mem_singleton_self _
  exact ⟨hids, hbatch, haction, hactions _ haction, hline, hlines _ hline⟩

/-- A number stops the work, although a project comes after it. -/
theorem number_stops_batch :
    let site : Value := .object [("id", .text "p1"), ("owner", .text "U1")]
    ofValue "projects" (.list [.int 5, site]) = ⟨[], [], some .noSuchMethod⟩ ∧
      ∃ p, Project.read site = .valid p :=
  ⟨rfl, _, rfl⟩

end Batch

end FreelanceBoard
