import FreelanceBoard.Value

/-! Taking values apart where their shape has not been checked: looking up, counting, listing and
ordering. What a value of the wrong shape does to such an attempt is a `Fault`. -/
namespace FreelanceBoard

inductive Fault where
  | wrongKind
  | noSuchKey
  | noSuchItem
  | noSuchMethod
  | unprintable
  deriving DecidableEq

namespace Value

/-- The value of a key that has to be there. -/
def item (v : Value) (key : String) : Except Fault Value :=
  match v with
  | .object fields => match fields.lookup key with
    | some w => .ok w
    | none => .error .noSuchKey
  | _ => .error .wrongKind

/-- The value of a key that may be missing, of what has to be an object. -/
def field (v : Value) (key : String) : Except Fault Value :=
  match v with
  | .object fields => .ok (Fields.get fields key)
  | _ => .error .noSuchMethod

/-- The values that a loop over `v` meets. -/
def elements : Value → Except Fault (List Value)
  | .list items => .ok items
  | .tuple items => .ok items
  | .set items => .ok items
  | .text s => .ok (s.toList.map fun c => .text (String.singleton c))
  | .bytes _ octets => .ok (octets.data.toList.map fun b => .int b.toNat)
  | .object fields => .ok (fields.map fun (k, _) => .text k)
  | _ => .error .wrongKind

/-- The values of what may be missing. -/
def elementsOrNone (v : Value) : Except Fault (List Value) :=
  if v.truthy then v.elements else .ok []

def count : Value → Except Fault Nat
  | .list items => .ok items.length
  | .tuple items => .ok items.length
  | .set items => .ok items.length
  | .text s => .ok s.length
  | .bytes _ octets => .ok octets.size
  | .object fields => .ok fields.length
  | _ => .error .wrongKind

def lastItem (v : Value) : Except Fault Value :=
  match v with
  | .list items => match items.getLast? with
    | some w => .ok w
    | none => .error .noSuchItem
  | .tuple items => match items.getLast? with
    | some w => .ok w
    | none => .error .noSuchItem
  | .text s => match s.toList.getLast? with
    | some c => .ok (.text (String.singleton c))
    | none => .error .noSuchItem
  | .bytes _ octets => match octets.data.toList.getLast? with
    | some b => .ok (.int b.toNat)
    | none => .error .noSuchItem
  | .object _ => .error .noSuchKey
  | _ => .error .wrongKind

def hasPart (part : List Char) : List Char → Bool
  | [] => part.isEmpty
  | c :: cs => part.isPrefixOf (c :: cs) || hasPart part cs

/-- Whether a text is a key of an object, an item of a collection or a part of a text. -/
def has (v : Value) (s : String) : Except Fault Bool :=
  match v with
  | .object fields => .ok (fields.lookup s).isSome
  | .list items => .ok ((Value.text s).memberOf items)
  | .tuple items => .ok ((Value.text s).memberOf items)
  | .set items => .ok ((Value.text s).memberOf items)
  | .text t => .ok (hasPart s.toList t.toList)
  | _ => .error .wrongKind

/-- What each value gives, unless one of them gives none. -/
def collect (f : Value → Except Fault Value) : List Value → Except Fault (List Value)
  | [] => .ok []
  | v :: vs => match f v with
    | .error e => .error e
    | .ok w => match collect f vs with
      | .error e => .error e
      | .ok ws => .ok (w :: ws)

/-- The values that pass a test, unless it fails on one of them. -/
def keepIf (test : Value → Except Fault Bool) : List Value → Except Fault (List Value)
  | [] => .ok []
  | v :: vs => match test v with
    | .error e => .error e
    | .ok keep => match keepIf test vs with
      | .error e => .error e
      | .ok ws => .ok (if keep then v :: ws else ws)

/-- The first value that is the same is taken out. -/
def eraseSame (v : Value) : List Value → List Value
  | [] => []
  | w :: ws => if w.same v then ws else w :: eraseSame v ws

/-- The values without repetition, each of which has to be able to be a key. -/
def keySet (items : List Value) : Except Fault (List Value) :=
  if areKeys items then .ok (distinct items) else .error .wrongKind

mutual

/-- Order, where there is one: of numbers, of texts by code point, of octets by number, of lists and
tuples by their first items that differ, of sets by inclusion. -/
def less? : Value → Value → Option Bool
  | .text s, w => match w with
    | .text t => some (decide (s < t))
    | _ => none
  | .bytes _ a, w => match w with
    | .bytes _ b => some (decide (a.data.toList < b.data.toList))
    | _ => none
  | .list xs, w => match w with
    | .list ys => lessItems? xs ys
    | _ => none
  | .tuple xs, w => match w with
    | .tuple ys => lessItems? xs ys
    | _ => none
  | .set xs, w => match w with
    | .set ys => some (decide (xs.length < ys.length) && sameMembers xs ys)
    | _ => none
  | .bool b, w => numberLess? (.bool b) w
  | .int n, w => numberLess? (.int n) w
  | .float x, w => numberLess? (.float x) w
  | .null, _ => none
  | .object _, _ => none
termination_by structural v => v

def lessItems? : List Value → List Value → Option Bool
  | [], ys => some !ys.isEmpty
  | x :: xs, ys => match ys with
    | [] => some false
    | y :: ys => if same x y then lessItems? xs ys else less? x y
termination_by structural xs => xs

def numberLess? (v w : Value) : Option Bool :=
  match w with
  | .bool _ | .int _ | .float _ => match v.point?, w.point? with
    | some p, some q => some (p.lt q)
    | _, _ => some false
  | _ => none

end

def insertSorted (v : Value) : List Value → Option (List Value)
  | [] => some [v]
  | w :: ws =>
    match v.less? w with
    | none => none
    | some true => some (v :: w :: ws)
    | some false => (insertSorted v ws).map (w :: ·)

/-- In ascending order, if any two values can be compared. -/
def sorted (items : List Value) : Except Fault (List Value) :=
  match items.foldlM (fun ws v => insertSorted v ws) [] with
  | some ws => .ok ws
  | none => .error .wrongKind

end Value

end FreelanceBoard
