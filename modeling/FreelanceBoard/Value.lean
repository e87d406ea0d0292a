import FreelanceBoard.Number.Double

/-! Values without a schema: what a request, a stored record or a reply of the search server may
hold. Equality between them is loose: numbers are equal when they mark the same point, truth values
count as numbers, octets are equal whether or not they can be changed, and containers are equal when
they are of one kind and their parts are equal. -/
namespace FreelanceBoard

/-- The keys of an object stand in the order in which they were written. Octets are either fixed or can
be changed in place. -/
inductive Value where
  | null
  | bool (b : Bool)
  | int (n : Int)
  | float (x : Double)
  | text (s : String)
  | bytes (fixed : Bool) (octets : ByteArray)
  | list (items : List Value)
  | tuple (items : List Value)
  | set (items : List Value)
  | object (fields : List (String × Value))

instance : Inhabited Value := ⟨.null⟩

abbrev Fields := List (String × Value)

namespace Fields

/-- Sets a key; a new key goes to the end. -/
def put (fields : Fields) (key : String) (value : Value) : Fields :=
  match fields with
  | [] => [(key, value)]
  | (k, v) :: rest => if k = key then (k, value) :: rest else (k, v) :: put rest key value

/-- Sets every key of `changes`, in order. -/
def putAll (fields changes : Fields) : Fields :=
  changes.foldl (fun fs (k, v) => fs.put k v) fields

/-- The value of a key, nothing where it is missing. -/
def get (fields : Fields) (key : String) : Value := (fields.lookup key).getD .null

@[simp] theorem put_nil (key : String) (value : Value) : put [] key value = [(key, value)] := rfl

@[simp] theorem putAll_nil (fields : Fields) : putAll fields [] = fields := rfl

@[simp] theorem putAll_cons (fields : Fields) (k : String) (v : Value) (rest : Fields) :
    putAll fields ((k, v) :: rest) = putAll (fields.put k v) rest := rfl

theorem lookup_put_self (fields : Fields) (key : String) (value : Value) :
    (fields.put key value).lookup key = some value := by
  induction fields with
  | nil => simp
  | cons entry rest ih =>
    obtain ⟨k, v⟩ := entry
    by_cases h : k = key
    · simp [put, h]
    · have hk : (key == k) = false := by simpa using fun e => h e.symm
      simp [put, h, List.lookup_cons, hk, ih]

theorem lookup_put_of_ne (fields : Fields) {key other : String} (value : Value) (h : other ≠ key) :
    (fields.put key value).lookup other = fields.lookup other := by
  have ho : (other == key) = false := by simpa using h
  induction fields with
  | nil => simp [List.lookup_cons, ho]
  | cons entry rest ih =>
    obtain ⟨k, v⟩ := entry
    by_cases hk : k = key
    · subst hk
      simp [put, List.lookup_cons, ho]
    · simp [put, hk, List.lookup_cons, ih]

theorem get_of_lookup {fields : Fields} {key : String} {value : Value}
    (h : fields.lookup key = some value) : fields.get key = value := by
  rw [get, h, Option.getD_some]

theorem get_of_lookup_eq_none {fields : Fields} {key : String} (h : fields.lookup key = none) :
    fields.get key = .null := by
  rw [get, h, Option.getD_none]

theorem get_put_self (fields : Fields) (key : String) (value : Value) :
    (fields.put key value).get key = value :=
  get_of_lookup (lookup_put_self fields key value)

theorem get_put_of_ne (fields : Fields) {key other : String} (value : Value) (h : other ≠ key) :
    (fields.put key value).get other = fields.get other := by
  rw [get, get, lookup_put_of_ne fields value h]

end Fields

namespace Value

/-- The name of the kind of a value. -/
def kindName : Value → String
  | .null => "NoneType"
  | .bool _ => "bool"
  | .int _ => "int"
  | .float _ => "float"
  | .text _ => "str"
  | .bytes fixed _ => if fixed then "bytes" else "bytearray"
  | .list _ => "list"
  | .tuple _ => "tuple"
  | .set _ => "set"
  | .object _ => "dict"

/-- Nothing, zero and empty values count as false. -/
def truthy : Value → Bool
  | .null => false
  | .bool b => b
  | .int n => decide (n ≠ 0)
  | .float x => !x.isZero
  | .text s => !s.isEmpty
  | .bytes _ octets => !octets.isEmpty
  | .list items => !items.isEmpty
  | .tuple items => !items.isEmpty
  | .set items => !items.isEmpty
  | .object fields => !fields.isEmpty

/-- The point that a number or truth value marks. -/
def point? : Value → Option Extended
  | .bool b => some (.ofInt (if b then 1 else 0))
  | .int n => some (.ofInt n)
  | .float x => x.point?
  | _ => none

def isNumber : Value → Bool
  | .int _ => true
  | .float _ => true
  | _ => false

def isObject : Value → Bool
  | .object _ => true
  | _ => false

mutual

/-- Loose equality. -/
def same : Value → Value → Bool
  | .null, w => match w with
    | .null => true
    | _ => false
  | .bool b, w => decide (w.point? = some (.ofInt (if b then 1 else 0)))
  | .int n, w => decide (w.point? = some (.ofInt n))
  | .float x, w => match x.point? with
    | some p => decide (w.point? = some p)
    | none => false
  | .text s, w => match w with
    | .text t => decide (s = t)
    | _ => false
  | .bytes _ a, w => match w with
    | .bytes _ b => decide (a.data = b.data)
    | _ => false
  | .list xs, w => match w with
    | .list ys => sameItems xs ys
    | _ => false
  | .tuple xs, w => match w with
    | .tuple ys => sameItems xs ys
    | _ => false
  | .set xs, w => match w with
    | .set ys => decide (xs.length = ys.length) && sameMembers xs ys
    | _ => false
  | .object fs, w => match w with
    | .object gs => decide (fs.length = gs.length) && sameFields fs gs
    | _ => false
termination_by structural v => v

/-- Item by item. -/
def sameItems : List Value → List Value → Bool
  | [], ys => ys.isEmpty
  | x :: xs, ys => match ys with
    | [] => false
    | y :: ys => same x y && sameItems xs ys
termination_by structural xs => xs

/-- Each of the first is among the second. -/
def sameMembers : List Value → List Value → Bool
  | [], _ => true
  | x :: xs, ys => ys.any (fun y => same x y) && sameMembers xs ys
termination_by structural xs => xs

/-- Each key of the first has the same value in the second. -/
def sameFields : List (String × Value) → List (String × Value) → Bool
  | [], _ => true
  | (k, x) :: fs, gs =>
    (match gs.lookup k with
      | some y => same x y
      | none => false) && sameFields fs gs
termination_by structural fs => fs

end

mutual

/-- Whether a value may be a key or a member of a set; what can be changed may not. -/
def isKey : Value → Bool
  | .bytes fixed _ => fixed
  | .list _ => false
  | .set _ => false
  | .object _ => false
  | .tuple items => areKeys items
  | _ => true
termination_by structural v => v

def areKeys : List Value → Bool
  | [] => true
  | x :: xs => isKey x && areKeys xs
termination_by structural xs => xs

end

def memberOf (v : Value) (items : List Value) : Bool := items.any (fun w => same w v)

/-- The values without those that are the same as an earlier one. -/
def distinct (items : List Value) : List Value :=
  items.foldl (fun kept v => if v.memberOf kept then kept else kept ++ [v]) []

@[simp] theorem same_text (s t : String) : same (.text s) (.text t) = decide (s = t) := by
  simp [same]

@[simp] theorem isKey_text (s : String) : isKey (.text s) = true := by
  simp [isKey]

@[simp] theorem truthy_text (s : String) : truthy (.text s) = !s.isEmpty := rfl

end Value

end FreelanceBoard
