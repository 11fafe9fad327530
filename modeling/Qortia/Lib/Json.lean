-- JSON values as `json.loads` gives them: an integer has no bound, and a float may be NaN or
-- an infinity.
import Mathlib.Data.Rat.Defs

namespace json

/-- A finite float is read as the rational number that it is. -/
inductive Number where
  | int (i : Int)
  | float (q : ℚ)
  | nan
  | infinity (negative : Bool)
  deriving DecidableEq

inductive Json where
  | null
  | bool (b : Bool)
  | number (n : Number)
  | string (s : String)
  | array (xs : List Json)
  | object (kvs : List (String × Json))

/-- The keys and values of an object. -/
abbrev Object := List (String × Json)

/-! ## Equality is decidable -/

mutual

def decEq : (a b : Json) → Decidable (a = b)
  | .null, .null => isTrue rfl
  | .bool a, .bool b => decidable_of_iff (a = b) (by simp)
  | .number a, .number b => decidable_of_iff (a = b) (by simp)
  | .string a, .string b => decidable_of_iff (a = b) (by simp)
  | .array a, .array b => @decidable_of_iff _ (a = b) (by simp) (decEqList a b)
  | .object a, .object b => @decidable_of_iff _ (a = b) (by simp) (decEqObject a b)
  | .null, .bool _ | .null, .number _ | .null, .string _ | .null, .array _ | .null, .object _
  | .bool _, .null | .bool _, .number _ | .bool _, .string _ | .bool _, .array _
  | .bool _, .object _ | .number _, .null | .number _, .bool _ | .number _, .string _
  | .number _, .array _ | .number _, .object _ | .string _, .null | .string _, .bool _
  | .string _, .number _ | .string _, .array _ | .string _, .object _ | .array _, .null
  | .array _, .bool _ | .array _, .number _ | .array _, .string _ | .array _, .object _
  | .object _, .null | .object _, .bool _ | .object _, .number _ | .object _, .string _
  | .object _, .array _ => isFalse nofun

def decEqList : (a b : List Json) → Decidable (a = b)
  | [], [] => isTrue rfl
  | [], _ :: _ | _ :: _, [] => isFalse nofun
  | x :: xs, y :: ys =>
    @decidable_of_iff _ (x = y ∧ xs = ys) (by simp)
      (@instDecidableAnd _ _ (decEq x y) (decEqList xs ys))

def decEqObject : (a b : List (String × Json)) → Decidable (a = b)
  | [], [] => isTrue rfl
  | [], _ :: _ | _ :: _, [] => isFalse nofun
  | (k, x) :: xs, (l, y) :: ys =>
    @decidable_of_iff _ (k = l ∧ x = y ∧ xs = ys) (by simp [and_assoc])
      (@instDecidableAnd _ _ _ (@instDecidableAnd _ _ (decEq x y) (decEqObject xs ys)))

end

instance : DecidableEq Json := decEq

/-! ## Reading a value -/

/-- `if value:` in Python. -/
def Json.truthy : Json → Bool
  | .null => false
  | .bool b => b
  | .number (.int i) => i ≠ 0
  | .number (.float q) => q ≠ 0
  | .number _ => true
  | .string s => s ≠ ""
  | .array xs => xs ≠ []
  | .object kvs => kvs ≠ []

/-- A text that PostgreSQL can store. -/
def no_nul (s : String) : Bool := '\x00' ∉ s.toList

def Number.finite : Number → Bool
  | .int _ | .float _ => true
  | .nan | .infinity _ => false

mutual

/-- `json.dumps(value)` is a JSONB: NaN and the infinities are no JSON, and JSONB has no
`\u0000`. -/
def Json.is_jsonb : Json → Bool
  | .null | .bool _ => true
  | .number n => n.finite
  | .string s => no_nul s
  | .array xs => all_jsonb xs
  | .object kvs => all_values_jsonb kvs

def all_jsonb : List Json → Bool
  | [] => true
  | x :: xs => x.is_jsonb && all_jsonb xs

def all_values_jsonb : List (String × Json) → Bool
  | [] => true
  | (k, x) :: kvs => no_nul k && x.is_jsonb && all_values_jsonb kvs

end

/-- `value.get(key)` of a dict. Of two equal keys, the last one in the text counts. -/
def get (kvs : Object) (key : String) : Option Json :=
  (kvs.reverse.find? fun kv => kv.1 = key).map (·.2)

/-- `value.pop(key, None)` of a dict. -/
def pop (kvs : Object) (key : String) : Object := kvs.filter fun kv => kv.1 ≠ key

/-- `value[key] = x` of a dict, and `||` of two JSONB objects of one key each. -/
def put (kvs : Object) (key : String) (x : Json) : Object := pop kvs key ++ [(key, x)]

/-- What was put under a key is found there. -/
@[simp] theorem get_put (kvs : Object) (key : String) (x : Json) :
    get (put kvs key x) key = some x := by
  simp [get, put]

end json
