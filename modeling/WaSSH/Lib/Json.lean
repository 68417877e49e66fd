import Mathlib.Tactic
import Mathlib.Data.Nat.Notation
import Mathlib.Data.Int.Notation

/-!
# JSON values

The values `serde_json` parses, and the accessors that read them without failing.

* `Json`, `Json.get`, `Json.item`: indexing gives `null` where there is nothing;
* `as_str`, `as_bool`, `as_array`, `as_u64`.
-/

/-- A JSON value. Object keys are distinct. -/
inductive Json
  | null
  | bool (b : Bool)
  | int (n : ℤ)
  | float (digits : String)
  | str (s : String)
  | arr (items : List Json)
  | obj (fields : List (String × Json))

namespace Json

/-- `value[key]`. -/
def get (v : Json) (key : String) : Json :=
  match v with
  | obj fields => ((fields.find? (·.1 == key)).map Prod.snd).getD null
  | _ => null

/-- `value[index]`. -/
def item (v : Json) (index : ℕ) : Json :=
  match v with
  | arr items => items.getD index null
  | _ => null

def as_str : Json → Option String
  | str s => some s
  | _ => none

def as_bool : Json → Option Bool
  | bool b => some b
  | _ => none

def as_array : Json → Option (List Json)
  | arr items => some items
  | _ => none

def as_u64 : Json → Option ℕ
  | int n => if 0 ≤ n ∧ n < 2 ^ 64 then some n.toNat else none
  | _ => none

/-- `value[key].as_str().unwrap_or_default()`. -/
def text (v : Json) (key : String) : String := ((v.get key).as_str).getD ""

end Json
