import Mathlib.Tactic

/-!
# Pieces by key

The pieces of several things come in one sequence, each with the key of its own. Put together under
their keys, only the order of the pieces of one key matters.

* `gather`: a map from the pieces;
* **`getElem?_gather`**: under a key stand the pieces of this key;
* `gather_append`: pieces in batches;
* `insert_eq_alter`, `modify_eq_alter`: other ways to put a piece in.
-/

namespace Keyed

open Std

variable {κ ν π : Type*} [Ord κ] [TransOrd κ]
variable (key : π → κ) (step : π → Option ν → Option ν)

/-- Each piece changes what stands under its key. -/
def gather (m : ExtTreeMap κ ν) (pieces : List π) : ExtTreeMap κ ν :=
  pieces.foldl (fun m p => m.alter (key p) (step p)) m

theorem gather_append (m : ExtTreeMap κ ν) (ps qs : List π) :
    gather key step m (ps ++ qs) = gather key step (gather key step m ps) qs := List.foldl_append

/-- **Under a key** stand its pieces, in their order. -/
theorem getElem?_gather [LawfulEqOrd κ] [DecidableEq κ] (m : ExtTreeMap κ ν) (pieces : List π) (k : κ) :
    (gather key step m pieces)[k]? =
      (pieces.filter (key · = k)).foldl (fun v p => step p v) m[k]? := by
  induction pieces generalizing m with
  | nil => rfl
  | cons p pieces ih =>
    show (gather key step (m.alter (key p) (step p)) pieces)[k]? = _
    rw [ih, ExtTreeMap.getElem?_alter, List.filter_cons]
    by_cases hk : key p = k
    · subst hk
      rw [if_pos compare_self, if_pos (by simp), List.foldl_cons]
    · rw [if_neg (fun h => hk (LawfulEqOrd.eq_of_compare h)), if_neg (by simpa using hk)]

theorem insert_eq_alter [LawfulEqOrd κ] (m : ExtTreeMap κ ν) (k : κ) (v : ν) :
    m.insert k v = m.alter k fun _ => some v := by
  ext k' : 1
  rw [ExtTreeMap.getElem?_insert, ExtTreeMap.getElem?_alter]

theorem modify_eq_alter [LawfulEqOrd κ] (m : ExtTreeMap κ ν) (k : κ) (f : ν → ν) :
    m.modify k f = m.alter k (Option.map f) := by
  ext k' : 1
  rw [ExtTreeMap.getElem?_modify, ExtTreeMap.getElem?_alter]

end Keyed
