import Mathlib.Data.List.Forall2

/-!
# Layered decisions

Layers are asked one after the other; the first one that knows an answer gives it.

* `Layer`, `Layer.answer`: what a layer denies and allows, denials first;
* `answer`: the answer of the first layer that has one;
* `answer_of_deny`: what the first layer denies is denied;
* **`answer_more_deny`**, **`answer_more_allow`**: with more denials an answer stays or becomes a
  denial, with more permissions it stays or becomes a permission.
-/

namespace Layers

variable {α : Type}

/-- What a layer denies and what it allows. -/
structure Layer (α : Type) where
  deny : α → Bool
  allow : α → Bool

/-- Denials come first; `none` is no answer. -/
def Layer.answer (l : Layer α) (x : α) : Option Bool :=
  if l.deny x then some false else if l.allow x then some true else none

/-- The answer of the first layer that has one. -/
def answer (layers : List (Layer α)) (x : α) : Option Bool :=
  layers.findSome? fun l => l.answer x

variable {x : α} {l l' : Layer α} {layers layers' : List (Layer α)}

theorem answer_cons (l : Layer α) (layers : List (Layer α)) (x : α) :
    answer (l :: layers) x = (l.answer x).or (answer layers x) := by
  unfold answer
  rw [List.findSome?_cons]
  cases l.answer x <;> rfl

/-- What the first layer denies is denied. -/
theorem answer_of_deny (h : l.deny x = true) (layers : List (Layer α)) :
    answer (l :: layers) x = some false := by
  rw [answer_cons, Layer.answer, if_pos h]
  rfl

/-- The second layer denies more, and allows the same. -/
def MoreDeny (x : α) (l l' : Layer α) : Prop :=
  (l.deny x = true → l'.deny x = true) ∧ l'.allow x = l.allow x

/-- The second layer allows more, and denies the same. -/
def MoreAllow (x : α) (l l' : Layer α) : Prop :=
  l'.deny x = l.deny x ∧ (l.allow x = true → l'.allow x = true)

theorem MoreDeny.answer (h : MoreDeny x l l') :
    l'.answer x = l.answer x ∨ l'.answer x = some false := by
  unfold Layer.answer
  rw [h.2]
  by_cases hdeny : l'.deny x = true
  · right
    rw [if_pos hdeny]
  · left
    rw [if_neg hdeny, if_neg fun hl => hdeny (h.1 hl)]

theorem MoreAllow.answer (h : MoreAllow x l l') :
    l'.answer x = l.answer x ∨ l.answer x = none ∧ l'.answer x = some true := by
  unfold Layer.answer
  rw [h.1]
  by_cases hdeny : l.deny x = true
  · left
    rw [if_pos hdeny, if_pos hdeny]
  · rw [if_neg hdeny, if_neg hdeny]
    by_cases hallow : l.allow x = true
    · left
      rw [if_pos hallow, if_pos (h.2 hallow)]
    · rw [if_neg hallow]
      by_cases hallow' : l'.allow x = true
      · right
        exact ⟨rfl, if_pos hallow'⟩
      · left
        rw [if_neg hallow']

/-- **With more denials** an answer stays or becomes a denial. -/
theorem answer_more_deny (h : List.Forall₂ (MoreDeny x) layers layers') :
    answer layers' x = answer layers x ∨ answer layers' x = some false := by
  induction h with
  | nil => exact .inl rfl
  | @cons l l' layers layers' hl _ ih =>
    rw [answer_cons, answer_cons]
    rcases hl.answer with hsame | hfalse
    · rw [hsame]
      cases l.answer x with
      | some b => exact .inl rfl
      | none => exact ih
    · right
      rw [hfalse]
      rfl

/-- **With more permissions** an answer stays or becomes a permission. -/
theorem answer_more_allow (h : List.Forall₂ (MoreAllow x) layers layers') :
    answer layers' x = answer layers x ∨ answer layers' x = some true := by
  induction h with
  | nil => exact .inl rfl
  | @cons l l' layers layers' hl _ ih =>
    rw [answer_cons, answer_cons]
    rcases hl.answer with hsame | ⟨-, htrue⟩
    · rw [hsame]
      cases l.answer x with
      | some b => exact .inl rfl
      | none => exact ih
    · right
      rw [htrue]
      rfl

end Layers
