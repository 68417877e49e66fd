import Mathlib.Data.List.Forall2
import Mathlib.Data.List.Count

/-!
# Two lists that tell the same

One list shows what happened and one reports it. An item of the one stands for an item of the other,
is shown without a report, or is reported without being shown.

* `Told`: the pairs stand in the same order;
* `append`, `split_left`, `split_right`: parts of the lists;
* **`split_at`**: an item that must be reported splits both lists at its report;
* `exists_shown`, `exists_report`, `countP_eq`: what is reported was shown, and the other way round;
* `congr_left`, `filterMap_left`, `filterMap_right`: lists that are rewritten.
-/

section Told

variable {α β : Type*}

/-- The second list reports what the first shows, in its order. -/
inductive Told (Same : α → β → Prop) (Alone : α → Prop) (Silent : β → Prop) :
    List α → List β → Prop
  | nil : Told Same Alone Silent [] []
  | both {a : α} {b : β} {as : List α} {bs : List β} (h : Same a b)
    (rest : Told Same Alone Silent as bs) : Told Same Alone Silent (a :: as) (b :: bs)
  | alone {a : α} {as : List α} {bs : List β} (h : Alone a)
    (rest : Told Same Alone Silent as bs) : Told Same Alone Silent (a :: as) bs
  | silent {b : β} {as : List α} {bs : List β} (h : Silent b)
    (rest : Told Same Alone Silent as bs) : Told Same Alone Silent as (b :: bs)

namespace Told

variable {Same : α → β → Prop} {Alone : α → Prop} {Silent : β → Prop} {as as' : List α}
  {bs bs' : List β} {a : α} {b : β}

theorem append (h : Told Same Alone Silent as bs) (h' : Told Same Alone Silent as' bs') :
    Told Same Alone Silent (as ++ as') (bs ++ bs') := by
  induction h with
  | nil => exact h'
  | both hab _ ih => exact .both hab ih
  | alone ha _ ih => exact .alone ha ih
  | silent hb _ ih => exact .silent hb ih

theorem of_alone (h : ∀ a ∈ as, Alone a) : Told Same Alone Silent as [] := by
  induction as with
  | nil => exact .nil
  | cons a as ih =>
    exact .alone (h a List.mem_cons_self) (ih fun b hb => h b (List.mem_cons_of_mem a hb))

/-- More is shown. -/
theorem show_more (h : Told Same Alone Silent as bs) (hmore : ∀ a ∈ as', Alone a) :
    Told Same Alone Silent (as ++ as') bs := by
  have hshown : Told Same Alone Silent as' [] := of_alone hmore
  have hall := h.append hshown
  rwa [List.append_nil] at hall

/-- What is shown is reported. -/
theorem concat (h : Told Same Alone Silent as bs) (hab : Same a b) :
    Told Same Alone Silent (as ++ [a]) (bs ++ [b]) :=
  h.append (.both hab .nil)

theorem concat_silent (h : Told Same Alone Silent as bs) (hb : Silent b) :
    Told Same Alone Silent as (bs ++ [b]) := by
  have hreported : Told Same Alone Silent [] [b] := .silent hb .nil
  have hall := h.append hreported
  rwa [List.append_nil] at hall

/-! ## Parts -/

theorem split_left (h : Told Same Alone Silent as bs) :
    ∀ {front back : List α}, as = front ++ back →
      ∃ first last, bs = first ++ last ∧ Told Same Alone Silent front first ∧
        Told Same Alone Silent back last := by
  induction h with
  | nil =>
    intro front back heq
    obtain ⟨rfl, rfl⟩ := List.append_eq_nil_iff.mp heq.symm
    exact ⟨[], [], rfl, .nil, .nil⟩
  | @both a b as bs hab hrest ih =>
    intro front back heq
    rcases front with _ | ⟨c, front⟩
    · obtain rfl : back = a :: as := heq.symm
      exact ⟨[], b :: bs, rfl, .nil, .both hab hrest⟩
    · obtain ⟨rfl, htail⟩ := List.cons.inj heq
      obtain ⟨first, last, rfl, hfirst, hlast⟩ := ih htail
      exact ⟨b :: first, last, rfl, .both hab hfirst, hlast⟩
  | @alone a as bs ha hrest ih =>
    intro front back heq
    rcases front with _ | ⟨c, front⟩
    · obtain rfl : back = a :: as := heq.symm
      exact ⟨[], bs, rfl, .nil, .alone ha hrest⟩
    · obtain ⟨rfl, htail⟩ := List.cons.inj heq
      obtain ⟨first, last, rfl, hfirst, hlast⟩ := ih htail
      exact ⟨first, last, rfl, .alone ha hfirst, hlast⟩
  | @silent b as bs hb hrest ih =>
    intro front back heq
    obtain ⟨first, last, rfl, hfirst, hlast⟩ := ih heq
    exact ⟨b :: first, last, rfl, .silent hb hfirst, hlast⟩

theorem split_right (h : Told Same Alone Silent as bs) :
    ∀ {first last : List β}, bs = first ++ last →
      ∃ front back, as = front ++ back ∧ Told Same Alone Silent front first ∧
        Told Same Alone Silent back last := by
  induction h with
  | nil =>
    intro first last heq
    obtain ⟨rfl, rfl⟩ := List.append_eq_nil_iff.mp heq.symm
    exact ⟨[], [], rfl, .nil, .nil⟩
  | @both a b as bs hab hrest ih =>
    intro first last heq
    rcases first with _ | ⟨c, first⟩
    · obtain rfl : last = b :: bs := heq.symm
      exact ⟨[], a :: as, rfl, .nil, .both hab hrest⟩
    · obtain ⟨rfl, htail⟩ := List.cons.inj heq
      obtain ⟨front, back, rfl, hfront, hback⟩ := ih htail
      exact ⟨a :: front, back, rfl, .both hab hfront, hback⟩
  | @alone a as bs ha hrest ih =>
    intro first last heq
    obtain ⟨front, back, rfl, hfront, hback⟩ := ih heq
    exact ⟨a :: front, back, rfl, .alone ha hfront, hback⟩
  | @silent b as bs hb hrest ih =>
    intro first last heq
    rcases first with _ | ⟨c, first⟩
    · obtain rfl : last = b :: bs := heq.symm
      exact ⟨[], as, rfl, .nil, .silent hb hrest⟩
    · obtain ⟨rfl, htail⟩ := List.cons.inj heq
      obtain ⟨front, back, rfl, hfront, hback⟩ := ih htail
      exact ⟨front, back, rfl, .silent hb hfront, hback⟩

/-- An item that must be reported, and its report. -/
theorem head_reported (h : Told Same Alone Silent as bs) (ha : ¬ Alone a) :
    ∀ {back : List α}, as = a :: back →
      ∃ first b last, bs = first ++ b :: last ∧ Same a b ∧ (∀ b' ∈ first, Silent b') := by
  induction h with
  | nil => exact nofun
  | @both c b as bs hab _ _ =>
    intro back heq
    obtain ⟨rfl, -⟩ := List.cons.inj heq
    exact ⟨[], b, bs, rfl, hab, nofun⟩
  | alone hc _ _ =>
    intro back heq
    obtain ⟨rfl, -⟩ := List.cons.inj heq
    exact absurd hc ha
  | @silent b as bs hb _ ih =>
    intro back heq
    obtain ⟨first, c, last, rfl, hsame, hsilent⟩ := ih heq
    exact ⟨b :: first, c, last, rfl, hsame, List.forall_mem_cons.mpr ⟨hb, hsilent⟩⟩

theorem of_silent (h : ∀ b ∈ bs, Silent b) : Told Same Alone Silent [] bs := by
  induction bs with
  | nil => exact .nil
  | cons b bs ih =>
    exact .silent (h b List.mem_cons_self) (ih fun c hc => h c (List.mem_cons_of_mem b hc))

/-- **An item that must be reported splits both lists**: what was shown before it is what is
reported before its report. -/
theorem split_at {front back : List α} (h : Told Same Alone Silent (front ++ a :: back) bs)
    (ha : ¬ Alone a) :
    ∃ first b last, bs = first ++ b :: last ∧ Same a b ∧ Told Same Alone Silent front first := by
  obtain ⟨first, last, rfl, hfront, hback⟩ := h.split_left rfl
  obtain ⟨more, b, rest, rfl, hsame, hsilent⟩ := hback.head_reported ha rfl
  refine ⟨first ++ more, b, rest, (List.append_assoc first more _).symm, hsame, ?_⟩
  have hreported : Told Same Alone Silent [] more := of_silent hsilent
  have hall := hfront.append hreported
  rwa [List.append_nil] at hall

/-! ## Items -/

/-- What is reported was shown. -/
theorem exists_shown (h : Told Same Alone Silent as bs) (hb : b ∈ bs) :
    Silent b ∨ ∃ a ∈ as, Same a b := by
  induction h with
  | nil => cases hb
  | @both a c as bs hab _ ih =>
    rcases List.mem_cons.mp hb with rfl | hb
    · exact .inr ⟨a, List.mem_cons_self, hab⟩
    · exact (ih hb).imp_right fun ⟨x, hx, hsame⟩ => ⟨x, List.mem_cons_of_mem a hx, hsame⟩
  | @alone a as bs _ _ ih =>
    exact (ih hb).imp_right fun ⟨x, hx, hsame⟩ => ⟨x, List.mem_cons_of_mem a hx, hsame⟩
  | silent hc _ ih =>
    rcases List.mem_cons.mp hb with rfl | hb
    · exact .inl hc
    · exact ih hb

/-- What was shown is reported. -/
theorem exists_report (h : Told Same Alone Silent as bs) (ha : a ∈ as) :
    Alone a ∨ ∃ b ∈ bs, Same a b := by
  induction h with
  | nil => cases ha
  | @both c b as bs hab _ ih =>
    rcases List.mem_cons.mp ha with rfl | ha
    · exact .inr ⟨b, List.mem_cons_self, hab⟩
    · exact (ih ha).imp_right fun ⟨x, hx, hsame⟩ => ⟨x, List.mem_cons_of_mem b hx, hsame⟩
  | alone hc _ ih =>
    rcases List.mem_cons.mp ha with rfl | ha
    · exact .inl hc
    · exact ih ha
  | @silent b as bs _ _ ih =>
    exact (ih ha).imp_right fun ⟨x, hx, hsame⟩ => ⟨x, List.mem_cons_of_mem b hx, hsame⟩

/-- A kind of items that are all shown and reported is counted alike. -/
theorem countP_eq {p : α → Bool} {q : β → Bool} (hsame : ∀ a b, Same a b → p a = q b)
    (halone : ∀ a, Alone a → p a = false) (hsilent : ∀ b, Silent b → q b = false)
    (h : Told Same Alone Silent as bs) : as.countP p = bs.countP q := by
  induction h with
  | nil => rfl
  | @both a b as bs hab _ ih => rw [List.countP_cons, List.countP_cons, ih, hsame a b hab]
  | @alone a as bs ha _ ih =>
    rw [List.countP_cons, halone a ha, ih]
    rfl
  | @silent b as bs hb _ ih =>
    rw [List.countP_cons, hsilent b hb, ih]
    rfl

/-! ## Lists rewritten -/

theorem congr_left {R : α → α → Prop} (hsame : ∀ a a' b, R a a' → Same a b → Same a' b)
    (halone : ∀ a a', R a a' → Alone a → Alone a') (h : Told Same Alone Silent as bs) :
    ∀ {as' : List α}, List.Forall₂ R as as' → Told Same Alone Silent as' bs := by
  induction h with
  | nil =>
    rintro _ ⟨⟩
    exact .nil
  | both hab _ ih =>
    rintro _ (_ | ⟨hr, hrest⟩)
    exact .both (hsame _ _ _ hr hab) (ih hrest)
  | alone ha _ ih =>
    rintro _ (_ | ⟨hr, hrest⟩)
    exact .alone (halone _ _ hr ha) (ih hrest)
  | silent hb _ ih => exact fun hr => .silent hb (ih hr)

/-- Items are rewritten, and no longer shown where their reports are silent. -/
theorem filterMap_left {f : α → Option α}
    (hsame : ∀ a b, Same a b → (∃ a', f a = some a' ∧ Same a' b) ∨ (f a = none ∧ Silent b))
    (halone : ∀ a a', Alone a → f a = some a' → Alone a')
    (h : Told Same Alone Silent as bs) : Told Same Alone Silent (as.filterMap f) bs := by
  induction h with
  | nil => exact .nil
  | @both a b as bs hab _ ih =>
    rcases hsame a b hab with ⟨a', ha', hab'⟩ | ⟨hnone, hb⟩
    · rw [List.filterMap_cons_some ha']
      exact .both hab' ih
    · rw [List.filterMap_cons_none hnone]
      exact .silent hb ih
  | @alone a as bs ha _ ih =>
    rcases hf : f a with _ | a'
    · rwa [List.filterMap_cons_none hf]
    · rw [List.filterMap_cons_some hf]
      exact .alone (halone a a' ha hf) ih
  | silent hb _ ih => exact .silent hb ih

/-- Reports are rewritten, and left out where nothing shown needs them. -/
theorem filterMap_right {f : β → Option β}
    (hsame : ∀ a b, Same a b → (∃ b', f b = some b' ∧ Same a b') ∨ (f b = none ∧ Alone a))
    (hsilent : ∀ b b', Silent b → f b = some b' → Silent b')
    (h : Told Same Alone Silent as bs) : Told Same Alone Silent as (bs.filterMap f) := by
  induction h with
  | nil => exact .nil
  | @both a b as bs hab _ ih =>
    rcases hsame a b hab with ⟨b', hb', hab'⟩ | ⟨hnone, ha⟩
    · rw [List.filterMap_cons_some hb']
      exact .both hab' ih
    · rw [List.filterMap_cons_none hnone]
      exact .alone ha ih
  | alone ha _ ih => exact .alone ha ih
  | @silent b as bs hb _ ih =>
    rcases hf : f b with _ | b'
    · rwa [List.filterMap_cons_none hf]
    · rw [List.filterMap_cons_some hf]
      exact .silent (hsilent b b' hb hf) ih

end Told

end Told
