import Mathlib.Data.List.Infix

/-!
# Markers around a text

A marker whose first item does not come up in it again cannot overlap itself, nor a marker of the
same length that begins with the same item.

* `infix_of_append_marker`: behind a text that does not have it, a marker is found at its place only;
* `infix_of_append_start`: it is not found across the marker in front.
-/

namespace Marker

variable {α : Type*} {x : α} {xs ss t before after : List α}

/-- Behind a text a marker is found at its place, or in the text. -/
theorem infix_of_append_marker (hx : x ∉ xs) (h : before ++ (x :: xs) ++ after = t ++ x :: xs) :
    after = [] ∨ x :: xs <:+: t := by
  rcases List.append_eq_append_iff.mp h with ⟨c, rfl, -⟩ | ⟨c, hbefore, hmarker⟩
  · exact .inr ⟨before, c, rfl⟩
  · cases c with
    | nil => exact .inr ⟨before, [], by rw [List.append_nil, hbefore, List.append_nil]⟩
    | cons y cs =>
      obtain ⟨rfl, hxs⟩ := List.cons_eq_cons.mp hmarker
      have hlength : xs.length = cs.length + after.length :=
        (congrArg List.length hxs).trans List.length_append
      -- what is left of the marker would be its own end
      refine .inl (List.eq_nil_of_length_eq_zero ?_)
      by_contra hafter
      have hend : x :: cs <:+ x :: xs :=
        List.suffix_of_suffix_length_le ⟨t, hbefore.symm⟩ ⟨before, rfl⟩ (by
          rw [List.length_cons, List.length_cons]
          omega)
      rcases List.suffix_cons_iff.mp hend with heq | hend
      · have hcons := congrArg List.length heq
        rw [List.length_cons, List.length_cons] at hcons
        omega
      · exact hx (hend.subset List.mem_cons_self)

/-- In front of a text another marker of its kind is not in the way. -/
theorem infix_of_append_start (hs : x ∉ ss) (hlength : xs.length = ss.length) (hne : xs ≠ ss)
    (h : x :: xs <:+: x :: ss ++ t) : x :: xs <:+: t := by
  obtain ⟨before, after, h⟩ := h
  rw [List.append_assoc] at h
  rcases List.append_eq_append_iff.mp h with ⟨c, hstart, hrest⟩ | ⟨c, -, hrest⟩
  · cases before with
    | nil =>
      rw [List.nil_append] at hstart
      rw [← hstart, List.cons_append, List.cons_append] at hrest
      exact absurd (List.append_inj_left (List.cons_injective hrest) hlength) hne
    | cons b before =>
      obtain ⟨rfl, hss⟩ := List.cons_eq_cons.mp hstart
      cases c with
      | nil => exact ⟨[], after, hrest⟩
      | cons y c =>
        obtain ⟨rfl, -⟩ := List.cons_eq_cons.mp hrest
        exact absurd (hss ▸ List.mem_append_right _ List.mem_cons_self) hs
  · exact ⟨c, after, by rw [hrest, List.append_assoc]⟩

end Marker
