import WaSSH.Lib.Text

/-!
# Trimmed texts

Texts that begin and end with characters that are no white space.

* `Starts`, `Ends`, `Trimmed`: such texts; **`trim_of_trimmed`**, **`trimmed_trim`**: trimming gives
  them, and leaves them alone;
* `starts_intercalate`, `ends_intercalate`: pieces with something between them.
-/

namespace Text

/-- A text that begins with a character that shows. -/
def Starts (t : List Char) : Prop := ∃ c rest, t = c :: rest ∧ ¬ is_whitespace c

/-- A text that ends in a character that shows. -/
def Ends (t : List Char) : Prop := ∃ start c, t = start ++ [c] ∧ ¬ is_whitespace c

/-- A text with no white space around it. -/
def Trimmed (t : List Char) : Prop := Starts t ∧ Ends t

variable {s t : List Char}

theorem Starts.append (h : Starts s) (t : List Char) : Starts (s ++ t) := by
  obtain ⟨c, rest, rfl, hc⟩ := h
  exact ⟨c, rest ++ t, rfl, hc⟩

theorem Ends.append (h : Ends t) (s : List Char) : Ends (s ++ t) := by
  obtain ⟨start, c, rfl, hc⟩ := h
  exact ⟨s ++ start, c, (List.append_assoc s start [c]).symm, hc⟩

theorem Ends.cons (h : Ends t) (c : Char) : Ends (c :: t) := h.append [c]

theorem Starts.ne_nil (h : Starts t) : t ≠ [] := by
  obtain ⟨c, rest, rfl, -⟩ := h
  exact List.cons_ne_nil c rest

theorem Ends.ne_nil (h : Ends t) : t ≠ [] := by
  obtain ⟨start, c, rfl, -⟩ := h
  exact List.append_ne_nil_of_right_ne_nil start (List.cons_ne_nil c [])

/-- A part at the front that is there begins as the whole does. -/
theorem Starts.of_append (h : Starts (s ++ t)) (hs : s ≠ []) : Starts s := by
  obtain ⟨c, rest, heq, hc⟩ := h
  obtain ⟨d, s, rfl⟩ := List.exists_cons_of_ne_nil hs
  obtain ⟨rfl, -⟩ := List.cons.inj heq
  exact ⟨d, s, rfl, hc⟩

/-- A part at the end that is there ends as the whole does. -/
theorem Ends.of_append (h : Ends (s ++ t)) (ht : t ≠ []) : Ends t := by
  obtain ⟨start, c, heq, hc⟩ := h
  obtain ⟨front, d, rfl⟩ : ∃ front d, t = front ++ [d] :=
    ⟨t.dropLast, t.getLast ht, (List.dropLast_append_getLast ht).symm⟩
  rw [← List.append_assoc] at heq
  obtain ⟨-, hlast⟩ := List.append_inj' heq rfl
  obtain ⟨rfl, -⟩ := List.cons.inj hlast
  exact ⟨front, d, rfl, hc⟩

theorem starts_iff (c : Char) (t : List Char) : Starts (c :: t) ↔ ¬ is_whitespace c :=
  ⟨fun ⟨_, _, heq, hc⟩ => (List.cons.inj heq).1 ▸ hc, fun hc => ⟨c, t, rfl, hc⟩⟩

theorem ends_concat_iff (t : List Char) (c : Char) : Ends (t ++ [c]) ↔ ¬ is_whitespace c := by
  refine ⟨fun ⟨start, d, heq, hd⟩ => ?_, fun hc => ⟨t, c, rfl, hc⟩⟩
  obtain ⟨-, hlast⟩ := List.append_inj' heq rfl
  exact (List.cons.inj hlast).1 ▸ hd

/-! ## Trimming -/

theorem trim_start_of_starts (h : Starts t) : trim_start t = t := by
  obtain ⟨c, rest, rfl, hc⟩ := h
  exact List.dropWhile_cons_of_neg hc

theorem trim_end_of_ends (h : Ends t) : trim_end t = t := by
  obtain ⟨start, c, rfl, hc⟩ := h
  exact List.rdropWhile_concat_neg _ _ _ hc

/-- **A trimmed text stays.** -/
theorem trim_of_trimmed (h : Trimmed t) : trim t = t := by
  rw [trim, trim_start_of_starts h.1, trim_end_of_ends h.2]

/-- **What trimming leaves** is trimmed, if it leaves anything. -/
theorem trimmed_trim (h : trim t ≠ []) : Trimmed (trim t) := by
  have hend : Ends (trim t) :=
    ⟨(trim t).dropLast, (trim t).getLast h, (List.dropLast_append_getLast h).symm,
      List.rdropWhile_last_not is_whitespace (trim_start t) h⟩
  obtain ⟨rest, hrest⟩ : trim t <+: trim_start t := List.rdropWhile_prefix _ _
  have hsome : trim_start t ≠ [] := by
    rw [← hrest]
    exact List.append_ne_nil_of_left_ne_nil h rest
  have hstart : Starts (trim_start t) :=
    ⟨(trim_start t).head hsome, (trim_start t).tail, (List.cons_head_tail hsome).symm,
      ne_true_of_eq_false (List.head_dropWhile_not is_whitespace hsome)⟩
  rw [← hrest] at hstart
  exact ⟨hstart.of_append h, hend⟩

/-! ## Pieces with something between them -/

/-- The first piece begins what the pieces make. -/
theorem starts_intercalate {sep : List Char} {ps : List (List Char)} (hne : ps ≠ [])
    (h : ∀ p ∈ ps, Starts p) : Starts (sep.intercalate ps) := by
  match ps, hne with
  | [p], _ => simpa using h p List.mem_cons_self
  | p :: q :: ps, _ =>
    rw [List.intercalate_cons_cons, List.append_assoc]
    exact (h p List.mem_cons_self).append _

/-- The last piece ends it. -/
theorem ends_intercalate {sep : List Char} {ps : List (List Char)} (hne : ps ≠ [])
    (h : ∀ p ∈ ps, Ends p) : Ends (sep.intercalate ps) := by
  induction ps with
  | nil => exact absurd rfl hne
  | cons p ps ih =>
    cases ps with
    | nil => simpa using h p List.mem_cons_self
    | cons q ps =>
      rw [List.intercalate_cons_cons]
      exact (ih (List.cons_ne_nil q ps) fun r hr => h r (List.mem_cons_of_mem p hr)).append _

end Text
