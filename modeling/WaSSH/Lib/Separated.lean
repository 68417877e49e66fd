import WaSSH.Lib.Text

/-!
# Texts between doubled characters

Texts joined by a separator of two equal characters, and what splitting at the separator reads.

* `Apart`: no text holds the separator or, before a separator, ends in its character;
* `pieces_apart`: what is read is apart;
* **`pieces_intercalate`**: texts that are apart are read back;
* `eq_of_getD`: the pieces are known from their positions.
-/

namespace Text

/-- No text holds `cc`, and none but the last ends in `c`. -/
def Apart (c : Char) : List (List Char) → Prop
  | [] => True
  | [p] => ¬ [c, c] <:+: p
  | p :: ps => ¬ [c, c] <:+: p ∧ p.getLast? ≠ some c ∧ Apart c ps

theorem apart_cons_iff {c : Char} {p : List Char} : ∀ {ps : List (List Char)}, ps ≠ [] →
    (Apart c (p :: ps) ↔ ¬ [c, c] <:+: p ∧ p.getLast? ≠ some c ∧ Apart c ps)
  | [], h => absurd rfl h
  | _ :: _, _ => Iff.rfl

theorem apart_iff {c : Char} : ∀ {ps : List (List Char)},
    Apart c ps ↔ (∀ p ∈ ps, ¬ [c, c] <:+: p) ∧ ∀ p ∈ ps.dropLast, p.getLast? ≠ some c
  | [] => by simp [Apart]
  | [p] => by simp [Apart]
  | p :: q :: ps => by
    rw [apart_cons_iff (List.cons_ne_nil _ _), apart_iff, List.dropLast_cons_cons,
      List.forall_mem_cons (l := q :: ps), List.forall_mem_cons (l := (q :: ps).dropLast)]
    tauto

theorem pieces_pair_match (c : Char) (t : List Char) :
    pieces [c, c] 0 (c :: c :: t) = [] :: pieces [c, c] 0 t := by
  rw [pieces, if_pos (by simp)]
  rfl

theorem pieces_pair_step {c d : Char} {t : List Char} (h : ¬ [c, c] <+: d :: t) :
    pieces [c, c] 0 (d :: t) = (pieces [c, c] 0 t).modifyHead (d :: ·) := by
  rw [pieces, if_neg (by rwa [List.isPrefixOf_iff_prefix])]

/-- A text without the separator is one piece. -/
theorem pieces_of_not_infix {c : Char} : ∀ {t : List Char}, ¬ [c, c] <:+: t →
    pieces [c, c] 0 t = [t]
  | [], _ => rfl
  | d :: t, h => by
    rw [List.infix_cons_iff, not_or] at h
    rw [pieces_pair_step h.1, pieces_of_not_infix h.2]
    rfl

/-- A piece and the separator behind it. -/
theorem pieces_append {c : Char} (rest : List Char) : ∀ {p : List Char}, ¬ [c, c] <:+: p →
    p.getLast? ≠ some c → pieces [c, c] 0 (p ++ [c, c] ++ rest) = p :: pieces [c, c] 0 rest
  | [], _, _ => pieces_pair_match c rest
  | d :: p, h, hlast => by
    rw [List.infix_cons_iff, not_or] at h
    have hstart : ¬ [c, c] <+: d :: (p ++ [c, c] ++ rest) := by
      rw [List.cons_prefix_cons]
      rintro ⟨rfl, hp⟩
      rcases p with _ | ⟨e, p⟩
      · exact hlast rfl
      · have he := (List.cons_prefix_cons.mp hp).1
        exact h.1 (he ▸ ⟨p, rfl⟩)
    have hrest : p.getLast? ≠ some c := by
      rcases p with _ | ⟨e, p⟩
      · simp
      · rwa [List.getLast?_cons_cons] at hlast
    rw [List.cons_append, List.cons_append, pieces_pair_step hstart, pieces_append rest h.2 hrest]
    rfl

/-- **Texts that are apart are read back.** -/
theorem pieces_intercalate {c : Char} : ∀ {ps : List (List Char)}, ps ≠ [] → Apart c ps →
    pieces [c, c] 0 ([c, c].intercalate ps) = ps
  | [], h, _ => absurd rfl h
  | [p], _, h => by
    rw [List.intercalate_singleton]
    exact pieces_of_not_infix h
  | p :: q :: ps, _, h => by
    rw [List.intercalate_cons_of_ne_nil (List.cons_ne_nil _ _), pieces_append _ h.1 h.2.1,
      pieces_intercalate (List.cons_ne_nil _ _) h.2.2]

/-- A character in front of the first piece. -/
theorem Apart.modifyHead {c d : Char} {t : List Char} (h : ¬ [c, c] <+: d :: t) :
    ∀ {ps : List (List Char)}, [c, c].intercalate ps = t → Apart c ps →
      Apart c (ps.modifyHead (d :: ·))
  | [], _, _ => trivial
  | [p], ht, hps => by
    rw [List.intercalate_singleton] at ht
    subst ht
    change ¬ [c, c] <:+: d :: p
    rw [List.infix_cons_iff, not_or]
    exact ⟨h, hps⟩
  | p :: q :: ps, ht, hps => by
    rw [List.intercalate_cons_of_ne_nil (List.cons_ne_nil _ _)] at ht
    subst ht
    refine ⟨?_, ?_, hps.2.2⟩
    · rw [List.infix_cons_iff, not_or]
      refine ⟨fun hp => h (hp.trans ⟨[c, c] ++ [c, c].intercalate (q :: ps), ?_⟩), hps.1⟩
      rw [List.cons_append, List.append_assoc]
    · rcases p with _ | ⟨e, p⟩
      · intro hd
        have hd : d = c := Option.some.inj hd
        subst hd
        exact h ⟨d :: [d, d].intercalate (q :: ps), rfl⟩
      · rw [List.getLast?_cons_cons]
        exact hps.2.1

/-- What is read is apart. -/
theorem pieces_apart (c : Char) : ∀ (n : ℕ) (t : List Char), t.length ≤ n →
    Apart c (pieces [c, c] 0 t)
  | _, [], _ => by
    change ¬ [c, c] <:+: []
    simp
  | 0, _ :: _, h => absurd h (Nat.not_succ_le_zero _)
  | n + 1, d :: t, h => by
    have hlen : t.length ≤ n := Nat.le_of_succ_le_succ h
    by_cases hp : [c, c] <+: d :: t
    · obtain ⟨rest, hrest⟩ := hp
      rw [← hrest]
      change Apart c (pieces [c, c] 0 (c :: c :: rest))
      rw [pieces_pair_match]
      have hshort : rest.length ≤ n := by
        have := congrArg List.length hrest
        simp only [List.length_append, List.length_cons] at this
        omega
      have ih := pieces_apart c n rest hshort
      obtain ⟨q, ps, hps⟩ := List.exists_cons_of_ne_nil (pieces_ne_nil [c, c] rest 0)
      rw [hps] at ih ⊢
      exact ⟨by simp, by simp, ih⟩
    · rw [pieces_pair_step hp]
      have hjoin := intercalate_pieces (List.cons_ne_nil c [c]) t 0 (Nat.zero_le _)
      rw [List.drop_zero] at hjoin
      exact Apart.modifyHead hp hjoin (pieces_apart c n t hlen)

/-- Two ways to cut a text that agree at every position are one. -/
theorem eq_of_getD {sep : List Char} (hsep : sep ≠ []) : ∀ {ps qs : List (List Char)},
    ps ≠ [] → qs ≠ [] → sep.intercalate ps = sep.intercalate qs →
      (∀ i, ps.getD i [] = qs.getD i []) → ps = qs
  | [], _, h, _, _, _ => absurd rfl h
  | _, [], _, h, _, _ => absurd rfl h
  | p :: ps, q :: qs, _, _, hjoin, hget => by
    have hhead : p = q := hget 0
    subst hhead
    have hlonger : ∀ rest : List Char, p ≠ p ++ sep ++ rest := by
      intro rest h
      have := congrArg List.length h
      simp only [List.length_append] at this
      exact hsep (List.length_eq_zero_iff.mp (by omega))
    rcases ps with _ | ⟨p', ps⟩ <;> rcases qs with _ | ⟨q', qs⟩
    · rfl
    · rw [List.intercalate_singleton,
        List.intercalate_cons_of_ne_nil (List.cons_ne_nil _ _)] at hjoin
      exact absurd hjoin (hlonger _)
    · rw [List.intercalate_singleton,
        List.intercalate_cons_of_ne_nil (List.cons_ne_nil _ _)] at hjoin
      exact absurd hjoin.symm (hlonger _)
    · rw [List.intercalate_cons_of_ne_nil (List.cons_ne_nil _ _),
        List.intercalate_cons_of_ne_nil (List.cons_ne_nil _ _)] at hjoin
      rw [eq_of_getD hsep (List.cons_ne_nil _ _) (List.cons_ne_nil _ _)
        (List.append_cancel_left hjoin) (fun i => hget (i + 1))]

end Text
