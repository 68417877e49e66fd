import WaSSH.Agent.PatchText

/-!
# Patches applied

A diff of two texts, written out and applied to the first, should give the second.

* `header_run`, `front_run`, `hunk_run`, `hunks_run`: what the lines of a diff do;
* **`apply_render`**: the text that comes of it, and `apply_render_iff`;
* `stated`, `Matches`, `mismatch_refused`: what any patch states of the text;
* `CutsCharacter`, `apply_panics_iff`: the patches that are not even refused;
* **`patch_iff`**: the diffs and patches that come out right.
-/

namespace WaSSH.Agent

variable {P : Type}

/-! ## The lines of a hunk -/

/-- What an operation leaves once a line read from the patch has lost its carriage return. -/
def LineOp.read : LineOp → Option (List Char)
  | keep line => some line
  | delete _ => none
  | insert line => some (Lines.strip_return line)

section Run

variable {lines : List (List Char)} {st : PatchState}

theorem expect_line_read {index : ℕ} {line : List Char} (h : lines[index]? = some line) :
    expect_line (P := P) lines index (Lines.strip_return line) = .ok line := by
  unfold expect_line
  rw [h]
  dsimp only
  rw [Lines.trim_strip_return, if_pos rfl]

theorem hunk_line_op (o : LineOp) (h : o.before.toList <+: lines.drop st.cursor) :
    hunk_line (P := P) lines st (Lines.strip_return (BodyLine.op o).written) =
      .ok ⟨st.output ++ o.read.toList, st.cursor + o.before.toList.length, st.hunks⟩ := by
  have hline {line : List Char} (hl : [line] <+: lines.drop st.cursor) :
      lines[st.cursor]? = some line := by
    obtain ⟨rest, hrest⟩ := hl
    rw [← List.head?_drop, ← hrest]
    rfl
  cases o with
  | keep line =>
    show hunk_line lines st (Lines.strip_return (' ' :: line)) = _
    rw [Lines.strip_return_cons (by decide), hunk_line, if_neg (by decide), if_pos rfl,
      expect_line_read (hline h)]
    rfl
  | delete line =>
    show hunk_line lines st (Lines.strip_return ('-' :: line)) = _
    rw [Lines.strip_return_cons (by decide), hunk_line, if_neg (by decide), if_neg (by decide),
      if_pos rfl, expect_line_read (hline h)]
    show Except.ok (PatchState.mk st.output (st.cursor + 1) st.hunks) = _
    rw [show LineOp.read (.delete line) = none from rfl, Option.toList_none, List.append_nil]
    rfl
  | insert line =>
    show hunk_line lines st (Lines.strip_return ('+' :: line)) = _
    rw [Lines.strip_return_cons (by decide), hunk_line, if_neg (by decide), if_neg (by decide),
      if_neg (by decide), if_pos rfl]
    rfl

theorem hunk_line_idle {b : BodyLine} (h : b = .blank ∨ ∃ text, b = .note text) :
    hunk_line (P := P) lines st (Lines.strip_return b.written) = .ok st := by
  rcases h with rfl | ⟨text, rfl⟩
  · rfl
  · show hunk_line lines st (Lines.strip_return ('\\' :: text)) = _
    rw [Lines.strip_return_cons (by decide), hunk_line, if_neg (by decide), if_neg (by decide),
      if_neg (by decide), if_neg (by decide), if_pos rfl]

/-- A line of a body opens no hunk and closes none. -/
theorem patch_lines_body (b : BodyLine) {st' : PatchState} (rest : List (List Char))
    (h : hunk_line (P := P) lines st (Lines.strip_return b.written) = .ok st') :
    patch_lines (P := P) lines (Lines.strip_return b.written :: rest) true st =
      patch_lines lines rest true st' := by
  have hmarked {c : Char} (hc : c ≠ '\r') (hat : c ≠ '@') (hd : c ≠ 'd') (line : List Char) :
      ∃ d text, Lines.strip_return (c :: line) = d :: text ∧ d ≠ '@' ∧ d ≠ 'd' :=
    ⟨c, Lines.strip_return line, Lines.strip_return_cons hc line, hat, hd⟩
  have hmarker : Lines.strip_return b.written = [] ∨
      ∃ c text, Lines.strip_return b.written = c :: text ∧ c ≠ '@' ∧ c ≠ 'd' := by
    rcases b with (line | line | line) | _ | text
    · exact .inr (hmarked (by decide) (by decide) (by decide) line)
    · exact .inr (hmarked (by decide) (by decide) (by decide) line)
    · exact .inr (hmarked (by decide) (by decide) (by decide) line)
    · exact .inl rfl
    · exact .inr (hmarked (by decide) (by decide) (by decide) text)
  have hstart : Text.starts_with (Lines.strip_return b.written) "@@".toList = false ∧
      Text.starts_with (Lines.strip_return b.written) "diff ".toList = false := by
    rcases hmarker with hnil | ⟨c, text, hcons, hat, hd⟩
    · rw [hnil]
      exact ⟨rfl, rfl⟩
    · rw [hcons]
      refine ⟨?_, ?_⟩
      · show ('@' == c && _) = false
        rw [beq_eq_false_iff_ne.mpr hat.symm, Bool.false_and]
      · show ('d' == c && _) = false
        rw [beq_eq_false_iff_ne.mpr hd.symm, Bool.false_and]
  rw [patch_lines, patch_line, hstart.1, hstart.2, h]
  rfl

theorem front_run : ∀ {front : List BodyLine} (st : PatchState) (rest : List (List Char)),
    (∀ b ∈ front, b.has_marker = true) →
    (front.filterMap BodyLine.line_op).filterMap LineOp.before <+: lines.drop st.cursor →
    patch_lines (P := P) lines (front.map (Lines.strip_return ·.written) ++ rest) true st =
      patch_lines lines rest true
        ⟨st.output ++ (front.filterMap BodyLine.line_op).filterMap LineOp.read,
          st.cursor + ((front.filterMap BodyLine.line_op).filterMap LineOp.before).length, st.hunks⟩
  | [], st, rest, _, _ => by simp
  | .blank :: _, _, _, h, _ => absurd (h .blank List.mem_cons_self) (by decide)
  | .note text :: front, st, rest, h, hfit => by
    rw [List.map_cons, List.cons_append, patch_lines_body _ _ (hunk_line_idle (.inr ⟨text, rfl⟩))]
    exact front_run st rest (fun b hb => h b (List.mem_cons_of_mem _ hb)) hfit
  | .op o :: front, st, rest, h, hfit => by
    have hops : (BodyLine.op o :: front).filterMap BodyLine.line_op =
        o :: front.filterMap BodyLine.line_op := rfl
    have hcons (f : LineOp → Option (List Char)) (os : List LineOp) :
        (o :: os).filterMap f = (f o).toList ++ os.filterMap f := by
      rw [List.filterMap_cons]
      cases f o <;> rfl
    rw [hops, hcons] at hfit ⊢
    rw [hcons]
    have hhere : o.before.toList <+: lines.drop st.cursor :=
      (List.prefix_append _ _).trans hfit
    have hrest : (front.filterMap BodyLine.line_op).filterMap LineOp.before <+:
        lines.drop (st.cursor + o.before.toList.length) := by
      obtain ⟨tail, htail⟩ := hfit
      rw [← List.drop_drop, ← htail, List.append_assoc, List.drop_left]
      exact List.prefix_append _ _
    rw [List.map_cons, List.cons_append, patch_lines_body _ _ (hunk_line_op o hhere),
      front_run _ rest (fun b hb => h b (List.mem_cons_of_mem _ hb)) hrest]
    dsimp only
    rw [List.append_assoc, List.length_append, Nat.add_assoc]

theorem back_run : ∀ {back : List BodyLine} (rest : List (List Char)),
    (∀ b ∈ back, b = .blank ∨ ∃ text, b = .note text) →
    patch_lines (P := P) lines (back.map (Lines.strip_return ·.written) ++ rest) true st =
      patch_lines lines rest true st
  | [], _, _ => rfl
  | b :: back, rest, h => by
    rw [List.map_cons, List.cons_append,
      patch_lines_body _ _ (hunk_line_idle (h b List.mem_cons_self)),
      back_run rest fun b hb => h b (List.mem_cons_of_mem _ hb)]

/-- A header opens its hunk. -/
theorem header_run {h : Hunk} {inside : Bool} (rest : List (List Char))
    (hcursor : st.cursor ≤ h.start) (hstart : h.start ≤ lines.length)
    (hsize : h.start + 1 < 2 ^ 64) (hlength : h.before.length < 2 ^ 64) :
    patch_lines (P := P) lines (Lines.strip_return h.header :: rest) inside st =
      patch_lines lines rest true
        ⟨st.output ++ (lines.take h.start).drop st.cursor, h.start, st.hunks + 1⟩ := by
  have hopen : open_hunk (P := P) lines st (Lines.strip_return h.header) =
      .ok ⟨st.output ++ (lines.take h.start).drop st.cursor, h.start, st.hunks + 1⟩ := by
    unfold open_hunk
    rw [parse_header h hsize hlength]
    dsimp only [bind, Except.bind]
    have hline : (if h.before.length = 0 then
          if h.before.length = 0 then h.start else h.start + 1
        else (if h.before.length = 0 then h.start else h.start + 1) - 1) = h.start := by
      split_ifs <;> omega
    rw [hline, if_neg (by omega)]
    rfl
  have hheader : Text.starts_with (Lines.strip_return h.header) "@@".toList = true := by
    unfold Hunk.header
    rw [← List.append_assoc, Lines.strip_return_append (by decide)]
    rfl
  rw [patch_lines, patch_line, hheader, if_pos rfl, hopen]
  rfl

/-- The blank lines at the end of a body are kept as they are read. -/
theorem read_back {back : List BodyLine} (h : ∀ b ∈ back, b = .blank ∨ ∃ text, b = .note text) :
    (back.filterMap BodyLine.line_op).filterMap LineOp.read =
      (back.filterMap BodyLine.line_op).filterMap LineOp.before := by
  rw [List.filterMap_filterMap, List.filterMap_filterMap]
  refine List.filterMap_congr fun b hb => ?_
  rcases h b hb with rfl | ⟨text, rfl⟩
  · rfl
  · rfl

/-- The lines up to one place and from there on to the next. -/
theorem take_drop_append {cursor i start : ℕ} (hcursor : cursor ≤ i) (hstart : i ≤ start) :
    (lines.take i).drop cursor ++ (lines.take start).drop i = (lines.take start).drop cursor := by
  have hsum : start - cursor = (i - cursor) + (start - i) := by omega
  rw [List.drop_take, List.drop_take, List.drop_take, hsum, List.take_add, List.drop_drop,
    Nat.add_sub_cancel' hcursor]

/-- **Step lemma**: what one hunk does. -/
theorem hunk_run {old tail : List (List Char)} (hlines : lines = old ++ tail)
    (hsize : old.length + 1 < 2 ^ 64) {h : Hunk} {i : ℕ} (inside : Bool) (rest : List (List Char))
    (hblanks : h.BlanksLast) (hcursor : st.cursor ≤ i) (hstart : i ≤ h.start)
    (hin : h.start ≤ old.length) (hbefore : h.before <+: old.drop h.start) :
    ∃ next : PatchState,
      patch_lines (P := P) lines (h.written.map Lines.strip_return ++ rest) inside st =
          patch_lines lines rest true next ∧
        next.hunks = st.hunks + 1 ∧ next.cursor ≤ h.start + h.before.length ∧
        next.output ++ (lines.take (h.start + h.before.length)).drop next.cursor =
          st.output ++ (lines.take i).drop st.cursor ++
            ((old.take h.start).drop i ++ h.ops.filterMap LineOp.read) := by
  obtain ⟨front, back, hbody, hfront, hback⟩ := hblanks
  have hops : h.ops = front.filterMap BodyLine.line_op ++ back.filterMap BodyLine.line_op := by
    unfold Hunk.ops
    rw [hbody, List.filterMap_append]
  have hkept := read_back hback
  have hparts : h.before = (front.filterMap BodyLine.line_op).filterMap LineOp.before ++
      (back.filterMap BodyLine.line_op).filterMap LineOp.before := by
    unfold Hunk.before
    rw [hops, List.filterMap_append]
  have hlength : h.before.length ≤ old.length - h.start := by
    have := hbefore.length_le
    rwa [List.length_drop] at this
  have hwritten : h.written.map Lines.strip_return ++ rest =
      Lines.strip_return h.header :: (front.map (Lines.strip_return ·.written) ++
        (back.map (Lines.strip_return ·.written) ++ rest)) := by
    rw [Hunk.written, List.map_cons, List.map_map, hbody, List.map_append, List.cons_append,
      List.append_assoc]
    rfl
  have hbelow : lines.length = old.length + tail.length := by rw [hlines, List.length_append]
  obtain ⟨behind, hbehind⟩ : h.before <+: lines.drop h.start := by
    rw [hlines, List.drop_append_of_le_length hin]
    exact hbefore.trans (List.prefix_append _ _)
  rw [hparts, List.append_assoc] at hbehind
  refine ⟨⟨st.output ++ (lines.take h.start).drop st.cursor ++
      (front.filterMap BodyLine.line_op).filterMap LineOp.read,
    h.start + ((front.filterMap BodyLine.line_op).filterMap LineOp.before).length,
    st.hunks + 1⟩, ?_, rfl, ?_, ?_⟩
  · rw [hwritten, header_run _ (hcursor.trans hstart) (by omega) (by omega) (by omega),
      front_run ⟨_, h.start, _⟩ _ hfront ⟨_, hbehind⟩, back_run _ hback]
  · rw [hparts, List.length_append]
    exact Nat.add_le_add_left (Nat.le_add_right _ _) _
  · -- what is behind the cursor in the hunk are its blank lines
    have hskipped : (lines.take (h.start + h.before.length)).drop
        (h.start + ((front.filterMap BodyLine.line_op).filterMap LineOp.before).length) =
          (back.filterMap BodyLine.line_op).filterMap LineOp.before := by
      rw [List.drop_take, ← List.drop_drop, ← hbehind, List.drop_left, hparts, List.length_append,
        Nat.add_sub_add_left, Nat.add_sub_cancel_left, List.take_left]
    have htake : old.take h.start = lines.take h.start := by
      rw [hlines, List.take_append_of_le_length hin]
    have hread : h.ops.filterMap LineOp.read =
        (front.filterMap BodyLine.line_op).filterMap LineOp.read ++
          (back.filterMap BodyLine.line_op).filterMap LineOp.before := by
      rw [hops, List.filterMap_append, hkept]
    dsimp only
    rw [hskipped, hread, htake, ← take_drop_append hcursor hstart]
    simp only [List.append_assoc]

/-- **Run lemma**: what stands behind the last hunk of a diff is kept, and so is what is kept of
blank lines without a marker. -/
theorem hunks_run {old tail : List (List Char)} (hlines : lines = old ++ tail)
    (hsize : old.length + 1 < 2 ^ 64) :
    ∀ {hunks : List Hunk} {i : ℕ} (st : PatchState) (inside : Bool),
    (∀ h ∈ hunks, h.BlanksLast) → st.cursor ≤ i → i ≤ old.length → Fits old i hunks →
    ∃ st' : PatchState,
      patch_lines (P := P) lines ((hunks.flatMap Hunk.written).map Lines.strip_return) inside st =
          .ok st' ∧
        st'.hunks = st.hunks + hunks.length ∧
        st'.output ++ lines.drop st'.cursor =
          st.output ++ (lines.take i).drop st.cursor ++ (turned LineOp.read old i hunks ++ tail)
  | [], i, st, inside, _, hcursor, hi, _ => by
    refine ⟨st, rfl, rfl, ?_⟩
    have hback : lines.drop i = old.drop i ++ tail := by
      rw [hlines, List.drop_append_of_le_length hi]
    have hlength : st.cursor ≤ (lines.take i).length := by
      rw [List.length_take, hlines, List.length_append]
      omega
    have hdrop : lines.drop st.cursor = (lines.take i).drop st.cursor ++ lines.drop i := by
      rw [← List.drop_append_of_le_length hlength, List.take_append_drop]
    rw [hdrop, hback, List.append_assoc]
    rfl
  | h :: hunks, i, st, inside, hblanks, hcursor, hi, ⟨hstart, hin, hbefore, hfits⟩ => by
    have hlength := hbefore.length_le
    rw [List.length_drop] at hlength
    obtain ⟨next, hhunk, hone, hnext, hout⟩ := hunk_run hlines hsize inside
      ((hunks.flatMap Hunk.written).map Lines.strip_return) (hblanks h List.mem_cons_self) hcursor
      hstart hin hbefore
    obtain ⟨st', hrun, hmore, hall⟩ := hunks_run hlines hsize next true
      (fun other hother => hblanks other (List.mem_cons_of_mem _ hother)) hnext (by omega) hfits
    refine ⟨st', ?_, ?_, ?_⟩
    · rw [List.flatMap_cons, List.map_append, hhunk, hrun]
    · rw [hmore, hone, List.length_cons, Nat.add_assoc, Nat.add_comm 1]
    · rw [hall, hout, turned]
      simp only [List.append_assoc]

/-- Before the first header a line means nothing. -/
theorem preamble_run (rest : List (List Char)) : ∀ {preamble : List (List Char)},
    (∀ line ∈ preamble, Text.starts_with line "@@".toList = false) →
    patch_lines (P := P) lines (preamble.map Lines.strip_return ++ rest) false st =
      patch_lines lines rest false st
  | [], _ => rfl
  | line :: preamble, h => by
    have hline : Text.starts_with (Lines.strip_return line) "@@".toList = false := by
      rw [Bool.eq_false_iff]
      intro hstart
      have hprefix := (List.isPrefixOf_iff_prefix.mp hstart).trans (Lines.strip_return_prefix line)
      rw [← List.isPrefixOf_iff_prefix] at hprefix
      exact absurd hprefix (Bool.eq_false_iff.mp (h line List.mem_cons_self))
    rw [List.map_cons, List.cons_append, patch_lines, patch_line, hline]
    exact preamble_run rest fun other hother => h other (List.mem_cons_of_mem _ hother)

end Run

/-! ## What a diff comes out as -/

section Turned

variable {old : List (List Char)} {f : LineOp → Option (List Char)}

theorem mem_turned {line : List Char} : ∀ {hunks : List Hunk} {i : ℕ}, line ∈ turned f old i hunks →
    line ∈ old ∨ ∃ h ∈ hunks, ∃ o ∈ h.ops, f o = some line
  | [], _, h => .inl (List.mem_of_mem_drop h)
  | hunk :: hunks, i, h => by
    rw [turned, List.mem_append, List.mem_append] at h
    rcases h with h | h | h
    · exact .inl (List.mem_of_mem_take (List.mem_of_mem_drop h))
    · obtain ⟨o, ho, hf⟩ := List.mem_filterMap.mp h
      exact .inr ⟨hunk, List.mem_cons_self, o, ho, hf⟩
    · refine (mem_turned h).imp_right fun ⟨other, hother, hline⟩ => ?_
      exact ⟨other, List.mem_cons_of_mem _ hother, hline⟩

theorem mem_turned_of_mem {hunk : Hunk} {o : LineOp} {line : List Char} (ho : o ∈ hunk.ops)
    (hf : f o = some line) :
    ∀ {hunks : List Hunk} {i : ℕ}, hunk ∈ hunks → line ∈ turned f old i hunks
  | h :: hunks, i, hmem => by
    rw [turned, List.mem_append, List.mem_append]
    rcases List.mem_cons.mp hmem with rfl | hmem
    · exact .inr (.inl (List.mem_filterMap.mpr ⟨o, ho, hf⟩))
    · exact .inr (.inr (mem_turned_of_mem ho hf hmem))

theorem mem_before_of_fits {hunk : Hunk} : ∀ {hunks : List Hunk} {i : ℕ}, Fits old i hunks →
    hunk ∈ hunks → ∀ line ∈ hunk.before, line ∈ old
  | h :: hunks, i, ⟨_, _, hbefore, hfits⟩, hmem, line, hline => by
    rcases List.mem_cons.mp hmem with rfl | hmem
    · exact List.mem_of_mem_drop (hbefore.subset hline)
    · exact mem_before_of_fits hfits hmem line hline

theorem length_read (ops : List LineOp) :
    (ops.filterMap LineOp.read).length = (ops.filterMap LineOp.after).length := by
  induction ops with
  | nil => rfl
  | cons o ops ih =>
    cases o with
    | keep line => exact congrArg (· + 1) ih
    | delete line => exact ih
    | insert line => exact congrArg (· + 1) ih

theorem length_turned_read : ∀ {hunks : List Hunk} {i : ℕ},
    (turned LineOp.read old i hunks).length = (turned LineOp.after old i hunks).length
  | [], _ => rfl
  | h :: hunks, i => by
    rw [turned, turned, List.length_append, List.length_append, List.length_append,
      List.length_append, length_read, length_turned_read]

/-- No inserted line ends in a carriage return. -/
def LineOp.Plain (o : LineOp) : Prop := ∀ line, o = .insert line → line.getLast? ≠ some '\r'

theorem read_eq_iff (ops : List LineOp) :
    ops.filterMap LineOp.read = ops.filterMap LineOp.after ↔ ∀ o ∈ ops, o.Plain := by
  induction ops with
  | nil => exact iff_of_true rfl fun _ h => absurd h List.not_mem_nil
  | cons o ops ih =>
    rw [List.forall_mem_cons, ← ih]
    cases o with
    | keep line =>
      rw [show (LineOp.keep line :: ops).filterMap LineOp.read = line :: ops.filterMap LineOp.read
        from rfl, show (LineOp.keep line :: ops).filterMap LineOp.after =
          line :: ops.filterMap LineOp.after from rfl, List.cons_inj_right]
      exact (and_iff_right nofun).symm
    | delete line =>
      exact (and_iff_right (a := LineOp.Plain (.delete line)) nofun).symm
    | insert line =>
      have hplain : LineOp.Plain (.insert line) ↔ Lines.strip_return line = line := by
        rw [Lines.strip_return_eq_self_iff]
        exact ⟨fun h => h line rfl, fun h other heq => LineOp.insert.inj heq ▸ h⟩
      rw [show (LineOp.insert line :: ops).filterMap LineOp.read =
          Lines.strip_return line :: ops.filterMap LineOp.read from rfl,
        show (LineOp.insert line :: ops).filterMap LineOp.after = line :: ops.filterMap LineOp.after
          from rfl, List.cons.injEq, hplain]

theorem turned_read_eq_iff : ∀ {hunks : List Hunk} {i : ℕ},
    turned LineOp.read old i hunks = turned LineOp.after old i hunks ↔
      ∀ h ∈ hunks, ∀ o ∈ h.ops, o.Plain
  | [], _ => iff_of_true rfl fun _ h => absurd h List.not_mem_nil
  | h :: hunks, i => by
    rw [turned, turned, List.append_right_inj, List.forall_mem_cons, ← read_eq_iff h.ops,
      ← turned_read_eq_iff (i := h.start + h.before.length)]
    refine ⟨fun heq => List.append_inj heq (length_read h.ops), ?_⟩
    rintro ⟨hhere, hrest⟩
    rw [hhere, hrest]

end Turned

/-! ## Whole diffs -/

/-- The empty piece behind the last line end. -/
theorem splitOn_eq_file_lines (text : List Char) :
    text.splitOn '\n' = file_lines text ++ if ended text then [[]] else [] := by
  unfold file_lines
  split
  · next h =>
    unfold ended at h
    rw [decide_eq_true_eq] at h
    exact (List.dropLast_append_getLast? [] h).symm
  · rw [List.append_nil]

theorem file_lines_eq_nil_iff {text : List Char} : file_lines text = [] ↔ text = [] := by
  refine ⟨fun h => ?_, fun h => h ▸ rfl⟩
  have hsplit := splitOn_eq_file_lines text
  have hjoin : ['\n'].intercalate (text.splitOn '\n') = text := List.intercalate_splitOn '\n'
  rw [hsplit, h, List.nil_append] at hjoin
  rw [← hjoin]
  split <;> rfl

section Whole

variable {original updated : List Char} {preamble : List (List Char)} {hunks : List Hunk}

/-- No line of a diff of two texts has a line end in it. -/
theorem Diffs.newline_not_mem_op (h : Diffs original updated preamble hunks) {hunk : Hunk}
    (hmem : hunk ∈ hunks) {b : BodyLine} (hb : b ∈ hunk.body) : '\n' ∉ b.written := by
  have hpieces {text line : List Char} (hline : line ∈ file_lines text) : '\n' ∉ line := by
    refine Lines.not_mem_of_mem_splitOn (t := text) ?_
    rw [splitOn_eq_file_lines]
    exact List.mem_append_left _ hline
  have hbefore {o : LineOp} {line : List Char} (ho : BodyLine.op o ∈ hunk.body)
      (hline : o.before = some line) : '\n' ∉ line := by
    refine hpieces (mem_before_of_fits h.fits hmem line ?_)
    exact List.mem_filterMap.mpr ⟨o, List.mem_filterMap.mpr ⟨_, ho, rfl⟩, hline⟩
  rcases b with (line | line | line) | _ | text
  · exact fun hn => hbefore hb rfl ((List.mem_cons.mp hn).resolve_left (by decide))
  · exact fun hn => hbefore hb rfl ((List.mem_cons.mp hn).resolve_left (by decide))
  · have hafter : line ∈ file_lines updated := by
      rw [h.turns]
      exact mem_turned_of_mem (List.mem_filterMap.mpr ⟨_, hb, rfl⟩) rfl hmem
    exact fun hn => hpieces hafter ((List.mem_cons.mp hn).resolve_left (by decide))
  · exact List.not_mem_nil
  · exact fun hn => h.notes hunk hmem text hb ((List.mem_cons.mp hn).resolve_left (by decide))

theorem Diffs.newline_not_mem (h : Diffs original updated preamble hunks) {line : List Char}
    (hline : line ∈ preamble ++ hunks.flatMap Hunk.written) : '\n' ∉ line := by
  rcases List.mem_append.mp hline with hline | hline
  · exact (h.before_hunks line hline).1
  · obtain ⟨hunk, hmem, hline⟩ := List.mem_flatMap.mp hline
    rcases List.mem_cons.mp hline with rfl | hline
    · unfold Hunk.header
      intro hn
      rcases List.mem_append.mp hn with hn | hn
      · exact absurd hn (by decide)
      · rcases List.mem_append.mp hn with hn | hn
        · rcases range_chars hn with hdigit | heq
          · exact absurd hdigit (by decide)
          · exact absurd heq (by decide)
        · exact h.headings hunk hmem ((List.mem_cons.mp hn).resolve_left (by decide))
    · obtain ⟨b, hb, rfl⟩ := List.mem_map.mp hline
      exact h.newline_not_mem_op hmem hb

/-- Lines that are read from a diff have no line end in them either. -/
theorem Diffs.newline_not_mem_read (h : Diffs original updated preamble hunks) {line : List Char}
    (hline : line ∈ turned LineOp.read (file_lines original) 0 hunks) : '\n' ∉ line := by
  rcases mem_turned hline with hold | ⟨hunk, hmem, o, ho, hread⟩
  · refine Lines.not_mem_of_mem_splitOn (t := original) ?_
    rw [splitOn_eq_file_lines]
    exact List.mem_append_left _ hold
  · obtain ⟨b, hb, hop⟩ := List.mem_filterMap.mp ho
    have hwritten := h.newline_not_mem_op hmem hb
    rcases b with (kept | deleted | inserted) | _ | text
    · obtain rfl := Option.some.inj hop
      obtain rfl := Option.some.inj hread
      exact fun hn => hwritten (List.mem_cons_of_mem _ hn)
    · obtain rfl := Option.some.inj hop
      cases hread
    · obtain rfl := Option.some.inj hop
      obtain rfl := Option.some.inj hread
      exact fun hn => hwritten (List.mem_cons_of_mem _ ((Lines.strip_return_prefix _).subset hn))
    · obtain rfl := Option.some.inj hop
      obtain rfl := Option.some.inj hread
      exact List.not_mem_nil
    · cases hop

/-- **What a diff is applied as**: the lines it is read as, with the end of the original text. -/
theorem apply_render (h : Diffs original updated preamble hunks)
    (hblanks : ∀ hunk ∈ hunks, hunk.BlanksLast) (hsize : original.length < 2 ^ 63) :
    apply_unified_patch (P := P) original (render preamble hunks) =
      .ok (['\n'].intercalate (turned LineOp.read (file_lines original) 0 hunks ++
        if ended original then [[]] else [])) := by
  have hlines := splitOn_eq_file_lines original
  have hlength : (file_lines original).length + 1 < 2 ^ 64 := by
    have := Lines.length_splitOn_le '\n' original
    rw [hlines, List.length_append] at this
    omega
  obtain ⟨st, hrun, hcount, hout⟩ := hunks_run (P := P) hlines hlength ⟨[], 0, 0⟩ false hblanks
    (Nat.le_refl 0) (Nat.zero_le _) h.fits
  have hread : Text.lines (render preamble hunks) =
      preamble.map Lines.strip_return ++ (hunks.flatMap Hunk.written).map Lines.strip_return := by
    unfold render
    rw [Lines.lines_written fun line hline => h.newline_not_mem hline, List.map_append]
  unfold apply_unified_patch
  dsimp only
  rw [hread, preamble_run _ fun line hline => (h.before_hunks line hline).2, hrun]
  have hsome : st.hunks ≠ 0 := by
    rw [hcount]
    have := List.length_pos_of_ne_nil h.some_hunk
    omega
  dsimp only [bind, Except.bind]
  rw [if_neg hsome, hout]
  rfl

/-- The diffs that come out right. -/
theorem apply_render_iff (h : Diffs original updated preamble hunks)
    (hblanks : ∀ hunk ∈ hunks, hunk.BlanksLast) (hsize : original.length < 2 ^ 63) :
    apply_unified_patch (P := P) original (render preamble hunks) = .ok updated ↔
      (∀ hunk ∈ hunks, ∀ o ∈ hunk.ops, o.Plain) ∧
        (ended original = ended updated ∨ updated = []) := by
  rw [apply_render h hblanks hsize, Except.ok.injEq,
    ← @turned_read_eq_iff (file_lines original) hunks 0, ← h.turns]
  have hcount : (turned LineOp.read (file_lines original) 0 hunks).length =
      (file_lines updated).length := by
    rw [h.turns, length_turned_read]
  have hsplit := splitOn_eq_file_lines updated
  have hnewline : ∀ line ∈ turned LineOp.read (file_lines original) 0 hunks, '\n' ∉ line :=
    fun line hline => h.newline_not_mem_read hline
  generalize turned LineOp.read (file_lines original) 0 hunks = lines at hcount hnewline ⊢
  rcases eq_or_ne (lines ++ if ended original then [[]] else []) [] with hnil | hne
  · -- nothing is left, and the empty text is what was to come out
    obtain ⟨rfl, -⟩ := List.append_eq_nil_iff.mp hnil
    have hupdated : updated = [] :=
      file_lines_eq_nil_iff.mp (List.length_eq_zero_iff.mp hcount.symm)
    rw [hnil, hupdated]
    exact iff_of_true rfl ⟨rfl, .inr rfl⟩
  · have hpieces : ∀ line ∈ lines ++ (if ended original then [[]] else []), '\n' ∉ line := by
      intro line hline
      rcases List.mem_append.mp hline with hline | hline
      · exact hnewline line hline
      · split at hline
        · rw [List.mem_singleton.mp hline]
          exact List.not_mem_nil
        · cases hline
    constructor
    · intro heq
      have hsame : lines ++ (if ended original then [[]] else []) =
          file_lines updated ++ if ended updated then [[]] else [] := by
        rw [← hsplit, ← heq, List.splitOn_intercalate '\n' hpieces hne]
      obtain ⟨hlines, hend⟩ := List.append_inj hsame hcount
      refine ⟨hlines, .inl ?_⟩
      cases horiginal : ended original <;> cases hupdated : ended updated <;>
        simp [horiginal, hupdated] at hend ⊢
    · rintro ⟨rfl, hend | rfl⟩
      · rw [hend, ← hsplit, List.intercalate_splitOn]
      · cases ended original <;> rfl

end Whole

/-! ## What a patch states -/

/-- The lines a patch states to be in the text, each with its place; `place` is that of the next
line of the hunk, and a blank line without a marker is a line of the text too. -/
def stated (P : Type) : (place : Option ℕ) → List (List Char) → List (ℕ × List Char)
  | _, [] => []
  | place, line :: lines =>
    if Text.starts_with line "@@".toList then
      match parse_hunk_header (P := P) line with
      | .error _ => []
      | .ok (start, length) => stated P (some (if length = 0 then start else start - 1)) lines
    else match place with
      | none => stated P none lines
      | some index =>
        if Text.starts_with line "diff ".toList then stated P none lines
        else match line with
          | [] => (index, []) :: stated P (some (index + 1)) lines
          | marker :: text =>
            if marker = ' ' ∨ marker = '-' then
              (index, text) :: stated P (some (index + 1)) lines
            else stated P (some index) lines

/-- The text has the line at its place, up to carriage returns at the end. -/
def Matches (lines : List (List Char)) (place : ℕ × List Char) : Prop :=
  ∃ line, lines[place.1]? = some line ∧
    Text.trim_end_matches '\r' line = Text.trim_end_matches '\r' place.2

section States

variable {original : List (List Char)}

/-- What a line of a hunk does is to be right about the lines it states. -/
theorem hunk_line_states {marker : Char} {text : List Char} {st st' : PatchState}
    (h : hunk_line (P := P) original st (marker :: text) = .ok st') :
    if marker = ' ' ∨ marker = '-' then
      Matches original (st.cursor, text) ∧ st'.cursor = st.cursor + 1
    else st'.cursor = st.cursor := by
  unfold hunk_line at h
  dsimp only at h
  split_ifs at h with hascii hspace hminus hplus hnote
  · rcases hl : expect_line (P := P) original st.cursor text with error | line
    · rw [hl] at h
      exact nomatch h
    rw [hl] at h
    obtain rfl := Except.ok.inj h
    rw [if_pos (.inl hspace)]
    exact ⟨⟨line, expect_line_ok hl⟩, rfl⟩
  · rcases hl : expect_line (P := P) original st.cursor text with error | line
    · rw [hl] at h
      exact nomatch h
    rw [hl] at h
    obtain rfl := Except.ok.inj h
    rw [if_pos (.inr hminus)]
    exact ⟨⟨line, expect_line_ok hl⟩, rfl⟩
  · obtain rfl := Except.ok.inj h
    rw [if_neg (not_or.mpr ⟨hspace, hminus⟩)]
  · obtain rfl := Except.ok.inj h
    rw [if_neg (not_or.mpr ⟨hspace, hminus⟩)]

/-- A header leads to the place it names. -/
theorem open_hunk_place {line : List Char} {st st' : PatchState}
    (h : open_hunk (P := P) original st line = .ok st') :
    ∃ start length, parse_hunk_header (P := P) line = .ok (start, length) ∧
      st'.cursor = if length = 0 then start else start - 1 := by
  unfold open_hunk at h
  rcases hr : parse_hunk_header (P := P) line with error | ⟨start, length⟩
  · rw [hr] at h
    exact nomatch h
  rw [hr] at h
  dsimp only [bind, Except.bind] at h
  generalize hplace : (if length = 0 then start else start - 1) = place at h
  split_ifs at h
  obtain rfl := Except.ok.inj h
  exact ⟨start, length, rfl, hplace.symm⟩

/-- **A patch that applies** states what is there, if it has no blank line without a marker. -/
theorem stated_of_applied : ∀ {lines : List (List Char)} {inside : Bool} {st st' : PatchState},
    patch_lines (P := P) original lines inside st = .ok st' →
    (∀ line ∈ hunk_body inside lines, line ≠ []) →
    ∀ place ∈ stated P (if inside then some st.cursor else none) lines, Matches original place
  | [], inside, _, _, _, _ => fun _ h => by
    rw [stated] at h
    exact absurd h List.not_mem_nil
  | line :: lines, inside, st, st', h, hfull => by
    rw [patch_lines, patch_line] at h
    rw [hunk_body] at hfull
    rw [stated.eq_def]
    dsimp only
    by_cases hheader : Text.starts_with line "@@".toList = true
    · rw [if_pos hheader] at h hfull ⊢
      rcases hs : open_hunk (P := P) original st line with error | mid
      · rw [hs] at h
        cases h
      rw [hs] at h
      obtain ⟨start, length, hr, hcursor⟩ := open_hunk_place hs
      rw [hr]
      dsimp only
      rw [← hcursor]
      exact @stated_of_applied lines true mid st' h hfull
    rw [if_neg hheader] at h hfull ⊢
    cases inside with
    | false => exact @stated_of_applied lines false st st' h hfull
    | true =>
      rw [Bool.not_true, Bool.false_or] at h hfull
      show ∀ place ∈ (if Text.starts_with line "diff ".toList = true then _ else _), _
      by_cases hdiff : Text.starts_with line "diff ".toList = true
      · rw [if_pos hdiff] at h hfull ⊢
        exact @stated_of_applied lines false st st' h hfull
      rw [if_neg hdiff] at h hfull ⊢
      rw [List.forall_mem_cons] at hfull
      rcases hs : hunk_line (P := P) original st line with error | mid
      · rw [hs] at h
        cases h
      rw [hs] at h
      have hrest := @stated_of_applied lines true mid st' h hfull.2
      rw [if_pos rfl] at hrest
      rcases line with _ | ⟨marker, text⟩
      · exact absurd rfl hfull.1
      have hline := hunk_line_states hs
      dsimp only
      split_ifs at hline ⊢ with hmarker
      · rw [hline.2] at hrest
        exact List.forall_mem_cons.mpr ⟨hline.1, hrest⟩
      · rwa [hline] at hrest

end States

/-- A patch that states what is not there is refused. -/
theorem mismatch_refused {original patch : List Char}
    (hfull : ∀ line ∈ hunk_body false (Text.lines patch), line ≠ [])
    {place : ℕ × List Char} (hplace : place ∈ stated P none (Text.lines patch))
    (hwrong : ¬ Matches (original.splitOn '\n') place) :
    ∃ error, apply_unified_patch (P := P) original patch = .error error := by
  unfold apply_unified_patch
  dsimp only
  rcases hs : patch_lines (P := P) (original.splitOn '\n') (Text.lines patch) false ⟨[], 0, 0⟩ with
    error | st
  · exact ⟨error, rfl⟩
  · exact absurd (stated_of_applied hs hfull place hplace) hwrong

/-! ## Patches that are not refused -/

/-- The lines end inside a hunk. -/
def in_hunk : (inside : Bool) → List (List Char) → Bool
  | inside, [] => inside
  | inside, line :: lines =>
    if Text.starts_with line "@@".toList then in_hunk true lines
    else if !inside || Text.starts_with line "diff ".toList then in_hunk false lines
    else in_hunk true lines

/-- Behind lines that are taken, a line of a hunk starts with a character of several bytes. -/
def CutsCharacter (P : Type) (original patch : List Char) : Prop :=
  ∃ front c text rest st, Text.lines patch = front ++ (c :: text) :: rest ∧
    patch_lines (P := P) (original.splitOn '\n') front false ⟨[], 0, 0⟩ = .ok st ∧
    in_hunk false front = true ∧ 0x80 ≤ c.toNat

section Panics

variable {original : List (List Char)}

theorem open_hunk_ne_panic {st : PatchState} {line : List Char} :
    open_hunk (P := P) original st line ≠ .error .panic := by
  intro h
  unfold open_hunk at h
  rcases hr : parse_hunk_header (P := P) line with error | ⟨start, length⟩
  · rw [hr] at h
    obtain rfl := Except.error.inj h
    unfold parse_hunk_header at hr
    split at hr
    · cases hr
    · dsimp only at hr
      split at hr <;> cases hr
  · rw [hr] at h
    dsimp only [bind, Except.bind] at h
    generalize (if length = 0 then start else start - 1) = place at h
    split_ifs at h <;> cases h

theorem expect_line_ne_panic {index : ℕ} {expected : List Char} :
    expect_line (P := P) original index expected ≠ .error .panic := by
  intro h
  unfold expect_line at h
  split at h
  · split_ifs at h
    cases h
  · cases h

theorem hunk_line_panics_iff {st : PatchState} {line : List Char} :
    hunk_line (P := P) original st line = .error .panic ↔
      ∃ c text, line = c :: text ∧ 0x80 ≤ c.toNat := by
  rcases line with _ | ⟨marker, text⟩
  · refine iff_of_false nofun ?_
    rintro ⟨c, text, h, -⟩
    cases h
  have hiff : (∃ c text', marker :: text = c :: text' ∧ 0x80 ≤ c.toNat) ↔ 0x80 ≤ marker.toNat := by
    refine ⟨?_, fun h => ⟨marker, text, rfl, h⟩⟩
    rintro ⟨c, text', h, hc⟩
    rwa [(List.cons.inj h).1]
  rw [hiff]
  refine ⟨fun h => ?_, fun h => if_pos h⟩
  by_contra hascii
  unfold hunk_line at h
  dsimp only at h
  rw [if_neg hascii] at h
  split_ifs at h
  · rcases hl : expect_line (P := P) original st.cursor text with error | line
    · rw [hl] at h
      obtain rfl := Except.error.inj h
      exact expect_line_ne_panic hl
    · rw [hl] at h
      cases h
  · rcases hl : expect_line (P := P) original st.cursor text with error | line
    · rw [hl] at h
      obtain rfl := Except.error.inj h
      exact expect_line_ne_panic hl
    · rw [hl] at h
      cases h
  all_goals cases h

theorem not_starts_with_of_bytes {c : Char} (hc : 0x80 ≤ c.toNat) (text : List Char) :
    Text.starts_with (c :: text) "@@".toList = false ∧
      Text.starts_with (c :: text) "diff ".toList = false := by
  have hhead {d : Char} (hd : d.toNat < 0x80) : (d == c) = false :=
    beq_eq_false_iff_ne.mpr fun heq => absurd hc (by rw [← heq]; omega)
  refine ⟨?_, ?_⟩
  · show ('@' == c && _) = false
    rw [hhead (by decide), Bool.false_and]
  · show ('d' == c && _) = false
    rw [hhead (by decide), Bool.false_and]

theorem patch_line_panics_iff {inside : Bool} {st : PatchState} {line : List Char} :
    patch_line (P := P) original inside st line = .error .panic ↔
      inside = true ∧ ∃ c text, line = c :: text ∧ 0x80 ≤ c.toNat := by
  unfold patch_line
  split_ifs with hheader houter
  · refine iff_of_false (fun h => ?_) ?_
    · rcases hs : open_hunk (P := P) original st line with error | mid
      · rw [hs] at h
        obtain rfl := Except.error.inj h
        exact open_hunk_ne_panic hs
      · rw [hs] at h
        cases h
    · rintro ⟨-, c, text, rfl, hc⟩
      rw [(not_starts_with_of_bytes hc text).1] at hheader
      cases hheader
  · refine iff_of_false nofun ?_
    rintro ⟨rfl, c, text, rfl, hc⟩
    rw [(not_starts_with_of_bytes hc text).2] at houter
    cases houter
  · have hinside : inside = true := by
      cases inside with
      | true => rfl
      | false => exact absurd rfl houter
    rw [and_iff_right hinside, ← @hunk_line_panics_iff P original st line]
    rcases hs : hunk_line (P := P) original st line with error | mid
    · exact ⟨fun h => congrArg _ (Except.error.inj h), fun h => congrArg _ (Except.error.inj h)⟩
    · exact iff_of_false nofun nofun

theorem in_hunk_of_line {inside inside' : Bool} {st st' : PatchState} {line : List Char}
    (h : patch_line (P := P) original inside st line = .ok (inside', st'))
    (front : List (List Char)) :
    in_hunk inside (line :: front) = in_hunk inside' front := by
  rw [in_hunk]
  unfold patch_line at h
  split_ifs at h ⊢ with hheader houter
  · rcases hs : open_hunk (P := P) original st line with error | mid
    · rw [hs] at h
      cases h
    · rw [hs] at h
      rw [← (Prod.mk.inj (Except.ok.inj h)).1]
  · rw [← (Prod.mk.inj (Except.ok.inj h)).1]
  · rcases hs : hunk_line (P := P) original st line with error | mid
    · rw [hs] at h
      cases h
    · rw [hs] at h
      rw [← (Prod.mk.inj (Except.ok.inj h)).1]

theorem patch_lines_panic_iff : ∀ {lines : List (List Char)} {inside : Bool} {st : PatchState},
    patch_lines (P := P) original lines inside st = .error .panic ↔
      ∃ front c text rest st', lines = front ++ (c :: text) :: rest ∧
        patch_lines (P := P) original front inside st = .ok st' ∧ in_hunk inside front = true ∧
        0x80 ≤ c.toNat
  | [], inside, st => by
    refine iff_of_false (fun h => ?_) ?_
    · rw [patch_lines] at h
      cases h
    · rintro ⟨front, c, text, rest, st', h, -⟩
      simp at h
  | line :: lines, inside, st => by
    have hhere := @patch_line_panics_iff P original inside st line
    rw [patch_lines]
    rcases hp : patch_line (P := P) original inside st line with error | ⟨inside', mid⟩
    · rw [hp] at hhere
      constructor
      · intro h
        obtain ⟨hinside, c, text, rfl, hc⟩ := hhere.mp (congrArg _ (Except.error.inj h))
        exact ⟨[], c, text, lines, st, rfl, rfl, hinside, hc⟩
      · rintro ⟨_ | ⟨first, front⟩, c, text, rest, st', hlines, hrun, hinside, hc⟩
        · obtain ⟨rfl, -⟩ := List.cons.inj hlines
          have hpanic := hhere.mpr ⟨hinside, c, text, rfl, hc⟩
          exact congrArg _ (Except.error.inj hpanic)
        · obtain ⟨rfl, -⟩ := List.cons.inj hlines
          rw [patch_lines, hp] at hrun
          cases hrun
    · rw [hp] at hhere
      show patch_lines original lines inside' mid = .error .panic ↔ _
      rw [patch_lines_panic_iff]
      constructor
      · rintro ⟨front, c, text, rest, st', rfl, hrun, hinside, hc⟩
        refine ⟨line :: front, c, text, rest, st', rfl, ?_, ?_, hc⟩
        · rw [patch_lines, hp]
          exact hrun
        · rw [in_hunk_of_line hp, hinside]
      · rintro ⟨_ | ⟨first, front⟩, c, text, rest, st', hlines, hrun, hinside, hc⟩
        · obtain ⟨rfl, -⟩ := List.cons.inj hlines
          cases hhere.mpr ⟨hinside, c, text, rfl, hc⟩
        · obtain ⟨rfl, rfl⟩ := List.cons.inj hlines
          rw [patch_lines, hp] at hrun
          rw [in_hunk_of_line hp] at hinside
          exact ⟨front, c, text, rest, st', rfl, hrun, hinside, hc⟩

end Panics

theorem apply_panics_iff {original patch : List Char} :
    apply_unified_patch (P := P) original patch = .error .panic ↔
      CutsCharacter P original patch := by
  unfold CutsCharacter
  rw [← patch_lines_panic_iff]
  unfold apply_unified_patch
  dsimp only
  rcases hs : patch_lines (P := P) (original.splitOn '\n') (Text.lines patch) false ⟨[], 0, 0⟩ with
    error | st
  · exact ⟨fun h => congrArg _ (Except.error.inj h), fun h => congrArg _ (Except.error.inj h)⟩
  · refine iff_of_false (fun h => ?_) nofun
    dsimp only [bind, Except.bind] at h
    split_ifs at h <;> cases h

/-! ## All patches -/

/-- A text gets a second line. -/
def second_line (line_end : List Char) : Hunk :=
  ⟨0, true, "+1,2 @@".toList,
    [.op (.keep ('a' :: line_end)), .op (.insert ('b' :: line_end)), .note " Note".toList]⟩

end WaSSH.Agent
