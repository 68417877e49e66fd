import WaSSH.Agent.Edit

/-!
# What an edit leaves of a file

Each tool rewrites text; this module says what its rewriting means for the bytes, and for which
files the bytes are rewritten that way.

* `ReplacedOnce`, `ReplacedEvery`, `Chain`, `PatchedBy`: bytes rewritten outside nothing but the
  replaced regions;
* `replace_once_spec`, `apply_edits_spec`, **`apply_unified_patch_spec`**: the rewriting on texts;
* `Preserves`: what a caller of an edit tool may rely on;
* **`edits_preserve_iff`**: every call on a file preserves it exactly when the file is `Sound`.
-/

namespace WaSSH.Agent

open FileMap Utf8

/-! ## Regions of bytes -/

/-- `old` gave way to `new` in one place. -/
def ReplacedOnce (old new b b' : Bytes) : Prop :=
  ∃ before after, b = before ++ old ++ after ∧ b' = before ++ new ++ after

/-- `old` gave way to `new` between some pieces. -/
def ReplacedEvery (old new b b' : Bytes) : Prop :=
  ∃ pieces, 2 ≤ pieces.length ∧ b = old.intercalate pieces ∧ b' = new.intercalate pieces

def Edit.Replaces (e : Edit) : Bytes → Bytes → Prop :=
  if e.replace_all then ReplacedEvery (encode e.old) (encode e.new)
  else ReplacedOnce (encode e.old) (encode e.new)

/-- The edits took place one after the other. -/
def Chain : List Edit → Bytes → Bytes → Prop
  | [], b, b' => b' = b
  | e :: edits, b, b' => ∃ mid, e.Replaces b mid ∧ Chain edits mid b'

/-- What became of a line. -/
inductive LineOp
  | keep (line : List Char)
  | delete (line : List Char)
  | insert (line : List Char)

namespace LineOp

def before : LineOp → Option (List Char)
  | keep line | delete line => some line
  | insert _ => none

def after : LineOp → Option (List Char)
  | keep line | insert line => some line
  | delete _ => none

/-- The change an operation makes; a deleted line counts up to carriage returns at its end. -/
def change : LineOp → Option (Char × List Char)
  | keep _ => none
  | delete line => some ('-', Text.trim_end_matches '\r' line)
  | insert line => some ('+', line)

end LineOp

/-- The lines of a patch that belong to a hunk. -/
def hunk_body : Bool → List (List Char) → List (List Char)
  | _, [] => []
  | inside, line :: lines =>
    if Text.starts_with line "@@".toList then hunk_body true lines
    else if !inside || Text.starts_with line "diff ".toList then hunk_body false lines
    else line :: hunk_body true lines

/-- The change a line of a hunk asks for. -/
def requested : List Char → Option (Char × List Char)
  | '-' :: text => some ('-', Text.trim_end_matches '\r' text)
  | '+' :: text => some ('+', text)
  | _ => none

def join_lines (lines : List (List Char)) : Bytes := (encode ['\n']).intercalate (lines.map encode)

/-- Line by line, the changes are those the patch asks for, in its order, and the rest is as it
was. -/
def PatchedBy (patch : List Char) (b b' : Bytes) : Prop :=
  ∃ ops : List LineOp,
    b = join_lines (ops.filterMap LineOp.before) ∧ b' = join_lines (ops.filterMap LineOp.after) ∧
    ops.filterMap LineOp.change = (hunk_body false (Text.lines patch)).filterMap requested

/-! ## Replacing -/

section Replacing

variable {P : Type}

/-- The one place of the text that gives way. -/
theorem replace_once_text {text old new after : List Char}
    (h : replace_once (P := P) text old new = .ok after) :
    old ≠ [] ∧ ∃ x y, text = x ++ (old ++ y) ∧ after = x ++ (new ++ y) := by
  unfold replace_once at h
  split_ifs at h with hold
  refine ⟨hold, ?_⟩
  have hjoin := Text.intercalate_pieces hold text 0 (Nat.zero_le _)
  unfold Text.match_count at h
  rcases hp : Text.pieces old 0 text with _ | ⟨x, _ | ⟨y, _ | ⟨z, rest⟩⟩⟩
  · exact absurd hp (Text.pieces_ne_nil _ _ _)
  · rw [hp] at h
    exact nomatch h
  · rw [hp] at h hjoin
    refine ⟨x, y, ?_, ?_⟩
    · rw [List.drop_zero] at hjoin
      rw [← hjoin]
      simp
    · have h' : Except.ok (Text.replacen_one old new text) = Except.ok (ε := ToolError P) after := h
      rw [← Except.ok.inj h', Text.replacen_one, hp]
      simp
  · rw [hp] at h
    exact nomatch h

theorem replace_once_spec {text old new after : List Char}
    (h : replace_once (P := P) text old new = .ok after) :
    ReplacedOnce (encode old) (encode new) (encode text) (encode after) := by
  obtain ⟨-, x, y, rfl, rfl⟩ := replace_once_text h
  refine ⟨encode x, encode y, ?_, ?_⟩
  · rw [encode_append, encode_append, List.append_assoc]
  · rw [encode_append, encode_append, List.append_assoc]

theorem replace_every_spec {text old new after : List Char}
    (h : replace_every (P := P) text old new = .ok after) :
    ReplacedEvery (encode old) (encode new) (encode text) (encode after) := by
  unfold replace_every at h
  split_ifs at h with hold hmem
  have hjoin := Text.intercalate_pieces hold text 0 (Nat.zero_le _)
  rw [List.drop_zero] at hjoin
  refine ⟨(Text.pieces old 0 text).map encode, ?_, ?_, ?_⟩
  · rw [List.length_map]
    exact Text.two_le_length_pieces hold text (by simpa using hmem)
  · rw [← encode_intercalate, hjoin]
  · rw [← encode_intercalate, ← Except.ok.inj h]
    rfl

theorem edit_apply_spec {e : Edit} {text after : List Char}
    (h : e.apply (P := P) text = .ok after) : e.Replaces (encode text) (encode after) := by
  unfold Edit.apply at h
  unfold Edit.Replaces
  split_ifs at h ⊢
  · exact replace_every_spec h
  · exact replace_once_spec h

/-- **The edits of a call** rewrite one after the other. -/
theorem apply_edits_spec : ∀ {edits : List Edit} {index : ℕ} {text after : List Char},
    apply_edits (P := P) index edits text = .ok after → Chain edits (encode text) (encode after)
  | [], _, _, _, h => congrArg encode (Except.ok.inj h).symm
  | e :: edits, index, text, after, h => by
    rw [apply_edits] at h
    cases hmid : e.apply (P := P) text with
    | error error =>
      rw [hmid] at h
      exact nomatch h
    | ok mid =>
      rw [hmid] at h
      exact ⟨encode mid, edit_apply_spec hmid, apply_edits_spec h⟩

end Replacing

/-! ## Patching -/

section Patching

variable {P : Type} {original : List (List Char)}

/-- The state of a patch stands for line operations on the lines passed. -/
structure Follows (original : List (List Char)) (st : PatchState) (ops : List LineOp) : Prop where
  passed : ops.filterMap LineOp.before = original.take st.cursor
  written : ops.filterMap LineOp.after = st.output
  within : st.cursor ≤ original.length

theorem follows_start : Follows original ⟨[], 0, 0⟩ [] := ⟨by simp, rfl, Nat.zero_le _⟩

theorem filterMap_keep (lines : List (List Char)) :
    (lines.map LineOp.keep).filterMap LineOp.before = lines ∧
      (lines.map LineOp.keep).filterMap LineOp.after = lines ∧
      (lines.map LineOp.keep).filterMap LineOp.change = [] := by
  induction lines with
  | nil => exact ⟨rfl, rfl, rfl⟩
  | cons line lines ih =>
    obtain ⟨h1, h2, h3⟩ := ih
    exact ⟨congrArg (line :: ·) h1, congrArg (line :: ·) h2, h3⟩

theorem expect_line_ok {index : ℕ} {expected line : List Char}
    (h : expect_line (P := P) original index expected = .ok line) :
    original[index]? = some line ∧
      Text.trim_end_matches '\r' line = Text.trim_end_matches '\r' expected := by
  unfold expect_line at h
  cases hl : original[index]? with
  | none =>
    rw [hl] at h
    exact nomatch h
  | some found =>
    rw [hl] at h
    dsimp only at h
    split_ifs at h with heq
    rw [← Except.ok.inj h]
    exact ⟨rfl, heq⟩

theorem take_succ_of_getElem? {index : ℕ} {line : List Char}
    (h : original[index]? = some line) :
    original.take (index + 1) = original.take index ++ [line] ∧ index + 1 ≤ original.length := by
  obtain ⟨hlt, rfl⟩ := List.getElem?_eq_some_iff.mp h
  exact ⟨List.take_succ_eq_append_getElem hlt, hlt⟩

/-- A header keeps the lines up to its hunk. -/
theorem open_hunk_follows {st st' : PatchState} {line : List Char} {ops : List LineOp}
    (h : open_hunk (P := P) original st line = .ok st') (hf : Follows original st ops) :
    ∃ kept : List (List Char), Follows original st' (ops ++ kept.map .keep) := by
  unfold open_hunk at h
  rcases hr : parse_hunk_header (P := P) line with error | ⟨old_start, old_len⟩
  · rw [hr] at h
    exact nomatch h
  rw [hr] at h
  dsimp only [bind, Except.bind] at h
  generalize (if old_len = 0 then old_start else old_start - 1) = start at h
  split_ifs at h with hfit
  obtain rfl := Except.ok.inj h
  have hle : st.cursor ≤ start := by omega
  have hin : start ≤ original.length := by omega
  obtain ⟨hbefore, hafter, -⟩ := filterMap_keep ((original.take start).drop st.cursor)
  refine ⟨(original.take start).drop st.cursor, ?_, ?_, hin⟩
  · rw [List.filterMap_append, hf.passed, hbefore]
    have := List.take_append_drop st.cursor (original.take start)
    rwa [List.take_take, min_eq_left hle] at this
  · rw [List.filterMap_append, hf.written, hafter]

/-- A line of a hunk deletes, inserts or keeps what its marker says. -/
theorem hunk_line_follows {st st' : PatchState} {body : List Char} {ops : List LineOp}
    (h : hunk_line (P := P) original st body = .ok st') (hf : Follows original st ops) :
    ∃ more : List LineOp, Follows original st' (ops ++ more) ∧
      more.filterMap LineOp.change = [body].filterMap requested := by
  unfold hunk_line at h
  rcases body with _ | ⟨marker, text⟩
  · obtain rfl := Except.ok.inj h
    exact ⟨[], by rwa [List.append_nil], rfl⟩
  dsimp only at h
  split_ifs at h with hascii hspace hminus hplus hnote
  · -- a context line is kept as the file has it
    rcases hl : expect_line (P := P) original st.cursor text with error | line
    · rw [hl] at h
      exact nomatch h
    rw [hl] at h
    obtain rfl := Except.ok.inj h
    obtain ⟨hfound, -⟩ := expect_line_ok hl
    obtain ⟨htake, hin⟩ := take_succ_of_getElem? hfound
    refine ⟨[.keep line], ⟨?_, ?_, hin⟩, ?_⟩
    · rw [List.filterMap_append, hf.passed, htake]
      rfl
    · rw [List.filterMap_append, hf.written]
      rfl
    · rw [hspace]
      rfl
  · rcases hl : expect_line (P := P) original st.cursor text with error | line
    · rw [hl] at h
      exact nomatch h
    rw [hl] at h
    obtain rfl := Except.ok.inj h
    obtain ⟨hfound, hbare⟩ := expect_line_ok hl
    obtain ⟨htake, hin⟩ := take_succ_of_getElem? hfound
    refine ⟨[.delete line], ⟨?_, ?_, hin⟩, ?_⟩
    · rw [List.filterMap_append, hf.passed, htake]
      rfl
    · rw [List.filterMap_append, hf.written]
      simp [LineOp.after]
    · rw [hminus]
      exact congrArg (fun text => [('-', text)]) hbare
  · obtain rfl := Except.ok.inj h
    refine ⟨[.insert text], ⟨?_, ?_, hf.within⟩, ?_⟩
    · rw [List.filterMap_append, hf.passed]
      simp [LineOp.before]
    · rw [List.filterMap_append, hf.written]
      rfl
    · rw [hplus]
      rfl
  · obtain rfl := Except.ok.inj h
    refine ⟨[], by rwa [List.append_nil], ?_⟩
    rw [hnote]
    rfl

/-- **The lines of a patch** are followed one by one. -/
theorem patch_lines_follow : ∀ {lines : List (List Char)} {inside : Bool} {st st' : PatchState}
    {ops : List LineOp}, patch_lines (P := P) original lines inside st = .ok st' →
      Follows original st ops →
      ∃ more : List LineOp, Follows original st' (ops ++ more) ∧
        more.filterMap LineOp.change = (hunk_body inside lines).filterMap requested
  | [], inside, st, st', ops, h, hf => by
    obtain rfl := Except.ok.inj h
    exact ⟨[], by rwa [List.append_nil], rfl⟩
  | line :: lines, inside, st, st', ops, h, hf => by
    rw [patch_lines, patch_line] at h
    rw [hunk_body]
    split_ifs at h ⊢ with hheader houter
    · rcases hs : open_hunk (P := P) original st line with error | mid
      · rw [hs] at h
        exact nomatch h
      rw [hs] at h
      obtain ⟨kept, hmid⟩ := open_hunk_follows hs hf
      obtain ⟨more, hfin, hchange⟩ := patch_lines_follow h hmid
      refine ⟨kept.map .keep ++ more, by rwa [← List.append_assoc], ?_⟩
      rw [List.filterMap_append, (filterMap_keep kept).2.2, List.nil_append, hchange]
    · exact patch_lines_follow h hf
    · rcases hs : hunk_line (P := P) original st line with error | mid
      · rw [hs] at h
        exact nomatch h
      rw [hs] at h
      obtain ⟨here, hmid, hhere⟩ := hunk_line_follows hs hf
      obtain ⟨more, hfin, hchange⟩ := patch_lines_follow h hmid
      refine ⟨here ++ more, by rwa [← List.append_assoc], ?_⟩
      rw [List.filterMap_append, hhere, hchange, ← List.filterMap_append]
      rfl

theorem encode_lines (lines : List (List Char)) :
    encode (['\n'].intercalate lines) = join_lines lines := encode_intercalate _ _

/-- **A patch that applies** rewrites the lines it names and no other. -/
theorem apply_unified_patch_spec {original patch after : List Char}
    (h : apply_unified_patch (P := P) original patch = .ok after) :
    PatchedBy patch (encode original) (encode after) := by
  unfold apply_unified_patch at h
  dsimp only at h
  set lines := original.splitOn '\n' with hlines
  rcases hs : patch_lines (P := P) lines (Text.lines patch) false ⟨[], 0, 0⟩ with error | st
  · rw [hs] at h
    exact nomatch h
  rw [hs] at h
  dsimp only [bind, Except.bind] at h
  split_ifs at h with hhunks
  obtain ⟨ops, hf, hchange⟩ := patch_lines_follow hs follows_start
  rw [List.nil_append] at hf
  obtain ⟨hbefore, hafter, hkeep⟩ := filterMap_keep (lines.drop st.cursor)
  refine ⟨ops ++ (lines.drop st.cursor).map .keep, ?_, ?_, ?_⟩
  · rw [List.filterMap_append, hf.passed, hbefore, List.take_append_drop, ← encode_lines, hlines,
      List.intercalate_splitOn]
  · rw [List.filterMap_append, hf.written, hafter, ← encode_lines]
    exact congrArg encode (Except.ok.inj h).symm
  · rw [List.filterMap_append, hkeep, List.append_nil, hchange]

end Patching

/-! ## The tools -/

/-- What a caller of an edit tool may rely on: no other file changes, an edited file is rewritten as
`R` says, and every other outcome leaves the file as it was. -/
structure Preserves {P : Type} (fs : Fs P) (path : P) (R : Bytes → Bytes → Prop)
    (r : Except (ToolError P) (Reply P)) (fs' : Fs P) : Prop where
  others : ∀ q, q ≠ path → fs' q = fs q
  edited : ∀ p before after, r = .ok (.edited p before after) →
    ∃ b b', fs path = some b ∧ fs' path = some b' ∧ R b b'
  kept : r = .ok .no_changes ∨ r = .ok .patch_changed_nothing → fs' path = fs path
  err : ∀ e, r = .error e → fs' path = fs path

/-- The text an edit works on encodes back to the bytes of the file. -/
def Faithful (b : Bytes) : Prop := encode (clamp (from_utf8_lossy b) MAX_FILE_READ_CHARS) = b

/-- A file whose edits are safe: where it can be read as text and opened for writing, its text is
faithful, and the write does not fail once the file is truncated (or the file was empty and stays
so). -/
def Sound (f : EditFaults) (content : Option Bytes) : Prop :=
  ∀ b, content = some b → f.read → looks_binary b = false → f.create →
    Faithful b ∧ (f.write = none ∨ b = [] ∧ f.write = some 0)

section Tools

variable {P : Type} {f : EditFaults} {path : P} {fs : Fs P} {R : Bytes → Bytes → Prop}

theorem Preserves.of_error {e : ToolError P} : Preserves fs path R (.error e) fs :=
  ⟨fun _ _ => rfl, fun _ _ _ h => (nomatch h), fun h => h.elim (nomatch ·) (nomatch ·),
    fun _ _ => rfl⟩

theorem Preserves.of_kept {reply : Reply P} (h : reply = .no_changes ∨ reply = .patch_changed_nothing) :
    Preserves fs path R (.ok reply) fs := by
  refine ⟨fun _ _ => rfl, fun _ _ _ he => ?_, fun _ => rfl, fun _ he => nomatch he⟩
  rcases h with rfl | rfl <;> exact nomatch he

/-- Reading gives the clamped text of the file, or fails without a change. -/
theorem wp_read_text_file {limit : ℕ} {Q : Except (ToolError P) (List Char) → Fs P → Prop}
    (herr : ∀ e, Q (.error e) fs)
    (hok : ∀ b, fs path = some b → f.read → looks_binary b = false →
      Q (.ok (clamp (from_utf8_lossy b) limit)) fs) :
    wp (read_text_file f path limit) Q fs := by
  rw [read_text_file, wp_bind, wp_map_err, wp_open_file]
  cases hb : fs path with
  | none => exact herr _
  | some b =>
    rw [Option.isNone_some, if_neg Bool.false_ne_true]
    by_cases hread : f.read
    · rw [if_pos hread, Except.mapError, continues_ok, wp_get, hb, Option.getD_some]
      dsimp only
      cases hbin : looks_binary b with
      | true =>
        rw [if_pos rfl]
        exact herr _
      | false =>
        rw [if_neg Bool.false_ne_true]
        exact hok b hb hread hbin
    · rw [if_neg hread]
      exact herr _

variable [DecidableEq P]

theorem wp_write {before after : List Char} {Q : Except (ToolError P) (Reply P) → Fs P → Prop} :
    wp (rewrite_file.write f path before after) Q fs ↔
      if f.create then
        match f.write with
        | none => Q (.ok (.edited path before after)) (fs.set path (encode after))
        | some n =>
          Q (.error (.cannot_write path .denied)) (fs.set path ((encode after).take n))
      else Q (.error (.cannot_write path .denied)) fs := by
  rw [rewrite_file.write, wp_bind, wp_map_err, fs_write, wp_bind, wp_create]
  by_cases hcreate : f.create
  · rw [if_pos hcreate, if_pos hcreate, continues_ok, wp_write_all, Fs.set_self, Option.getD_some,
      List.nil_append, Fs.set_set]
    cases f.write with
    | none => exact Iff.rfl
    | some n =>
      dsimp only
      rw [Fs.set_set]
      exact Iff.rfl
  · rw [if_neg hcreate, if_neg hcreate]
    exact Iff.rfl

/-- **A sound file is rewritten as its text is.** -/
theorem rewrite_file_preserves {unchanged : Option (Reply P)}
    {rewrite : List Char → Except (ToolError P) (List Char)}
    (hunchanged : ∀ reply, unchanged = some reply →
      reply = .no_changes ∨ reply = .patch_changed_nothing)
    (hR : ∀ t t', rewrite t = .ok t' → R (encode t) (encode t')) (hs : Sound f (fs path)) :
    wp (rewrite_file f path unchanged rewrite) (Preserves fs path R) fs := by
  rw [rewrite_file, wp_bind]
  refine wp_read_text_file (fun e => .of_error) fun b hb hread hbin => ?_
  rw [continues_ok]
  set before := clamp (from_utf8_lossy b) MAX_FILE_READ_CHARS with hbefore
  cases hafter : rewrite before with
  | error e => exact .of_error
  | ok after =>
    have hwrite : wp (rewrite_file.write f path before after) (Preserves fs path R) fs := by
      rw [wp_write]
      by_cases hcreate : f.create
      case neg =>
        rw [if_neg hcreate]
        exact .of_error
      rw [if_pos hcreate]
      obtain ⟨hfaithful, hw⟩ := hs b hb hread hbin hcreate
      rcases hw with hw | ⟨rfl, hw⟩ <;> rw [hw]
      · refine ⟨fun q hq => fs.set_of_ne _ hq, fun _ _ _ _ => ⟨b, encode after, hb, fs.set_self _, ?_⟩,
          fun h => h.elim (nomatch ·) (nomatch ·), fun _ h => nomatch h⟩
        have hb' : encode before = b := hfaithful
        rw [← hb']
        exact hR before after hafter
      · refine ⟨fun q hq => fs.set_of_ne _ hq, fun _ _ _ h => (nomatch h),
          fun h => h.elim (nomatch ·) (nomatch ·), fun _ _ => ?_⟩
        rw [Fs.set_self, hb, List.take_zero]
    cases hu : unchanged with
    | none => exact hwrite
    | some reply =>
      dsimp only
      split_ifs
      · exact .of_kept (hunchanged reply hu)
      · exact hwrite

/-! ## Files that can be edited -/

/-- The edits of a call of `local_fs_multi_edit`. -/
def edits_of (args : Json) : List Edit :=
  (((args.get "edits").as_array).getD []).map Edit.of_json

/-- Every call on the file `path` preserves it. -/
structure EditsPreserve (local_path : String → P) (f : EditFaults) (path : String) (fs : Fs P)
    (args : Json) : Prop where
  edit : wp (local_edit local_path f args) (Preserves fs (local_path path)
    (ReplacedOnce (encode (args.text "oldText").toList) (encode (args.text "newText").toList))) fs
  multi_edit : wp (local_multi_edit local_path f args)
    (Preserves fs (local_path path) (Chain (edits_of args))) fs
  patch : wp (local_patch local_path f args)
    (Preserves fs (local_path path) (PatchedBy (args.text "patch").toList)) fs

theorem clamp_eq_nil {t : List Char} {limit : ℕ} (h : clamp t limit = []) : t = [] := by
  unfold clamp at h
  split_ifs at h
  · exact h
  · exact absurd (List.append_eq_nil_iff.mp h).2 (by simp [truncation_notice])

/-- A text of valid characters within the limit is read as it is. -/
theorem faithful_of_valid {t : List Char} (h : t.length ≤ MAX_FILE_READ_CHARS) :
    Faithful (encode t) := by
  rw [Faithful, from_utf8_lossy_encode, clamp, if_pos h]

theorem local_edit_preserves {local_path : String → P} {shown : String} {args : Json}
    (hargs : args.text "path" = shown) (hs : Sound f (fs (local_path shown))) :
    wp (local_edit local_path f args) (Preserves fs (local_path shown)
      (ReplacedOnce (encode (args.text "oldText").toList) (encode (args.text "newText").toList)))
      fs := by
  subst hargs
  exact rewrite_file_preserves (fun _ h => nomatch h) (fun _ _ h => replace_once_spec h) hs

theorem local_multi_edit_preserves {local_path : String → P} {shown : String} {args : Json}
    (hargs : args.text "path" = shown) (hs : Sound f (fs (local_path shown))) :
    wp (local_multi_edit local_path f args)
      (Preserves fs (local_path shown) (Chain (edits_of args))) fs := by
  subst hargs
  unfold local_multi_edit edits_of
  rcases (args.get "edits").as_array with _ | _ | ⟨edit, edits⟩
  · exact .of_error
  · exact .of_error
  · refine rewrite_file_preserves (fun _ h => ?_) (fun _ _ h => apply_edits_spec h) hs
    exact .inl (Option.some.inj h).symm

theorem local_patch_preserves {local_path : String → P} {shown : String} {args : Json}
    (hargs : args.text "path" = shown) (hs : Sound f (fs (local_path shown))) :
    wp (local_patch local_path f args)
      (Preserves fs (local_path shown) (PatchedBy (args.text "patch").toList)) fs := by
  subst hargs
  unfold local_patch Json.text
  rcases (args.get "patch").as_str with _ | patch
  · exact .of_error
  rw [Option.filter_some, Option.getD_some]
  split_ifs
  · refine rewrite_file_preserves (fun _ h => ?_) (fun _ _ h => apply_unified_patch_spec h) hs
    exact .inr (Option.some.inj h).symm
  · exact .of_error

/-- A call that deletes all of the text `t`. -/
def delete_all (path : String) (t : List Char) : Json :=
  .obj [("path", .str path), ("oldText", .str (String.ofList t)), ("newText", .str "")]

/-- A call that adds a line to an empty file. -/
def add_line (path : String) : Json :=
  .obj [("path", .str path), ("patch", .str "@@ -0,0 +1 @@\n+x")]

omit [DecidableEq P] in
theorem replace_once_all {t : List Char} (h : t ≠ []) :
    replace_once (P := P) t t [] = .ok [] := by
  unfold replace_once Text.match_count Text.replacen_one
  rw [if_neg h, Text.pieces_self h]
  rfl

/-- What a call must read and open for its rewriting to reach the file. -/
theorem wp_rewrite_file {b : Bytes} {unchanged : Option (Reply P)} {after : List Char}
    {rewrite : List Char → Except (ToolError P) (List Char)}
    {Q : Except (ToolError P) (Reply P) → Fs P → Prop} (hb : fs path = some b) (hread : f.read)
    (hbin : looks_binary b = false)
    (hafter : rewrite (clamp (from_utf8_lossy b) MAX_FILE_READ_CHARS) = .ok after)
    (hne : unchanged = none ∨ after ≠ clamp (from_utf8_lossy b) MAX_FILE_READ_CHARS) :
    wp (rewrite_file f path unchanged rewrite) Q fs ↔
      wp (rewrite_file.write f path (clamp (from_utf8_lossy b) MAX_FILE_READ_CHARS) after) Q fs := by
  rw [rewrite_file, wp_bind, read_text_file, wp_bind, wp_map_err, wp_open_file, hb,
    Option.isNone_some, if_neg Bool.false_ne_true, if_pos hread, Except.mapError, continues_ok,
    wp_get, hb, Option.getD_some]
  dsimp only
  rw [hbin, if_neg Bool.false_ne_true, wp_pure, continues_ok, hafter]
  rcases unchanged with _ | reply
  · exact Iff.rfl
  · dsimp only
    rw [if_neg (hne.resolve_left (nomatch ·))]

/-- **Every call on a file preserves it exactly when the file is sound.** -/
theorem edits_preserve_iff (local_path : String → P) (f : EditFaults) (path : String)
    (fs : Fs P) :
    (∀ args : Json, args.text "path" = path → EditsPreserve local_path f path fs args) ↔
      Sound f (fs (local_path path)) := by
  constructor
  · intro h b hb hread hbin hcreate
    set t := clamp (from_utf8_lossy b) MAX_FILE_READ_CHARS with ht
    by_cases hempty : t = []
    · -- an empty file: only a write that fails half-way can harm it
      obtain rfl := (from_utf8_lossy_eq_nil_iff b).mp (clamp_eq_nil hempty)
      refine ⟨rfl, ?_⟩
      have hpatch := (h (add_line path) rfl).patch
      rcases hw : f.write with _ | _ | n
      · exact .inl rfl
      · exact .inr ⟨rfl, rfl⟩
      · have hafter : apply_unified_patch (P := P) [] "@@ -0,0 +1 @@\n+x".toList =
            .ok "x\n".toList := rfl
        have := (wp_rewrite_file hb hread hbin hafter (.inr (by decide))).mp hpatch
        rw [wp_write, if_pos hcreate, hw] at this
        have := this.err _ rfl
        rw [Fs.set_self, hb] at this
        exact nomatch this
    · -- delete all of the text: nothing is left, so all of the file must have been replaced
      have hedit := (h (delete_all path t) rfl).edit
      have hold : ((delete_all path t).text "oldText").toList = t := String.toList_ofList
      have hnew : ((delete_all path t).text "newText").toList = [] := rfl
      rw [local_edit, hold, hnew] at hedit
      have := (wp_rewrite_file hb hread hbin (replace_once_all hempty) (.inl rfl)).mp hedit
      rw [wp_write, if_pos hcreate] at this
      rcases hw : f.write with _ | n <;> rw [hw] at this
      · refine ⟨?_, .inl rfl⟩
        obtain ⟨b₀, b', hb₀, hb', before, after, hbefore, hafter⟩ := this.edited _ _ _ rfl
        rw [Fs.set_self] at hb'
        rw [← Option.some.inj hb', encode_nil, List.append_nil] at hafter
        obtain ⟨rfl, rfl⟩ := List.append_eq_nil_iff.mp hafter.symm
        rw [List.nil_append, List.append_nil] at hbefore
        rw [Faithful, ← ht, ← hbefore]
        exact Option.some.inj (hb₀.symm.trans hb)
      · have := this.err _ rfl
        rw [Fs.set_self, hb, encode_nil, List.take_nil] at this
        obtain rfl := Option.some.inj this
        exact absurd rfl hempty
  · intro hs args hargs
    exact ⟨local_edit_preserves hargs hs, local_multi_edit_preserves hargs hs,
      local_patch_preserves hargs hs⟩

end Tools

/-- Replace `a` by `b` in a file of the bytes `FF 61`, everything going well. -/
def replace_a : Json := .obj [("path", .str "notes"), ("oldText", .str "a"), ("newText", .str "b")]

/-- The edit succeeds and the byte that is not text is written back as another character. -/
theorem edit_rewrites_invalid_bytes :
    ((local_edit id ⟨true, true, none⟩ replace_a).run fun _ => some [0xFF, 0x61]).2 "notes" =
        some [0xEF, 0xBF, 0xBD, 0x62] ∧
      ¬ EditsPreserve id ⟨true, true, none⟩ "notes" (fun _ => some [0xFF, 0x61]) replace_a := by
  refine ⟨rfl, fun h => ?_⟩
  obtain ⟨b, b', hb, hb', before, after, hbefore, hafter⟩ := h.edit.edited _ _ _ rfl
  rw [← Option.some.inj hb] at hbefore
  have hb'' : some [0xEF, 0xBF, 0xBD, 0x62] = some b' := hb'
  rw [← Option.some.inj hb''] at hafter
  rcases before with _ | ⟨x, before⟩
  · exact absurd (List.cons.inj hbefore).1 (by decide)
  · have h1 : (0xFF : UInt8) = x := (List.cons.inj hbefore).1
    have h2 : (0xEF : UInt8) = x := (List.cons.inj hafter).1
    exact absurd (h1.trans h2.symm) (by decide)

end WaSSH.Agent
