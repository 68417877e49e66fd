import WaSSH.Agent.EditPreserves
import WaSSH.Agent.Machine

/-!
# An edit of a remote file

The file is read and decoded; what the edit makes of the text is packed with the diff behind a NUL,
and the upload takes the two apart at the first NUL.

* `split_packed`: what comes out of the packing;
* `not_mem_replaced`: the NULs of an edited text;
* `decoded_of_uploaded`: the bytes of a file are a text if what is uploaded has all of them but those
  replaced;
* `poll_edit`: the poll that finds the file;
* **`edit_uploads_iff`**: the edits that upload what they have to.
-/

namespace WaSSH.Agent

open FileMap Utf8

/-- The character an edit packs its diff behind. -/
def NUL : Char := Char.ofNat 0

variable {data : Bytes} {old new text updated : List Char}

/-! ## The packing -/

theorem split_packed (content diff : List Char) :
    ∃ shown, Agent.split_payload (content ++ NUL :: diff) =
        (content.takeWhile (· ≠ NUL), some shown) ∧ (NUL ∉ content → shown = diff) := by
  have htake {before : List Char} (h : NUL ∉ before) : ∀ c ∈ before, decide (c ≠ NUL) = true :=
    fun c hc => decide_eq_true fun heq => h (heq ▸ hc)
  have hsplit {before : List Char} (h : NUL ∉ before) (rest : List Char) :
      Agent.split_payload (before ++ NUL :: rest) = (before, some rest) := by
    unfold Agent.split_payload
    rw [show Char.ofNat 0 = NUL from rfl, Text.split_once_append h]
  by_cases h : NUL ∈ content
  · obtain ⟨before, after, rfl, hbefore⟩ := List.eq_append_cons_of_mem h
    refine ⟨after ++ NUL :: diff, ?_, fun hnot => absurd h hnot⟩
    rw [List.append_assoc, List.cons_append, hsplit hbefore,
      List.takeWhile_append_of_pos (htake hbefore)]
    simp
  · exact ⟨diff, by rw [hsplit h, List.takeWhile_eq_self_iff.mpr (htake h)], fun _ => rfl⟩

/-! ## The text -/

/-- With no more NULs in the text than in what gives way, an edited text has those that are put
in. -/
theorem not_mem_replaced {P : Type} (h : replace_once (P := P) text old new = .ok updated)
    (hcount : text.count NUL = old.count NUL) (hnew : NUL ∉ new) : NUL ∉ updated := by
  obtain ⟨-, x, y, rfl, rfl⟩ := replace_once_text h
  rw [List.count_append, List.count_append] at hcount
  have hx : NUL ∉ x := List.count_eq_zero.mp (by omega)
  have hy : NUL ∉ y := List.count_eq_zero.mp (by omega)
  simp [hx, hy, hnew]

theorem length_replaced {P : Type} (h : replace_once (P := P) text old new = .ok updated) :
    updated.length + old.length = text.length + new.length := by
  obtain ⟨-, x, y, rfl, rfl⟩ := replace_once_text h
  simp only [List.length_append]
  omega

/-- The bytes around a text are characters too, if with another text between them they decode to no
less. -/
theorem decoded_of_uploaded {w : List Char} {before after : Bytes} (hold : old ≠ [])
    (hw : encode w = before ++ encode new ++ after)
    (hlength : w.length + old.length =
      (from_utf8_lossy (before ++ encode old ++ after)).length + new.length) :
    ∃ t, from_utf8 (before ++ encode old ++ after) = some t := by
  rw [List.append_assoc] at hw hlength ⊢
  rw [from_utf8_lossy_append_encode before hold, List.length_append, List.length_append] at hlength
  rcases encode_cut hw with ⟨u, v, rfl, hv⟩ | hlt
  · have hafter : after = encode (from_utf8_lossy after) := by
      have hlossy := from_utf8_lossy_encode_append new after
      rw [hv, from_utf8_lossy_encode] at hlossy
      rw [hlossy, encode_append] at hv
      exact List.append_cancel_left hv
    refine ⟨u ++ (old ++ from_utf8_lossy after), from_utf8_eq_some_iff.mpr ?_⟩
    rw [encode_append, encode_append, ← hafter]
  · rw [from_utf8_lossy_encode_append, List.length_append] at hlt
    omega

/-! ## The poll -/

/-- The file is a text, and the edit leaves no NUL in it. -/
def Packs (data : Bytes) (old new : List Char) : Prop :=
  (from_utf8 data).isSome ∧ NUL ∉ new ∧ data.count 0 = (encode old).count 0

/-- What was uploaded is the file with the one place replaced, and the diff is that of the two. -/
def Exact (data : Bytes) (old new uploaded diff : List Char) : Prop :=
  ReplacedOnce (encode old) (encode new) data (encode uploaded) ∧
    diff = diff_texts (from_utf8_lossy data) uploaded 3

theorem count_nul (t : List Char) : (encode t).count 0 = t.count NUL :=
  count_encode (c := NUL) (by decide) t

theorem not_mem_nul {t : List Char} (h : NUL ∉ t) : (0 : UInt8) ∉ encode t :=
  List.count_eq_zero.mp ((count_nul t).trans (List.count_eq_zero.mpr h))

theorem exact_iff {P : Type}
    (h : replace_once (P := P) (from_utf8_lossy data) old new = .ok updated) {shown : List Char}
    (hshown : NUL ∉ updated → shown = diff_texts (from_utf8_lossy data) updated 3) :
    Exact data old new (updated.takeWhile (· ≠ NUL)) shown ↔ Packs data old new := by
  have hself (hnot : NUL ∉ updated) : updated.takeWhile (· ≠ NUL) = updated :=
    List.takeWhile_eq_self_iff.mpr fun c hc => decide_eq_true fun heq => hnot (heq ▸ hc)
  constructor
  · rintro ⟨⟨before, after, rfl, hafter⟩, -⟩
    have hfree : NUL ∉ updated.takeWhile (· ≠ NUL) := fun hmem => by
      have hne := List.mem_takeWhile_imp hmem
      simp at hne
    have hbytes := not_mem_nul hfree
    rw [hafter, List.mem_append, List.mem_append, not_or, not_or] at hbytes
    obtain ⟨⟨hbefore, hin⟩, hbehind⟩ := hbytes
    have hnew : NUL ∉ new := List.count_eq_zero.mp (by
      rw [← count_nul]
      exact List.count_eq_zero.mpr hin)
    have hcount : (before ++ encode old ++ after).count 0 = (encode old).count 0 := by
      rw [List.count_append, List.count_append, List.count_eq_zero.mpr hbefore,
        List.count_eq_zero.mpr hbehind]
      omega
    obtain ⟨hold, -⟩ := replace_once_text h
    have htext : (from_utf8_lossy (before ++ encode old ++ after)).count NUL = old.count NUL := by
      have hnot {bs : Bytes} (hbs : (0 : UInt8) ∉ bs) : (from_utf8_lossy bs).count NUL = 0 :=
        List.count_eq_zero.mpr fun hmem => hbs (mem_of_mem_from_utf8_lossy (by decide) hmem)
      rw [List.append_assoc, from_utf8_lossy_append_encode before hold, List.count_append,
        List.count_append, hnot hbefore, hnot hbehind]
      omega
    rw [hself (not_mem_replaced h htext hnew)] at hafter
    obtain ⟨t, ht⟩ := decoded_of_uploaded hold hafter (length_replaced h)
    exact ⟨by rw [ht]; rfl, hnew, hcount⟩
  · rintro ⟨hsome, hnew, hcount⟩
    obtain ⟨t, ht⟩ := Option.isSome_iff_exists.mp hsome
    obtain rfl := from_utf8_eq_some_iff.mp ht
    rw [from_utf8_lossy_encode] at h hshown
    rw [count_nul, count_nul] at hcount
    have hnot := not_mem_replaced h hcount hnew
    refine ⟨?_, ?_⟩
    · rw [hself hnot]
      exact replace_once_spec h
    · rw [hself hnot, from_utf8_lossy_encode]
      exact hshown hnot

/-- The file is there, and the edit is accepted. -/
theorem poll_edit {a : Agent} {env : Env} {engine : Anchored.Engine}
    {worker : Files.TryRecv (Except (List Char) (List Char))} {call : ApiToolCall} {turn max : ℕ}
    {path : List Char} {session : SessionAccess} {content : Files.FileContent}
    (hphase : a.phase = some (.running call turn (.read path max (.edit old new))))
    (hsession : env.session = some session) (hread : session.read path max = some content)
    (hwhole : content.truncated = false)
    (h : replace_once (P := Empty) (from_utf8_lossy content.data) old new = .ok updated) :
    a.poll_tool env engine worker =
      (a.ask_again env call (.read path max (.edit old new))).write_remote env engine call turn path
        (updated ++ NUL :: diff_texts (from_utf8_lossy content.data) updated 3) := by
  have hready : Agent.read_ready path content (.edit old new) =
      .write_remote path
        (updated ++ NUL :: diff_texts (from_utf8_lossy content.data) updated 3) := by
    rw [Agent.read_ready, if_neg (by rw [hwhole]; exact Bool.false_ne_true), replace_and_report, h]
    rfl
  unfold Agent.poll_tool
  rw [hphase]
  dsimp only
  unfold Agent.ready
  dsimp only
  rw [hsession, Option.bind_some, hread, Option.map_some, Option.map_some, hready]

/-- The file is uploaded once it is read, and its turn shows the diff. -/
structure Uploads (a a' : Agent) (call : ApiToolCall) (turn max : ℕ)
    (path uploaded diff : List Char) : Prop where
  requests : a'.log = a.log ++
    [.request call (.read path max), .request call (.write_file path uploaded)]
  waits : a'.phase = some (.running call turn (.transfer path (some diff)))
  shows : ∀ name label output failed,
    a'.turns[turn]? = some (.tool name label output failed) → output = diff

theorem write_remote_uploads {a : Agent} {env : Env} {engine : Anchored.Engine}
    {call : ApiToolCall} {turn max : ℕ} {path payload : List Char} {next : ReadThen}
    {session : SessionAccess} (hsession : env.session = some session) {content shown : List Char}
    (h : Agent.split_payload payload = (content, some shown)) {uploaded diff : List Char} :
    Uploads a
        ((a.ask_again env call (.read path max next)).write_remote env engine call turn path payload)
        call turn max path uploaded diff ↔
      uploaded = content ∧ diff = shown := by
  have hask : a.ask_again env call (.read path max next) =
      { a with log := a.log ++ [.request call (.read path max)] } := by
    unfold Agent.ask_again
    rw [hsession]
  unfold Agent.write_remote
  rw [hask, h, hsession]
  dsimp only [Option.getD_some]
  constructor
  · rintro ⟨hrequests, hwaits, -⟩
    rw [List.append_assoc, List.append_cancel_left_eq] at hrequests
    simp at hrequests hwaits
    exact ⟨hrequests.symm, hwaits.symm⟩
  · rintro ⟨rfl, rfl⟩
    refine ⟨by rw [List.append_assoc]; rfl, rfl, fun name label output failed hturn => ?_⟩
    dsimp only at hturn
    split at hturn
    · next name' label' output' failed' hold =>
      rw [List.getElem?_set_self (List.getElem?_eq_some_iff.mp hold).1] at hturn
      cases hturn
      rfl
    · next hnot => exact absurd hturn (hnot _ _ _ _)

/-! ## Main result -/

/-- **An accepted edit** uploads the file with the one place replaced, and shows the diff of the
two, exactly where the file is a text, the new text has no NUL and every NUL of the file is in the
place that gives way. -/
theorem edit_uploads_iff {a : Agent} {env : Env} {engine : Anchored.Engine}
    {worker : Files.TryRecv (Except (List Char) (List Char))} {call : ApiToolCall} {turn max : ℕ}
    {path : List Char} {session : SessionAccess} {content : Files.FileContent}
    (hphase : a.phase = some (.running call turn (.read path max (.edit old new))))
    (hsession : env.session = some session) (hread : session.read path max = some content)
    (hwhole : content.truncated = false)
    (h : replace_once (P := Empty) (from_utf8_lossy content.data) old new = .ok updated) :
    (∃ uploaded diff,
      Uploads a (a.poll_tool env engine worker) call turn max path uploaded diff ∧
        Exact content.data old new uploaded diff) ↔ Packs content.data old new := by
  obtain ⟨shown, hsplit, hshown⟩ := split_packed updated
    (diff_texts (from_utf8_lossy content.data) updated 3)
  rw [← exact_iff h hshown, poll_edit hphase hsession hread hwhole h]
  constructor
  · rintro ⟨uploaded, diff, huploads, hexact⟩
    obtain ⟨rfl, rfl⟩ := (write_remote_uploads hsession hsplit).mp huploads
    exact hexact
  · intro hexact
    exact ⟨_, _, (write_remote_uploads hsession hsplit).mpr ⟨rfl, rfl⟩, hexact⟩

/-- The call whose edit waits for the file `f`. -/
def edit_call : ApiToolCall := ⟨"1", "remote_fs_edit", .obj []⟩

/-- An agent that replaces `a` in the file `f`. -/
def reading (new : List Char) : Agent :=
  { turns := [.tool "remote_fs_edit" [] [] false]
    phase := some (.running edit_call 0 (.read ['f'] 9 (.edit ['a'] new))) }

/-- A session that has read `xa`. -/
def holding : Env where
  session := some
    { output := fun _ => none, failure := fun _ => none
      read := fun _ _ => some ⟨[0x78, 0x61], false⟩
      listing := none, is_transferring := false, transfer_status := none, screen_text := [] }
  run_local := fun _ => .ok []

/-- The agent after the poll that finds the file. -/
def edit_polled (new : List Char) : Agent :=
  (reading new).poll_tool holding Anchored.anchored .empty

theorem replace_letter (new : List Char) :
    replace_once (P := Empty) (from_utf8_lossy [0x78, 0x61]) ['a'] new = .ok ('x' :: new) := by
  show Except.ok ('x' :: (new ++ [])) = _
  rw [List.append_nil]

/-- With `b` for `a`, all goes well. -/
theorem edit_uploads_letter : ∃ uploaded diff,
    Uploads (reading ['b']) (edit_polled ['b']) edit_call 0 9 ['f'] uploaded diff ∧
      Exact [0x78, 0x61] ['a'] ['b'] uploaded diff := by
  have hpacks : Packs [0x78, 0x61] ['a'] ['b'] :=
    ⟨by decide +kernel, by decide, by decide +kernel⟩
  have huploads := (@edit_uploads_iff ['a'] ['b'] ['x', 'b'] (reading ['b']) holding
    Anchored.anchored .empty edit_call 0 9 ['f'] _ _ rfl rfl rfl rfl (replace_letter ['b'])).mpr hpacks
  exact huploads

/-- With `b`, a NUL and `c` for `a`, the upload ends before the NUL. -/
theorem nul_cuts_upload : ¬∃ uploaded diff,
    Uploads (reading ['b', NUL, 'c']) (edit_polled ['b', NUL, 'c']) edit_call 0 9 ['f'] uploaded diff ∧
      Exact [0x78, 0x61] ['a'] ['b', NUL, 'c'] uploaded diff := by
  rintro ⟨uploaded, diff, huploads, ⟨before, after, hdata, hafter⟩, -⟩
  have hlog : (edit_polled ['b', NUL, 'c']).log =
      [.request edit_call (.read ['f'] 9), .request edit_call (.write_file ['f'] ['x', 'b'])] := rfl
  have hrequests := huploads.requests
  rw [hlog] at hrequests
  obtain rfl : ['x', 'b'] = uploaded := by
    simpa [reading] using hrequests
  have hshort : before.length + after.length = 1 := by
    have := congrArg List.length hdata
    simp only [List.length_append] at this
    have hone : (encode ['a']).length = 1 := by decide
    have htwo : [(0x78 : UInt8), 0x61].length = 2 := rfl
    omega
  have hlong : before.length + after.length + 3 = 2 := by
    have := congrArg List.length hafter
    simp only [List.length_append] at this
    have hthree : (encode ['b', NUL, 'c']).length = 3 := by decide
    have htwo : (encode ['x', 'b']).length = 2 := by decide
    omega
  omega

end WaSSH.Agent
