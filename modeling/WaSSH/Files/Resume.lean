import WaSSH.Lib.FileMap
import Mathlib.Data.List.Infix

/-!
# Resumed transfers

A transfer that is resumed looks at two lengths, keeps what is already there and sends the rest.

* `transfer`: the steps the three implementations share;
* `download`, `upload`, `copy_file`;
* **`resumed_equal_iff`**: a resumed transfer that completes leaves the source behind exactly if what
  was there is a prefix of it.
-/

namespace WaSSH.Files.Resume

open FileMap

/-! ## The implementations -/

/-- Which steps of a transfer succeed; `copy` fails after the bytes it names. -/
structure TransferFaults where
  open_source : Bool
  make_parent : Bool
  /-- The length of the source is known, else it counts as 0. -/
  source_size : Bool
  /-- The length of what is there is known, else it counts as 0. -/
  target_size : Bool
  open_target : Bool
  seek : Bool
  copy : Option ℕ
  /-- The user stops a local copy before it starts. -/
  stopped : Bool

inductive ResumeError
  | opening_source
  | making_parent
  | opening_target
  | seeking
  | copying
  | stopped
  deriving DecidableEq

section Transfer

variable (f : TransferFaults) (resume : Bool) (source : Bytes) (target : Option Bytes)

/-- Write `rest` after `base`. -/
def copy_rest (base rest : Bytes) : Except ResumeError ℕ × Option Bytes :=
  match f.copy with
  | none => (.ok rest.length, some (base ++ rest))
  | some n => (.error .copying, some (base ++ rest.take n))

/-- What is there, as far as its length is known. -/
def seen_target : Bytes := if f.target_size then target.getD [] else []

/-- The length of the source, as far as it is known. -/
def known_size : ℕ := if f.source_size then source.length else 0

/-- How many bytes a transfer leaves out because they are there. -/
def have_bytes : ℕ :=
  if resume then min (seen_target f target).length (known_size f source) else 0

/-- The steps of a transfer. `skip_equal` is the check that leaves a file of equal length alone;
`open_first` opens the target before the source is moved to where the rest begins. The result comes
with what is at the target afterwards. -/
def transfer (skip_equal open_first : Bool) : Except ResumeError ℕ × Option Bytes :=
  let size := known_size f source
  let kept := have_bytes f resume source target
  if !f.open_source then (.error .opening_source, target)
  else if !f.make_parent then (.error .making_parent, target)
  else if skip_equal && resume && kept = size && 0 < size then (.ok 0, target)
  else if 0 < kept && !open_first && !f.seek then (.error .seeking, target)
  else if !f.open_target then (.error .opening_target, target)
  else if 0 < kept && !f.seek then (.error .seeking, target)
  else if 0 < kept then copy_rest f (target.getD []) (source.drop kept)
  else copy_rest f [] source

/-- Download over SFTP. -/
def download : Except ResumeError ℕ × Option Bytes := transfer f resume source target true true

/-- Upload over SFTP: no directory is made and a file of equal length is opened to append nothing. -/
def upload : Except ResumeError ℕ × Option Bytes :=
  transfer { f with make_parent := true } resume source target false false

/-- Copy on a Local tab. -/
def copy_file : Except ResumeError ℕ × Option Bytes :=
  if f.stopped then (.error .stopped, target) else transfer f resume source target true false

/-- The three implementations. -/
inductive TransferKind
  | download
  | upload
  | copy_file

/-- A transfer as `retry` starts it. -/
def resumed : TransferKind → Except ResumeError ℕ × Option Bytes
  | .download => download f true source target
  | .upload => upload f true source target
  | .copy_file => copy_file f true source target

end Transfer

/-! ## What is left behind -/

theorem append_drop_eq_iff (base source : Bytes) :
    base ++ source.drop (min base.length source.length) = source ↔ base <+: source := by
  constructor
  · intro h
    exact ⟨_, h⟩
  · rintro ⟨rest, rfl⟩
    rw [List.length_append, Nat.min_eq_left (Nat.le_add_right _ _), List.drop_left]

theorem copy_rest_ok {f : TransferFaults} {base rest : Bytes} {n : ℕ} {after : Option Bytes}
    (h : copy_rest f base rest = (.ok n, after)) : after = some (base ++ rest) := by
  unfold copy_rest at h
  cases hc : f.copy with
  | none =>
    rw [hc] at h
    exact (Prod.mk.inj h).2.symm
  | some k =>
    rw [hc] at h
    exact nomatch (Prod.mk.inj h).1

section Completed

variable {f : TransferFaults} {source : Bytes} {target after : Option Bytes} {n : ℕ}
  {skip_equal open_first : Bool}

/-- With both lengths known and not 0, the shorter one is kept. -/
theorem have_bytes_pos (h : 0 < have_bytes f true source target) :
    seen_target f target = target.getD [] ∧ f.source_size = true ∧
      have_bytes f true source target = min (target.getD []).length source.length := by
  unfold have_bytes known_size at h ⊢
  rw [if_pos rfl] at h ⊢
  cases hsize : f.source_size with
  | false => simp [hsize] at h
  | true =>
    cases hseen : f.target_size with
    | false => simp [seen_target, hseen] at h
    | true => exact ⟨if_pos hseen, rfl, by simp [seen_target, hseen]⟩

/-- What a transfer that completes leaves: the source, or what was there and the rest of the
source. -/
theorem transfer_ok (h : transfer f true source target skip_equal open_first = (.ok n, after)) :
    (have_bytes f true source target = 0 ∧ after = some source) ∨
      (0 < have_bytes f true source target ∧
        after = some (target.getD [] ++ source.drop (have_bytes f true source target))) := by
  unfold transfer at h
  simp only at h
  split_ifs at h with hopen hparent hequal hseek htarget hmove hkept
  · exact nomatch (Prod.mk.inj h).1
  · exact nomatch (Prod.mk.inj h).1
  · -- the check for equal lengths left the target alone
    right
    simp only [Bool.and_eq_true, decide_eq_true_eq] at hequal
    obtain ⟨⟨-, heq⟩, hsize⟩ := hequal
    have hpos : 0 < have_bytes f true source target := heq ▸ hsize
    obtain ⟨-, hknown, hmin⟩ := have_bytes_pos hpos
    rw [known_size, hknown, if_pos rfl] at heq
    obtain ⟨t, rfl⟩ : ∃ t, target = some t := by
      cases target with
      | none => simp [hmin] at hpos
      | some t => exact ⟨t, rfl⟩
    refine ⟨hpos, ?_⟩
    rw [heq, List.drop_length, List.append_nil]
    exact (Prod.mk.inj h).2.symm
  · exact nomatch (Prod.mk.inj h).1
  · exact nomatch (Prod.mk.inj h).1
  · exact nomatch (Prod.mk.inj h).1
  · exact .inr ⟨hkept, copy_rest_ok h⟩
  · exact .inl ⟨by omega, copy_rest_ok h⟩

theorem transfer_equal_iff
    (h : transfer f true source target skip_equal open_first = (.ok n, after)) :
    after = some source ↔
      source = [] ∨ f.source_size = false ∨ seen_target f target <+: source := by
  rcases transfer_ok h with ⟨hzero, rfl⟩ | ⟨hpos, rfl⟩
  · refine iff_of_true rfl ?_
    cases hsize : f.source_size with
    | false => exact .inr (.inl rfl)
    | true =>
      unfold have_bytes known_size at hzero
      rw [if_pos rfl, if_pos hsize, Nat.min_eq_zero_iff, List.length_eq_zero_iff,
        List.length_eq_zero_iff] at hzero
      rcases hzero with hzero | hzero
      · exact .inr (.inr (hzero ▸ List.nil_prefix))
      · exact .inl hzero
  · obtain ⟨hseen, hsize, hmin⟩ := have_bytes_pos hpos
    rw [Option.some.injEq, hmin, append_drop_eq_iff, hseen, hsize]
    constructor
    · exact fun h => .inr (.inr h)
    · rintro (rfl | hfalse | hprefix)
      · simp [hmin] at hpos
      · exact nomatch hfalse
      · exact hprefix

/-- **A resumed transfer that completes leaves the source behind exactly if the source is empty, or
its length is not known, or what is seen of the target is a prefix of it.** -/
theorem resumed_equal_iff {kind : TransferKind} (h : resumed f source target kind = (.ok n, after)) :
    after = some source ↔
      source = [] ∨ f.source_size = false ∨ seen_target f target <+: source := by
  cases kind with
  | download => exact transfer_equal_iff h
  | upload => exact transfer_equal_iff (f := { f with make_parent := true }) h
  | copy_file =>
    simp only [resumed, copy_file] at h
    split_ifs at h
    · exact nomatch (Prod.mk.inj h).1
    · exact transfer_equal_iff h

end Completed

def no_transfer_faults : TransferFaults := ⟨true, true, true, true, true, true, none, false⟩

theorem resumed_equal_prefix :
    some [1, 2, 3] = some ([1, 2, 3] : Bytes) ↔
      ([1, 2, 3] : Bytes) = [] ∨ no_transfer_faults.source_size = false ∨
        seen_target no_transfer_faults (some [1]) <+: [1, 2, 3] :=
  resumed_equal_iff (show resumed no_transfer_faults [1, 2, 3] (some [1]) .download =
    (.ok 2, some [1, 2, 3]) from rfl)

/-- A part of another version of the file, and a longer one, are reported complete. -/
theorem resumed_keeps_other_version :
    (∃ n, resumed no_transfer_faults [1, 2, 3] (some [9]) .download = (.ok n, some [9, 2, 3])) ∧
      ∃ n, resumed no_transfer_faults [1, 2, 3] (some [9, 9, 9, 9]) .upload =
        (.ok n, some [9, 9, 9, 9]) :=
  ⟨⟨2, rfl⟩, ⟨0, rfl⟩⟩

end WaSSH.Files.Resume
