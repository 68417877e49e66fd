import Mathlib.Tactic
import WaSSH.Files.Copy

/-!
# What `CopyMany` copies

A `CopyMany` that keeps its sources assigns, pair after pair, the bytes of the source to the target.

* `in_order`: the assignments, with `in_order_target` and `in_order_frame`;
* `Moved`, **`wp_copy`**, `wp_stream`: one file, whatever the reads and writes do;
* `wp_copy_many_local`, `wp_copy_pairs_sftp`: the two implementations carry out `in_order`;
* **`copy_many_in_order`**: so they end in the same contents when no file is copied onto itself.
-/

namespace WaSSH.Files

open FileMap

/-! ## Assignments in order -/

section InOrder

variable {File : Type} [DecidableEq File]

/-- Assign each source to its target, in order, up to the first source that does not exist; whether
all were carried out, and the files. -/
def in_order : List (File × File) → Fs File → Bool × Fs File
  | [], fs => (true, fs)
  | (src, dst) :: pairs, fs =>
    match fs src with
    | some b => in_order pairs (fs.set dst b)
    | none => (false, fs)

theorem in_order_frame : ∀ (pairs : List (File × File)) (fs : Fs File) (q : File),
    (∀ p ∈ pairs, p.2 ≠ q) → (in_order pairs fs).2 q = fs q
  | [], _, _, _ => rfl
  | (src, dst) :: pairs, fs, q, hq => by
    rw [in_order]
    cases fs src with
    | none => rfl
    | some b =>
      have hdst : q ≠ dst := fun h => hq (src, dst) List.mem_cons_self h.symm
      change (in_order pairs (fs.set dst b)).2 q = fs q
      rw [in_order_frame pairs _ q fun p hp => hq p (List.mem_cons_of_mem _ hp),
        Fs.set_of_ne _ _ hdst]

theorem in_order_append (xs ys : List (File × File)) (fs : Fs File) (h : (in_order xs fs).1) :
    in_order (xs ++ ys) fs = in_order ys (in_order xs fs).2 := by
  induction xs generalizing fs with
  | nil => rfl
  | cons p xs ih =>
    obtain ⟨src, dst⟩ := p
    rw [List.cons_append, in_order, in_order]
    rw [in_order] at h
    cases hs : fs src with
    | none =>
      rw [hs] at h
      exact nomatch h
    | some b =>
      rw [hs] at h
      exact ih _ h

theorem in_order_prefix {xs ys : List (File × File)} {fs : Fs File}
    (h : (in_order (xs ++ ys) fs).1) : (in_order xs fs).1 := by
  induction xs generalizing fs with
  | nil => rfl
  | cons p xs ih =>
    obtain ⟨src, dst⟩ := p
    rw [List.cons_append, in_order] at h
    rw [in_order]
    cases hs : fs src with
    | none =>
      rw [hs] at h
      exact nomatch h
    | some b =>
      rw [hs] at h
      exact ih h

/-- A target no later pair overwrites holds what its source held when its turn came. -/
theorem in_order_target {xs ys : List (File × File)} {src dst : File} {fs : Fs File}
    (h : (in_order (xs ++ (src, dst) :: ys) fs).1) (hlast : ∀ p ∈ ys, p.2 ≠ dst) :
    (in_order (xs ++ (src, dst) :: ys) fs).2 dst = (in_order xs fs).2 src := by
  have hxs := in_order_prefix h
  rw [in_order_append _ _ _ hxs] at h ⊢
  rw [in_order] at h ⊢
  cases hs : (in_order xs fs).2 src with
  | none =>
    rw [hs] at h
    exact nomatch h
  | some b =>
    change (in_order ys (((in_order xs fs).2).set dst b)).2 dst = some b
    rw [in_order_frame ys _ dst hlast, Fs.set_self]

end InOrder

/-! ## One file -/

/-- A turn of the loop without a fault. -/
structure Block.Calm (b : Block) : Prop where
  stopped : b.stopped = false
  read : b.read.isSome
  write : b.write = none

/-- A transfer without a fault. -/
structure CopyFaults.Calm (f : CopyFaults) : Prop where
  stopped : f.stopped = false
  open_source : f.open_source
  create_dir_all : f.create_dir_all
  open_target : f.open_target
  blocks : ∀ i, (f.blocks i).Calm
  flush : f.flush

/-- What a transfer of `b` to `dst` leaves: no other file changes, the target is complete when it
succeeds, and it succeeds when nothing goes wrong. -/
structure Moved {P ε : Type} (fs : Fs P) (dst : P) (b : Bytes) (calm : Prop) (r : Except ε ℕ)
    (fs' : Fs P) : Prop where
  frame : ∀ q, q ≠ dst → fs' q = fs q
  done : ∀ n, r = .ok n → fs' dst = some b
  calm_ok : calm → ∃ n, r = .ok n

section OneFile

variable {P : Type} {src dst : P} {b : Bytes}

theorem Moved.of_error {ε : Type} {fs fs' : Fs P} {calm : Prop} {e : ε}
    (hframe : ∀ q, q ≠ dst → fs' q = fs q) (hcalm : ¬ calm) :
    Moved fs dst b calm (.error e) fs' :=
  ⟨hframe, fun _ h => (nomatch h), fun h => absurd h hcalm⟩

theorem Moved.imp_calm {ε : Type} {fs fs' : Fs P} {calm calm' : Prop} {r : Except ε ℕ}
    (h : Moved fs dst b calm r fs') (hc : calm' → calm) : Moved fs dst b calm' r fs' :=
  ⟨h.frame, h.done, fun h' => h.calm_ok (hc h')⟩

theorem Moved.mapError {ε ε' : Type} {fs fs' : Fs P} {calm : Prop} {r : Except ε ℕ} (f : ε → ε')
    (h : Moved fs dst b calm r fs') : Moved fs dst b calm (r.mapError f) fs' := by
  cases r with
  | error e => exact .of_error h.frame fun hc => nomatch (h.calm_ok hc).choose_spec
  | ok n => exact ⟨h.frame, fun _ _ => h.done n rfl, fun _ => ⟨n, rfl⟩⟩

variable [DecidableEq P]

theorem Moved.of_set {ε : Type} {fs fs' : Fs P} {calm : Prop} {r : Except ε ℕ} {c : Bytes}
    (h : Moved (fs.set dst c) dst b calm r fs') : Moved fs dst b calm r fs' :=
  ⟨fun q hq => (h.frame q hq).trans (fs.set_of_ne c hq), h.done, h.calm_ok⟩

/-- **The block loop** copies the whole source to another file, whatever the blocks. -/
theorem wp_copy (blocks : ℕ → Block) (flush : Bool) (hne : src ≠ dst) :
    ∀ (fuel turn pos bytes : ℕ) (fs : Fs P), fs src = some b → fs dst = some (b.take pos) →
      pos ≤ b.length → b.length < pos + fuel →
      wp (copy blocks flush src dst fuel turn pos bytes)
        (Moved fs dst b ((∀ i, (blocks i).Calm) ∧ flush)) fs
  | 0, turn, pos, bytes, fs, hsrc, hdst, hpos, hfuel => by omega
  | fuel + 1, turn, pos, bytes, fs, hsrc, hdst, hpos, hfuel => by
    rw [copy]
    by_cases hstop : (blocks turn).stopped
    · rw [if_pos hstop]
      exact .of_error (fun _ _ => rfl) fun hc => by simp [(hc.1 turn).stopped] at hstop
    rw [if_neg hstop]
    cases hread : (blocks turn).read with
    | none => exact .of_error (fun _ _ => rfl) fun hc => by simpa [hread] using (hc.1 turn).read
    | some more =>
      rw [wp_get, hsrc, Option.getD_some]
      set block := (b.drop pos).take (more + 1) with hblock
      by_cases hempty : block = []
      · have hend : b.length ≤ pos := by
          have hlen := congrArg List.length hempty
          simp only [hblock, List.length_take, List.length_drop, List.length_nil] at hlen
          omega
        rw [if_pos hempty, wp_bind, wp_map_err, wp_pass]
        split_ifs with hflush
        · refine ⟨fun _ _ => rfl, fun _ _ => ?_, fun _ => ⟨_, rfl⟩⟩
          change fs dst = some b
          rw [hdst, List.take_of_length_le hend]
        · exact .of_error (fun _ _ => rfl) fun hc => hflush hc.2
      · rw [if_neg hempty, wp_bind, wp_map_err, wp_write_all, hdst, Option.getD_some]
        cases hwrite : (blocks turn).write with
        | some cut =>
          refine .of_error (fun q hq => fs.set_of_ne _ hq) fun hc => ?_
          have := (hc.1 turn).write
          rw [hwrite] at this
          exact nomatch this
        | none =>
          have hlen : block.length ≤ b.length - pos := by
            simp only [hblock, List.length_take, List.length_drop]
            omega
          have hpos' : 0 < block.length := List.length_pos_of_ne_nil hempty
          have htake : b.take pos ++ block = b.take (pos + block.length) := by
            rw [List.take_add]
            exact congrArg _ (List.prefix_iff_eq_take.mp (List.take_prefix _ _))
          refine .of_set (wp_copy blocks flush hne fuel (turn + 1) (pos + block.length)
            (bytes + block.length) _ ?_ ?_ ?_ ?_)
          · rw [fs.set_of_ne _ hne, hsrc]
          · rw [Fs.set_self, htake]
          · omega
          · omega

/-- The loop ends: its fuel covers the source, or the source was emptied by opening the target. -/
theorem copy_finishes (blocks : ℕ → Block) (flush : Bool) :
    ∀ (fuel turn pos bytes : ℕ) (fs : Fs P), src ≠ dst ∨ (fs src).getD [] = [] →
      ((fs src).getD []).length < pos + fuel → pos ≤ ((fs src).getD []).length →
      wp (copy blocks flush src dst fuel turn pos bytes) (fun r _ => r ≠ .error .unfinished) fs
  | 0, _, _, _, _, _, hfuel, hpos => by omega
  | fuel + 1, turn, pos, bytes, fs, halias, hfuel, hpos => by
    rw [copy]
    split_ifs
    · exact fun h => nomatch h
    cases (blocks turn).read with
    | none => exact fun h => nomatch h
    | some more =>
      rw [wp_get]
      set content := (fs src).getD [] with hcontent
      set block := (content.drop pos).take (more + 1) with hblock
      by_cases hempty : block = []
      · rw [if_pos hempty, wp_bind, wp_map_err, wp_pass]
        split_ifs <;> exact fun h => nomatch h
      · rw [if_neg hempty, wp_bind, wp_map_err, wp_write_all]
        cases (blocks turn).write with
        | some cut => exact fun h => nomatch h
        | none =>
          have hlen : block.length ≤ content.length - pos := by
            simp only [hblock, List.length_take, List.length_drop]
            omega
          have hpos' : 0 < block.length := List.length_pos_of_ne_nil hempty
          have hne : src ≠ dst := by
            rcases halias with h | h
            · exact h
            · rw [h, List.length_nil] at hlen
              omega
          have hsrc : (fs.set dst ((fs dst).getD [] ++ block)) src = fs src := fs.set_of_ne _ hne
          refine copy_finishes blocks flush fuel _ _ _ _ (.inl hne) ?_ ?_
          · rw [hsrc, ← hcontent]
            omega
          · rw [hsrc, ← hcontent]
            omega

/-- A transfer from the start of a source that does not exist changes nothing. -/
theorem wp_stream_missing {opening : IoError → CopyError P} {f : CopyFaults} {fs : Fs P}
    (hsrc : fs src = none) :
    wp (stream opening f src dst) (fun r fs' => (∃ e, r = .error e) ∧ fs' = fs) fs := by
  rw [stream, wp_bind, wp_map_err, wp_open_file, hsrc]
  exact ⟨⟨_, rfl⟩, rfl⟩

theorem wp_stream {opening : IoError → CopyError P} {f : CopyFaults} {fs : Fs P}
    (hne : src ≠ dst) (hsrc : fs src = some b) :
    wp (stream opening f src dst) (Moved fs dst b f.Calm) fs := by
  rw [stream, wp_bind, wp_map_err, wp_open_file, hsrc, Option.isNone_some,
    if_neg Bool.false_ne_true]
  by_cases hopen : f.open_source
  case neg =>
    rw [if_neg hopen]
    exact .of_error (fun _ _ => rfl) fun hc => hopen hc.open_source
  rw [if_pos hopen]
  change wp (map_err (CopyError.creating dst) (pass f.create_dir_all) >>= _) _ fs
  rw [wp_bind, wp_map_err, wp_pass]
  by_cases hdir : f.create_dir_all
  case neg =>
    rw [if_neg hdir]
    exact .of_error (fun _ _ => rfl) fun hc => hdir hc.create_dir_all
  rw [if_pos hdir]
  change wp (map_err (CopyError.writing dst) (create f.open_target dst) >>= _) _ fs
  rw [wp_bind, wp_map_err, wp_create]
  by_cases hcreate : f.open_target
  case neg =>
    rw [if_neg hcreate]
    exact .of_error (fun _ _ => rfl) fun hc => hcreate hc.open_target
  rw [if_pos hcreate]
  change wp (get >>= _) _ (fs.set dst [])
  have hsrc' : fs.set dst [] src = some b := (fs.set_of_ne _ hne).trans hsrc
  rw [wp_get, wp_map_err]
  refine wp_mono (wp_copy f.blocks f.flush hne _ 0 0 0 _ hsrc' (fs.set_self _) ?_ ?_)
    fun r fs' h => ?_
  · exact Nat.zero_le _
  · rw [size_of, hsrc', Option.getD_some]
    omega
  · refine (Moved.of_set (h.mapError _)).imp_calm fun hc => ⟨hc.blocks, hc.flush⟩

/-- A transfer from the start ends, also where a file is copied onto itself. -/
theorem stream_finishes {opening : IoError → CopyError P} (hopening : ∀ e, opening e ≠ .unfinished)
    (f : CopyFaults) (fs : Fs P) :
    wp (stream opening f src dst) (fun r _ => r ≠ .error .unfinished) fs := by
  rw [stream, wp_bind, wp_map_err]
  have hcopy : wp (copy f.blocks f.flush src dst (size_of (fs.set dst []) src + 1) 0 0 0)
      (fun r _ => r ≠ .error .unfinished) (fs.set dst []) := by
    refine copy_finishes f.blocks f.flush _ 0 0 0 _ ?_ ?_ (Nat.zero_le _)
    · by_cases h : src = dst
      · exact .inr (by rw [h, Fs.set_self, Option.getD_some])
      · exact .inl h
    · rw [size_of]
      omega
  have hloop : wp (map_err (CopyError.of_transfer src dst)
      (copy f.blocks f.flush src dst (size_of (fs.set dst []) src + 1) 0 0 0))
      (fun r _ => r ≠ .error .unfinished) (fs.set dst []) := by
    rw [wp_map_err]
    refine wp_mono hcopy fun r _ hr => ?_
    rcases r with (_ | _ | _ | _) | _
    case error.unfinished => exact absurd rfl hr
    all_goals
      intro h
      cases h
  rw [wp_open_file]
  split
  · exact fun h => hopening _ (Except.error.inj h)
  split
  · rw [Except.mapError, continues_ok, wp_bind, wp_map_err, wp_pass]
    split
    · rw [Except.mapError, continues_ok, wp_bind, wp_map_err, wp_create]
      split
      · exact hloop
      · intro h
        cases h
    · intro h
      cases h
  · exact fun h => hopening _ (Except.error.inj h)

theorem CopyFaults.Calm.unstoppable {f : CopyFaults} (h : f.Calm) : f.unstoppable.Calm :=
  ⟨h.stopped, h.open_source, h.create_dir_all, h.open_target,
    fun i => ⟨rfl, (h.blocks i).read, (h.blocks i).write⟩, h.flush⟩

variable {f : CopyFaults} {fs : Fs P}

theorem wp_copy_file (hne : src ≠ dst) (hsrc : fs src = some b) :
    wp (copy_file f src dst) (Moved fs dst b f.Calm) fs := by
  unfold copy_file
  split_ifs with hstop
  · exact .of_error (fun _ _ => rfl) fun hc => by simp [hc.stopped] at hstop
  · exact wp_stream hne hsrc

theorem wp_copy_file_missing (hsrc : fs src = none) :
    wp (copy_file f src dst) (fun r fs' => (∃ e, r = .error e) ∧ fs' = fs) fs := by
  unfold copy_file
  split_ifs
  · exact ⟨⟨_, rfl⟩, rfl⟩
  · exact wp_stream_missing hsrc

theorem wp_download (hne : src ≠ dst) (hsrc : fs src = some b) :
    wp (download f src dst) (Moved fs dst b f.Calm) fs :=
  wp_mono (wp_stream hne hsrc) fun _ _ h => h.imp_calm CopyFaults.Calm.unstoppable

theorem wp_upload (hne : src ≠ dst) (hsrc : fs src = some b) :
    wp (upload f src dst) (Moved fs dst b f.Calm) fs :=
  wp_mono (wp_stream hne hsrc) fun _ _ h => h.imp_calm fun hc =>
    ⟨hc.stopped, hc.open_source, rfl, hc.open_target, hc.unstoppable.blocks, hc.flush⟩

end OneFile

/-! ## The whole request -/

/-- What a request that carries out `pairs` leaves: only targets change; when it succeeds, and when
nothing goes wrong, it has done what `in_order` does. -/
structure Carried {File ε α : Type} [DecidableEq File] (pairs : List (File × File)) (fs : Fs File)
    (calm : Prop) (r : Except ε α) (fs' : Fs File) : Prop where
  frame : ∀ q, (∀ p ∈ pairs, p.2 ≠ q) → fs' q = fs q
  done : ∀ o, r = .ok o → in_order pairs fs = (true, fs')
  calm_eq : calm → in_order pairs fs = (r.isOk, fs')

section CopyMany

variable {File : Type} [DecidableEq File]

theorem Carried.of_error {ε α : Type} {pairs : List (File × File)} {fs fs' : Fs File} {calm : Prop}
    {e : ε} (hframe : ∀ q, (∀ p ∈ pairs, p.2 ≠ q) → fs' q = fs q)
    (hcalm : calm → in_order pairs fs = (false, fs')) :
    Carried (α := α) pairs fs calm (.error e) fs' :=
  ⟨hframe, fun _ h => (nomatch h), hcalm⟩

theorem Carried.cons {ε α : Type} {pairs : List (File × File)} {fs mid fs' : Fs File} {calm : Prop}
    {r : Except ε α} {src dst : File} {b : Bytes} (hsrc : fs src = some b) (hmid : mid = fs.set dst b)
    (h : Carried pairs mid calm r fs') : Carried ((src, dst) :: pairs) fs calm r fs' := by
  have hcons : in_order ((src, dst) :: pairs) fs = in_order pairs mid := by
    rw [in_order, hsrc, hmid]
  refine ⟨fun q hq => ?_, fun o ho => hcons.trans (h.done o ho), fun hc => hcons.trans (h.calm_eq hc)⟩
  have hdst : q ≠ dst := fun hqd => hq (src, dst) List.mem_cons_self hqd.symm
  rw [h.frame q fun p hp => hq p (List.mem_cons_of_mem _ hp), hmid, Fs.set_of_ne _ _ hdst]

theorem Carried.done_of_isOk {ε α : Type} {pairs : List (File × File)} {fs fs' : Fs File}
    {calm : Prop} {r : Except ε α} (h : Carried pairs fs calm r fs') (hok : r.isOk) :
    in_order pairs fs = (true, fs') := by
  cases r with
  | error e => exact nomatch hok
  | ok o => exact h.done o rfl

/-- A complete transfer is an assignment. -/
theorem Moved.eq_set {ε : Type} {fs fs' : Fs File} {dst : File} {b : Bytes} {calm : Prop} {n : ℕ}
    (h : Moved (ε := ε) fs dst b calm (.ok n) fs') : fs' = fs.set dst b := by
  funext q
  by_cases hq : q = dst
  · rw [hq, h.done n rfl, Fs.set_self]
  · rw [h.frame q hq, Fs.set_of_ne _ _ hq]

/-- The files the pairs denote. -/
def pairs (resolve : String → File) (items : List (String × String)) : List (File × File) :=
  items.map fun p => (resolve p.1, resolve p.2)

/-- A pair without a fault. -/
structure PairFaults.Calm (f : PairFaults) : Prop where
  stopped : f.stopped = false
  first : f.first.Calm
  second : f.second.Calm

variable {resolve : String → File} {faults : ℕ → PairFaults}

/-- **On this machine**: the pairs are carried out in order unless a file is copied onto itself. -/
theorem wp_copy_many_local : ∀ (items : List (String × String)) (turn bytes : ℕ) (fs : Fs File),
    (∀ p ∈ items, resolve p.1 ≠ resolve p.2) →
    wp (copy_many_local resolve faults false items turn bytes)
      (Carried (pairs resolve items) fs (∀ i, (faults i).Calm)) fs
  | [], _, _, _, _ => ⟨fun _ _ => rfl, fun _ _ => rfl, fun _ => rfl⟩
  | (src, dst) :: items, turn, bytes, fs, hself => by
    have hne := hself (src, dst) List.mem_cons_self
    rw [copy_many_local]
    by_cases hstop : (faults turn).stopped
    · rw [if_pos hstop]
      exact .of_error (fun _ _ => rfl) fun hc => by simp [(hc turn).stopped] at hstop
    rw [if_neg hstop, if_neg Bool.false_ne_true, wp_bind]
    cases hsrc : fs (resolve src) with
    | none =>
      refine wp_mono (wp_copy_file_missing hsrc) ?_
      rintro _ _ ⟨⟨e, rfl⟩, rfl⟩
      exact .of_error (fun _ _ => rfl) fun _ => by rw [pairs, List.map_cons, in_order, hsrc]
    | some b =>
      refine wp_mono (wp_copy_file hne hsrc) fun r mid hm => ?_
      cases r with
      | error e =>
        refine .of_error (fun q hq => hm.frame q fun hqd => ?_) fun hc => ?_
        · exact hq (resolve src, resolve dst) List.mem_cons_self hqd.symm
        · exact nomatch (hm.calm_ok (hc turn).first).choose_spec
      | ok n =>
        have htail := wp_copy_many_local items (turn + 1) (bytes + n) mid
          fun p hp => hself p (List.mem_cons_of_mem _ hp)
        exact Carried.cons hsrc hm.eq_set htail

/-- The local request ends, whatever the pairs. -/
theorem copy_many_local_finishes : ∀ (items : List (String × String)) (turn bytes : ℕ)
    (fs : Fs File), wp (copy_many_local resolve faults false items turn bytes)
      (fun r _ => r ≠ .error .unfinished) fs
  | [], _, _, _ => fun h => nomatch h
  | (src, dst) :: items, turn, bytes, fs => by
    rw [copy_many_local]
    split
    · exact fun h => nomatch h
    · rw [if_neg Bool.false_ne_true, wp_bind, copy_file]
      split
      · exact fun h => nomatch h
      · have hopening : ∀ e, CopyError.reading (resolve src) e ≠ .unfinished := fun _ h => nomatch h
        refine wp_mono (stream_finishes hopening _ fs) fun r mid hr => ?_
        cases r with
        | error e => exact fun h => hr (congrArg Except.error (Except.error.inj h))
        | ok n => exact copy_many_local_finishes items (turn + 1) (bytes + n) mid

/-- The files of the host. -/
def host (fs : Fs (WithScratch File)) : Fs File := fun q => fs (.inl q)

theorem host_set_scratch (fs : Fs (WithScratch File)) (b : Bytes) :
    host (fs.set scratch b) = host fs := by
  funext q
  exact fs.set_of_ne b Sum.inl_ne_inr

theorem host_set (fs : Fs (WithScratch File)) (dst : File) (b : Bytes) :
    host (fs.set (.inl dst) b) = (host fs).set dst b := by
  funext q
  by_cases hq : q = dst
  · subst hq
    rw [Fs.set_self]
    exact fs.set_self b
  · rw [Fs.set_of_ne _ _ hq]
    exact fs.set_of_ne b fun h => hq (Sum.inl_injective h)

/-- **Over SFTP**: the pairs are carried out in order, also where a file is copied onto itself. -/
theorem wp_copy_pairs_sftp : ∀ (items : List (String × String)) (turn bytes : ℕ)
    (fs : Fs (WithScratch File)),
    wp (copy_pairs_sftp resolve faults false items turn bytes)
      (fun r fs' => Carried (pairs resolve items) (host fs) (∀ i, (faults i).Calm) r (host fs')) fs
  | [], _, _, _ => ⟨fun _ _ => rfl, fun _ _ => rfl, fun _ => rfl⟩
  | (src, dst) :: items, turn, bytes, fs => by
    rw [copy_pairs_sftp, if_neg Bool.false_ne_true, wp_bind]
    cases hsrc : fs (.inl (resolve src)) with
    | none =>
      have hsrc' : host fs (resolve src) = none := hsrc
      refine wp_mono (wp_stream_missing hsrc) ?_
      rintro _ _ ⟨⟨e, rfl⟩, rfl⟩
      exact .of_error (fun _ _ => rfl) fun _ => by rw [pairs, List.map_cons, in_order, hsrc']
    | some b =>
      have hsrc' : host fs (resolve src) = some b := hsrc
      refine wp_mono (wp_download Sum.inl_ne_inr hsrc) fun r mid hm => ?_
      cases r with
      | error e =>
        refine .of_error (fun q _ => hm.frame _ Sum.inl_ne_inr) fun hc => ?_
        exact nomatch (hm.calm_ok (hc turn).first).choose_spec
      | ok n =>
        have hmid := hm.eq_set
        have hscratch : mid scratch = some b := by rw [hmid, Fs.set_self]
        rw [continues_ok, wp_bind]
        refine wp_mono (wp_upload Sum.inr_ne_inl hscratch) fun r fs' hm' => ?_
        have hhost : host mid = host fs := by rw [hmid, host_set_scratch]
        cases r with
        | error e =>
          refine .of_error (fun q hq => ?_) fun hc => ?_
          · have hqd : q ≠ resolve dst := fun h =>
              hq (resolve src, resolve dst) List.mem_cons_self h.symm
            rw [← hhost]
            exact hm'.frame _ fun h => hqd (Sum.inl_injective h)
          · exact nomatch (hm'.calm_ok (hc turn).second).choose_spec
        | ok m =>
          have hset : host fs' = (host fs).set (resolve dst) b := by
            rw [hm'.eq_set, host_set, hhost]
          exact wp_mono (wp_copy_pairs_sftp items (turn + 1) (bytes + n) fs')
            fun _ _ h => Carried.cons hsrc' hset h

theorem wp_copy_many_sftp (remove_scratch : Bool) (items : List (String × String))
    (fs : Fs (WithScratch File)) :
    wp (copy_many_sftp resolve faults false remove_scratch items)
      (fun r fs' => Carried (pairs resolve items) (host fs) (∀ i, (faults i).Calm) r (host fs'))
      fs := by
  rw [copy_many_sftp, wp_bind]
  refine wp_mono (wp_copy_pairs_sftp items 0 0 fs) fun r mid h => ?_
  cases r with
  | error e => exact .of_error h.frame h.calm_eq
  | ok bytes =>
    have hhost : host ((remove_file remove_scratch scratch).run mid).2 = host mid := by
      rw [run_remove_file]
      split_ifs
      · rfl
      · funext q
        exact Fs.erase_of_ne mid (p := scratch) Sum.inl_ne_inr
      · rfl
    change Carried _ (host fs) _ _ (host ((remove_file remove_scratch scratch).run mid).2)
    rw [hhost]
    exact ⟨h.frame, fun _ _ => h.done bytes rfl, h.calm_eq⟩

/-- **`CopyMany` copies in order.** Where no pair copies a file onto itself: the local request
changes no file but targets; when it succeeds it has assigned each source to its target, pair after
pair, so that a target no later pair overwrites holds what its source held at its turn; and over
SFTP the same host ends in the same contents, whenever both succeed and, without faults, also when a
source is missing. -/
theorem copy_many_in_order (resolve : String → File) (items : List (String × String))
    (hself : ∀ p ∈ items, resolve p.1 ≠ resolve p.2) (faults faults' : ℕ → PairFaults)
    (remove_scratch : Bool) (fs : Fs (WithScratch File))
    {here : Except (CopyError File) SftpOutcome × Fs File}
    (hhere : (copy_many_local resolve faults false items 0 0).run (host fs) = here)
    {sftp : Except (CopyError (WithScratch File)) SftpOutcome × Fs (WithScratch File)}
    (hsftp : (copy_many_sftp resolve faults' false remove_scratch items).run fs = sftp) :
    (∀ q, (∀ p ∈ items, resolve p.2 ≠ q) → here.2 q = host fs q) ∧
      (here.1.isOk → in_order (pairs resolve items) (host fs) = (true, here.2)) ∧
      (∀ xs src dst ys, items = xs ++ (src, dst) :: ys → here.1.isOk →
        (∀ p ∈ ys, resolve p.2 ≠ resolve dst) →
        here.2 (resolve dst) = (in_order (pairs resolve xs) (host fs)).2 (resolve src) ∧
        ((∀ p ∈ xs, resolve p.2 ≠ resolve src) →
          here.2 (resolve dst) = host fs (resolve src))) ∧
      (here.1.isOk → sftp.1.isOk → host sftp.2 = here.2) ∧
      ((∀ i, (faults i).Calm) → (∀ i, (faults' i).Calm) →
        sftp.1.isOk = here.1.isOk ∧ host sftp.2 = here.2) := by
  have hl : Carried (pairs resolve items) (host fs) (∀ i, (faults i).Calm) here.1 here.2 :=
    hhere ▸ wp_copy_many_local items 0 0 (host fs) hself
  have hs : Carried (pairs resolve items) (host fs) (∀ i, (faults' i).Calm) sftp.1 (host sftp.2) :=
    hsftp ▸ wp_copy_many_sftp remove_scratch items fs
  have hdone : here.1.isOk → in_order (pairs resolve items) (host fs) = (true, here.2) :=
    fun hok => hl.done_of_isOk hok
  refine ⟨fun q hq => hl.frame q ?_, hdone, ?_, ?_, ?_⟩
  · intro p hp
    obtain ⟨p', hp', rfl⟩ := List.mem_map.mp hp
    exact hq p' hp'
  · intro xs src dst ys hitems hok hlast
    have hsplit : pairs resolve items =
        pairs resolve xs ++ (resolve src, resolve dst) :: pairs resolve ys := by
      rw [hitems, pairs, List.map_append, List.map_cons]
      rfl
    have hdone' := hdone hok
    rw [hsplit] at hdone'
    have htarget := in_order_target (congrArg Prod.fst hdone') fun p hp => by
      obtain ⟨p', hp', rfl⟩ := List.mem_map.mp hp
      exact hlast p' hp'
    rw [hdone'] at htarget
    refine ⟨htarget, fun hfirst => htarget.trans (in_order_frame _ _ _ fun p hp => ?_)⟩
    obtain ⟨p', hp', rfl⟩ := List.mem_map.mp hp
    exact hfirst p' hp'
  · intro hok hok'
    exact congrArg Prod.snd ((hs.done_of_isOk hok').symm.trans (hdone hok))
  · intro hc hc'
    have heq := (hs.calm_eq hc').symm.trans (hl.calm_eq hc)
    exact ⟨congrArg Prod.fst heq, congrArg Prod.snd heq⟩

end CopyMany

/-! ## Runs without faults -/

/-- Nothing goes wrong; every read returns up to 64 KiB. -/
def calm_transfer : CopyFaults :=
  ⟨false, true, true, true, fun _ => ⟨false, some 65535, none⟩, true⟩

def calm_pair : PairFaults := ⟨false, calm_transfer, calm_transfer, true⟩

/-- Two files on the host. -/
def two_files : Fs (WithScratch String) := fun p =>
  if p = .inl "/a" then some [1, 2, 3] else if p = .inl "/b" then some [4] else none

theorem calm_pair_calm : calm_pair.Calm :=
  have h : calm_transfer.Calm := ⟨rfl, rfl, rfl, rfl, fun _ => ⟨rfl, rfl, rfl⟩, rfl⟩
  ⟨rfl, h, h⟩

/-- One pair without faults. -/
theorem copy_many_in_order_two_files :
    ((copy_many_local id (fun _ => calm_pair) false [("/a", "/c")] 0 0).run (host two_files)).2
        "/b" = some [4] ∧
      ((copy_many_local id (fun _ => calm_pair) false [("/a", "/c")] 0 0).run (host two_files)).2
        "/c" = some [1, 2, 3] ∧
      host ((copy_many_sftp id (fun _ => calm_pair) false true [("/a", "/c")]).run two_files).2 =
        ((copy_many_local id (fun _ => calm_pair) false [("/a", "/c")] 0 0).run (host two_files)).2 :=
  have h := copy_many_in_order id [("/a", "/c")] (by decide) (fun _ => calm_pair)
    (fun _ => calm_pair) true two_files rfl rfl
  ⟨h.1 "/b" (by decide), (h.2.2.1 [] "/a" "/c" [] rfl (by decide) (by decide)).2 (by decide),
    (h.2.2.2.2 (fun _ => calm_pair_calm) fun _ => calm_pair_calm).2⟩

/-- Copying a file onto itself empties it on this machine and keeps it over SFTP; and where a target
is a later source, that source is overwritten first. -/
theorem copy_many_changes_sources :
    (((copy_many_local id (fun _ => calm_pair) false [("/a", "/a")] 0 0).run (host two_files)).1 =
        .ok (.transferred 0) ∧
      ((copy_many_local id (fun _ => calm_pair) false [("/a", "/a")] 0 0).run (host two_files)).2
        "/a" = some [] ∧
      host ((copy_many_sftp id (fun _ => calm_pair) false true [("/a", "/a")]).run two_files).2
        "/a" = some [1, 2, 3]) ∧
    (((copy_many_local id (fun _ => calm_pair) false [("/a", "/b"), ("/b", "/c")] 0 0).run
        (host two_files)).1 = .ok (.transferred 6) ∧
      ((copy_many_local id (fun _ => calm_pair) false [("/a", "/b"), ("/b", "/c")] 0 0).run
        (host two_files)).2 "/b" = some [1, 2, 3] ∧
      ((copy_many_local id (fun _ => calm_pair) false [("/a", "/b"), ("/b", "/c")] 0 0).run
        (host two_files)).2 "/c" = some [1, 2, 3]) := by
  decide

end WaSSH.Files
