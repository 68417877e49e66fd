import Mathlib.Data.List.Nodup
import WaSSH.Lib.Run
import WaSSH.Tabs.Bar

/-!
# Tabs with different ids

* `Sound`: the tabs have different ids, the counter is past the numbers in use, and the active
  place is that of a tab;
* `Counts`: an operation that the counter of 64 bits has room for;
* **`Sound.step`**: such an operation keeps all of it.
-/

namespace WaSSH.Tabs

/-- Different ids, numbers to come, and an active tab as long as there are tabs. -/
structure Sound (s : Shell) : Prop where
  distinct : (s.sessions.map (·.id)).Nodup
  active_none : s.active = none ↔ s.sessions = []
  active_lt : ∀ i, s.active = some i → i < s.sessions.length
  next_lt : s.next_id < 2 ^ 64
  numbered : ∀ n < 2 ^ 64, tab_id n ∈ s.sessions.map (·.id) → n < s.next_id

/-- The counter does not pass its last number. -/
def Counts (s : Shell) : Op → Prop
  | .open => s.next_id + 1 < 2 ^ 64
  | .restore tabs => ∀ tab ∈ tabs, ∀ number ∈ tab_number tab.id, number + 1 < 2 ^ 64
  | _ => True

instance (s : Shell) (op : Op) : Decidable (Counts s op) := by
  cases op <;> unfold Counts <;> infer_instance

theorem tab_id_injective {m n : ℕ} (h : tab_id m = tab_id n) : m = n := by
  have hdigits := List.append_cancel_left h
  rw [← Nat.ofDigitChars_ten_toDigits (n := m), hdigits, Nat.ofDigitChars_ten_toDigits]

/-- A number below `2 ^ 64` is read back from the id. -/
theorem tab_number_tab_id {n : ℕ} (h : n < 2 ^ 64) : tab_number (tab_id n) = some n := by
  have hstrip : Text.strip_prefix "tab-".toList (tab_id n) = some (Nat.toDigits 10 n) := rfl
  rw [tab_number, hstrip]
  exact Text.parse_usize_toDigits h

variable {s : Shell}

/-! ## Places -/

theorem lt_of_position {id : List Char} {i : ℕ} (h : s.position id = some i) :
    i < s.sessions.length := by
  obtain ⟨hi, -⟩ := List.findIdx?_eq_some_iff_getElem.mp h
  exact hi

/-- With different ids a session is found at its own place. -/
theorem position_eq (hdistinct : (s.sessions.map (·.id)).Nodup) {i : ℕ} {entry : SessionEntry}
    (h : s.sessions[i]? = some entry) : s.position entry.id = some i := by
  obtain ⟨hi, rfl⟩ := List.getElem?_eq_some_iff.mp h
  refine List.findIdx?_eq_some_iff_getElem.mpr ⟨hi, decide_eq_true rfl, fun j hj => ?_⟩
  rw [Bool.not_eq_true, decide_eq_false_iff_not]
  intro heq
  have hne := List.nodup_iff_injective_getElem.mp hdistinct
  have hsame := @hne ⟨j, by rw [List.length_map]; omega⟩ ⟨i, by rwa [List.length_map]⟩
    (by simpa using heq)
  exact hj.ne (congrArg Fin.val hsame)

/-! ## What keeps the tabs sound -/

namespace Sound

/-- Another active tab, or another drag. -/
theorem of_sessions (hs : Sound s) {t : Shell} (hsessions : t.sessions = s.sessions)
    (hnext : t.next_id = s.next_id) (hnone : t.active = none ↔ t.sessions = [])
    (hlt : ∀ i, t.active = some i → i < t.sessions.length) : Sound t where
  distinct := hsessions ▸ hs.distinct
  active_none := hnone
  active_lt := hlt
  next_lt := hnext ▸ hs.next_lt
  numbered := by rw [hsessions, hnext]; exact hs.numbered

/-- Another tab of those there are becomes active. -/
theorem activate (hs : Sound s) {i : ℕ} (hi : i < s.sessions.length) :
    Sound { s with active := some i } := by
  refine hs.of_sessions rfl rfl ⟨fun h => absurd h (Option.some_ne_none i), fun h => ?_⟩ ?_
  · replace h : s.sessions = [] := h
    rw [h] at hi
    exact absurd hi (Nat.not_lt_zero i)
  · rintro j ⟨⟩
    exact hi

theorem later (hs : Sound s) {n : ℕ} (hn : s.next_id ≤ n) (hlt : n < 2 ^ 64) :
    Sound { s with next_id := n } where
  distinct := hs.distinct
  active_none := hs.active_none
  active_lt := hs.active_lt
  next_lt := hlt
  numbered := fun m hm hmem => (hs.numbered m hm hmem).trans_le hn

theorem push_session (hs : Sound s) {id : List Char} (hnew : id ∉ s.sessions.map (·.id))
    (hnumber : ∀ n < 2 ^ 64, id = tab_id n → n < s.next_id) : Sound (s.push_session ⟨id⟩) where
  distinct := by
    show ((s.sessions ++ [SessionEntry.mk id]).map (·.id)).Nodup
    rw [List.map_append]
    exact hs.distinct.append (List.nodup_singleton id) (by simpa using hnew)
  active_none := ⟨fun h => absurd h (Option.some_ne_none _), fun h => by
    simp [Shell.push_session] at h⟩
  active_lt := by
    rintro i ⟨⟩
    simp [Shell.push_session]
  next_lt := hs.next_lt
  numbered := by
    intro n hn hmem
    replace hmem : tab_id n ∈ (s.sessions ++ [SessionEntry.mk id]).map (·.id) := hmem
    rw [List.map_append, List.mem_append] at hmem
    obtain hold | hid := hmem
    · exact hs.numbered n hn hold
    · exact hnumber n hn (List.mem_singleton.mp hid).symm

theorem «open» (hs : Sound s) (hcount : s.next_id + 1 < 2 ^ 64) : Sound s.open := by
  have hnext : (s.next_id + 1) % 2 ^ 64 = s.next_id + 1 := Nat.mod_eq_of_lt hcount
  have hlater : Sound s.next_session_id.1 := by
    unfold Shell.next_session_id
    rw [hnext]
    exact hs.later (Nat.le_succ _) hcount
  refine hlater.push_session (fun hmem => ?_) fun n _ heq => ?_
  · exact absurd (hs.numbered s.next_id hs.next_lt hmem) (lt_irrefl _)
  · rw [← tab_id_injective heq]
    show s.next_id < (s.next_id + 1) % 2 ^ 64
    omega

theorem close (hs : Sound s) (index : ℕ) : Sound (s.close index) := by
  unfold Shell.close
  split
  · exact hs
  next hindex =>
    have hsub : ((s.sessions.eraseIdx index).map (·.id)).Sublist (s.sessions.map (·.id)) :=
      (List.eraseIdx_sublist _ _).map _
    refine ⟨hs.distinct.sublist hsub, ?_, ?_, hs.next_lt,
      fun n hn hmem => hs.numbered n hn (hsub.subset hmem)⟩
    · dsimp only
      split
      next hnil => exact iff_of_true rfl hnil
      next hsome =>
        refine iff_of_false (fun h => ?_) hsome
        rw [Option.map_eq_none_iff, hs.active_none] at h
        rw [h] at hindex
        exact hindex (Nat.zero_le _)
    · intro i hi
      dsimp only at hi ⊢
      split at hi
      · cases hi
      next hsome =>
        obtain ⟨active, -, rfl⟩ := Option.map_eq_some_iff.mp hi
        have hpos := List.length_pos_iff.mpr hsome
        omega

theorem foldl_close (hs : Sound s) (indices : List ℕ) : Sound (indices.foldl Shell.close s) := by
  induction indices generalizing s with
  | nil => exact hs
  | cons index indices ih => exact ih (hs.close index)

theorem cycle_tab (hs : Sound s) (forward : Bool) : Sound (s.cycle_tab forward) := by
  unfold Shell.cycle_tab
  split
  · exact hs
  next hcount =>
    have hpos : 0 < s.sessions.length := by omega
    refine hs.activate ?_
    split
    · exact Nat.mod_lt _ hpos
    · exact Nat.mod_lt _ hpos

theorem click (hs : Sound s) (action : List Char → TabAction) (index : ℕ)
    (haction : ∀ entry ∈ s.sessions, Sound (s.apply_action (action entry.id))) :
    Sound (s.click action index) := by
  unfold Shell.click
  split
  next entry hentry => exact haction entry (List.mem_of_getElem? hentry)
  · exact hs

theorem select (hs : Sound s) {entry : SessionEntry} (hmem : entry ∈ s.sessions) :
    Sound (s.apply_action (.select entry.id)) := by
  obtain ⟨i, hi⟩ := List.mem_iff_getElem?.mp hmem
  have hposition := position_eq hs.distinct hi
  show Sound { s with active := s.position entry.id }
  rw [hposition]
  exact hs.activate (lt_of_position hposition)

theorem close_action (hs : Sound s) (id : List Char) : Sound (s.apply_action (.close id)) := by
  unfold Shell.apply_action
  dsimp only
  split
  · exact hs.close _
  · exact hs

/-- The same tabs in another order. -/
theorem perm (hs : Sound s) {sessions : List SessionEntry} (hperm : sessions.Perm s.sessions) :
    Sound { s with sessions } where
  distinct := (hperm.map (·.id)).nodup_iff.mpr hs.distinct
  active_none := by
    refine hs.active_none.trans ?_
    rw [← List.length_eq_zero_iff, ← List.length_eq_zero_iff, hperm.length_eq]
  active_lt := fun i hi => hperm.length_eq ▸ hs.active_lt i hi
  next_lt := hs.next_lt
  numbered := fun n hn hmem => hs.numbered n hn ((hperm.map (·.id)).mem_iff.mp hmem)

theorem reorder (hs : Sound s) («from» «to» : ℕ) :
    Sound (s.apply_action (.reorder «from» «to»)) := by
  unfold Shell.apply_action
  dsimp only
  split
  · split
    next entry hentry =>
      obtain ⟨hlt, rfl⟩ := List.getElem?_eq_some_iff.mp hentry
      have hperm := (List.perm_insertIdx s.sessions[«from»] (s.sessions.eraseIdx «from»)
        (min_le_right «to» (s.sessions.eraseIdx «from»).length)).trans
          (List.getElem_cons_eraseIdx_perm hlt)
      exact (hs.perm hperm).select (hperm.mem_iff.mpr (List.getElem_mem hlt))
    · exact hs
  · exact hs

theorem drag (hs : Sound s) (state : Option DragState) : Sound { s with drag := state } :=
  hs.of_sessions rfl rfl hs.active_none hs.active_lt

theorem release (hs : Sound s) (passed : ℕ → Bool) : Sound (s.step (.release passed)) := by
  show Sound (if s.sessions = [] then s
    else (s.tab_bar passed).2.foldl Shell.apply_action (s.tab_bar passed).1)
  split
  · exact hs
  unfold Shell.tab_bar
  split
  · exact hs
  · dsimp only
    split
    · exact (hs.drag none).reorder _ _
    · exact hs.drag none

/-! ### Tabs of the last run -/

theorem ids_one_active (found_active : Bool) (tabs : List TabSnapshot) :
    (one_active found_active tabs).map (·.id) = tabs.map (·.id) := by
  induction tabs generalizing found_active with
  | nil => rfl
  | cons tab tabs ih => exact congrArg (tab.id :: ·) (ih _)

theorem ids_normalize_tabs (tabs : List TabSnapshot) :
    (normalize_tabs tabs).map (·.id) =
      (OrderList.retain_first (·.id) (·.id ≠ []) [] tabs).map (·.id) := by
  have hids := ids_one_active false (OrderList.retain_first (·.id) (·.id ≠ []) [] tabs)
  unfold normalize_tabs
  dsimp only
  split
  · exact hids
  · split
    next hnil =>
      rw [hnil] at hids
      exact hids
    next first rest hcons =>
      rw [hcons] at hids
      exact hids

/-- The number of a restored tab is below the counter from then on. -/
theorem keep_clear (hs : Sound s) {id : List Char}
    (hcount : ∀ number ∈ tab_number id, number + 1 < 2 ^ 64) :
    Sound (s.keep_clear id) ∧ (s.keep_clear id).sessions = s.sessions ∧
      ∀ n < 2 ^ 64, id = tab_id n → n < (s.keep_clear id).next_id := by
  unfold Shell.keep_clear
  split
  next number hnumber =>
    have hlt := hcount number hnumber
    rw [Nat.mod_eq_of_lt hlt]
    refine ⟨hs.later (le_max_left _ _) (max_lt hs.next_lt hlt), rfl, fun n hn hid => ?_⟩
    rw [hid, tab_number_tab_id hn, Option.some.injEq] at hnumber
    rw [hnumber]
    exact (Nat.lt_succ_self number).trans_le (le_max_right _ _)
  next hnone =>
    refine ⟨hs, rfl, fun n hn hid => ?_⟩
    rw [hid, tab_number_tab_id hn] at hnone
    cases hnone

theorem foldl_restore (hs : Sound s) (tabs : List TabSnapshot)
    (hnew : (s.sessions.map (·.id) ++ tabs.map (·.id)).Nodup)
    (hcount : ∀ tab ∈ tabs, ∀ number ∈ tab_number tab.id, number + 1 < 2 ^ 64) :
    Sound (tabs.foldl Shell.restore_session s) := by
  induction tabs generalizing s with
  | nil => exact hs
  | cons tab tabs ih =>
    obtain ⟨hclear, hsessions, hnumber⟩ := hs.keep_clear (hcount tab List.mem_cons_self)
    have hids : ((s.restore_session tab).sessions.map (·.id)) = s.sessions.map (·.id) ++ [tab.id] := by
      show (((s.keep_clear tab.id).sessions ++ [SessionEntry.mk tab.id]).map (·.id)) = _
      rw [hsessions, List.map_append]
      rfl
    refine ih (hclear.push_session ?_ hnumber) ?_ fun other hother =>
      hcount other (List.mem_cons_of_mem _ hother)
    · rw [hsessions]
      intro hmem
      exact (List.nodup_append.mp hnew).2.2 _ hmem _ List.mem_cons_self rfl
    · rw [hids, List.append_assoc]
      exact hnew

theorem restore_tabs (hs : Sound s) (tabs : List TabSnapshot)
    (hcount : ∀ tab ∈ tabs, ∀ number ∈ tab_number tab.id, number + 1 < 2 ^ 64) :
    Sound (s.restore_tabs tabs) := by
  unfold Shell.restore_tabs
  split
  · exact hs
  next hempty =>
    rw [not_not] at hempty
    have hids := ids_normalize_tabs tabs
    have hrestored : Sound ((normalize_tabs tabs).foldl Shell.restore_session s) := by
      refine hs.foldl_restore _ ?_ fun tab htab number hnumber => ?_
      · rw [hempty, hids]
        exact OrderList.nodup_keys_retain_first
      · have hmem := List.mem_map_of_mem (f := (·.id)) htab
        rw [hids] at hmem
        obtain ⟨-, old, hold, -, hid⟩ := OrderList.mem_keys_retain_first.mp hmem
        exact hcount old hold number (hid ▸ hnumber)
    dsimp only
    split
    next index hindex =>
      obtain ⟨id, -, hposition⟩ := Option.bind_eq_some_iff.mp hindex
      exact hrestored.activate (lt_of_position hposition)
    · exact hrestored

/-! ### Every operation -/

/-- **Step lemma**: an operation the counter has room for keeps the tabs sound. -/
theorem step (hs : Sound s) (op : Op) (hcount : Counts s op) : Sound (s.step op) := by
  cases op with
  | «open» => exact hs.open hcount
  | restore tabs => exact hs.restore_tabs tabs hcount
  | select index => exact hs.click _ _ fun _ hmem => hs.select hmem
  | close index => exact hs.click _ _ fun entry _ => hs.close_action entry.id
  | close_active =>
    unfold Shell.step
    dsimp only
    split
    · exact hs.close _
    · exact hs
  | menu_close id =>
    unfold Shell.step
    dsimp only
    split
    next index hindex => exact (hs.activate (lt_of_position hindex)).close index
    · exact hs
  | exit from_shell => exact hs.foldl_close _
  | cycle forward => exact hs.cycle_tab forward
  | drag_start index =>
    show Sound (if index < s.sessions.length then { s with drag := some ⟨index, false⟩ } else s)
    split
    · exact hs.drag _
    · exact hs
  | drag_move => exact hs.drag _
  | release passed => exact hs.release passed

end Sound

theorem sound_new : Sound .new where
  distinct := List.nodup_nil
  active_none := iff_of_true rfl rfl
  active_lt := nofun
  next_lt := by decide
  numbered := nofun

end WaSSH.Tabs
