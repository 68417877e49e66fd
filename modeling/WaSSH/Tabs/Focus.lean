import WaSSH.Tabs.Sound

/-!
# The session in focus

* `foldl_close`: where a session is after others have been closed;
* `place`: the tabs with one of them dropped in front of another; `place_eq`;
* `Promised`: what an operation should do to the session in focus; `Keeps`: when it does;
* **`promised_iff_keeps`**: every operation of a run does exactly if each of them meets that.
-/

namespace WaSSH.Tabs

open StepRun

variable {s : Shell}

/-! ## Closing -/

theorem close_of_lt {k index : ℕ} (hactive : s.active = some k) (h : index < s.sessions.length)
    (hmore : 1 < s.sessions.length) :
    (s.close index).sessions = s.sessions.eraseIdx index ∧
      (s.close index).sessions.length = s.sessions.length - 1 ∧
      (s.close index).active = some (min k ((s.close index).sessions.length - 1)) := by
  have hlength := List.length_eraseIdx_of_lt h
  have hsome : s.sessions.eraseIdx index ≠ [] := by
    rw [ne_eq, ← List.length_eq_zero_iff]
    omega
  unfold Shell.close
  rw [if_neg (by omega), hactive]
  exact ⟨rfl, hlength, if_neg hsome⟩

/-- A session keeps its place among the others when one is closed. -/
theorem getElem?_close {k index p : ℕ} (hactive : s.active = some k)
    (h : index < s.sessions.length) (hp : p < s.sessions.length) (hne : p ≠ index) :
    ∃ q m, q + m = p ∧ m = (if index < p then 1 else 0) ∧
      (s.close index).sessions[q]? = s.sessions[p]? := by
  obtain ⟨hsessions, -, -⟩ := close_of_lt hactive h (by omega)
  rw [hsessions]
  by_cases hleft : index < p
  · refine ⟨p - 1, 1, by omega, (if_pos hleft).symm, ?_⟩
    rw [List.getElem?_eraseIdx_of_ge (by omega), Nat.sub_add_cancel (by omega)]
  · exact ⟨p, 0, rfl, (if_neg hleft).symm, List.getElem?_eraseIdx_of_lt (by omega)⟩

theorem lt_of_getElem?_eq {α : Type*} {xs ys : List α} {p q : ℕ} (hp : p < ys.length)
    (h : xs[q]? = ys[p]?) : q < xs.length := by
  rw [List.getElem?_eq_getElem hp] at h
  exact (List.getElem?_eq_some_iff.mp h).1

/-- **Closing several sessions**, from the last to the first: the active place is the old one or the
last, and a session that stays is as many places further left as were closed on its left. -/
theorem foldl_close {closed : List ℕ} (hclosed : closed.Pairwise (· > ·)) {k p : ℕ}
    (hlt : ∀ j ∈ closed, j < s.sessions.length) (hactive : s.active = some k)
    (hk : k < s.sessions.length) (hp : p < s.sessions.length) (hmem : p ∉ closed) :
    (closed.foldl Shell.close s).sessions.length + closed.length = s.sessions.length ∧
      (closed.foldl Shell.close s).active =
        some (min k ((closed.foldl Shell.close s).sessions.length - 1)) ∧
      ∃ q, q + closed.countP (· < p) = p ∧
        (closed.foldl Shell.close s).sessions[q]? = s.sessions[p]? := by
  induction closed generalizing s k p with
  | nil =>
    have hmin : min k (s.sessions.length - 1) = k := by omega
    exact ⟨rfl, by rw [List.foldl_nil, hmin, hactive], p, rfl, rfl⟩
  | cons index closed ih =>
    obtain ⟨hbelow, hclosed⟩ := List.pairwise_cons.mp hclosed
    obtain ⟨hindex, hrest⟩ := List.forall_mem_cons.mp hlt
    rw [List.mem_cons, not_or] at hmem
    obtain ⟨hne, hstill⟩ := hmem
    obtain ⟨-, hlength, hnext⟩ := close_of_lt hactive hindex (by omega)
    obtain ⟨q, m, hqm, hm, hplace⟩ := getElem?_close hactive hindex hp hne
    -- all the others to be closed are left of this one
    have hall (r : ℕ) (hr : index ≤ r) : closed.countP (· < r) = closed.length :=
      List.countP_eq_length.mpr fun j hj => decide_eq_true ((hbelow j hj).trans_le hr)
    obtain ⟨hcount, hin⟩ :
        closed.countP (· < q) + m = (index :: closed).countP (· < p) ∧ q ∉ closed := by
      rw [List.countP_cons, hm]
      by_cases h : index < p
      · rw [if_pos h] at hm
        have hq : index ≤ q := by omega
        rw [hall q hq, hall p (by omega)]
        simp only [h, decide_true, if_true, true_and]
        exact fun hin => absurd (hbelow q hin) (by omega)
      · rw [if_neg h] at hm
        obtain rfl : q = p := by omega
        simpa only [h, decide_false, Bool.false_eq_true, if_false, true_and] using hstill
    obtain ⟨hlen, hact, r, hr, hget⟩ := ih hclosed
      (fun j hj => by have := hbelow j hj; omega) hnext (by omega) (lt_of_getElem?_eq hp hplace) hin
    rw [List.foldl_cons, List.length_cons]
    refine ⟨by omega, ?_, r, by omega, hget.trans hplace⟩
    rw [hact]
    congr 1
    omega

/-- No session has two places. -/
theorem Sound.place_unique (hs : Sound s) {i j : ℕ} (hi : i < s.sessions.length)
    (h : s.sessions[i]? = s.sessions[j]?) : i = j :=
  (List.getElem?_inj hi (List.Nodup.of_map _ hs.distinct)).mp h

/-- The session in focus after the active place and others were set. -/
theorem focused_of_active {i : ℕ} (h : s.active = some i) : s.focused = s.sessions[i]? := by
  rw [Shell.focused, h]
  rfl

/-- Closing keeps the focus exactly if the active place becomes that of the session. -/
theorem focused_foldl_close (hs : Sound s) {closed : List ℕ} (hclosed : closed.Pairwise (· > ·))
    (hlt : ∀ j ∈ closed, j < s.sessions.length) {k p : ℕ} (hactive : s.active = some k)
    (hp : p < s.sessions.length) (hmem : p ∉ closed) :
    (closed.foldl Shell.close s).focused = s.sessions[p]? ↔
      min k (s.sessions.length - closed.length - 1) + closed.countP (· < p) = p := by
  obtain ⟨hlen, hact, q, hq, hget⟩ :=
    foldl_close hclosed hlt hactive (hs.active_lt k hactive) hp hmem
  rw [focused_of_active hact, ← hget]
  have hlast : s.sessions.length - closed.length = (closed.foldl Shell.close s).sessions.length := by
    omega
  rw [hlast]
  have hsome := lt_of_getElem?_eq hp hget
  constructor
  · intro h
    have := (hs.foldl_close closed).place_unique (by omega) h
    omega
  · intro h
    congr 1
    omega

/-! ### Exits in one frame -/

theorem pairwise_exited (from_shell : ℕ → Bool) :
    (s.exited from_shell).reverse.Pairwise (· > ·) :=
  List.pairwise_reverse.mpr (List.pairwise_lt_range.filter _)

theorem mem_exited {from_shell : ℕ → Bool} {i : ℕ} :
    i ∈ s.exited from_shell ↔ i < s.sessions.length ∧ from_shell i = true := by
  rw [Shell.exited, List.mem_filter, List.mem_range]

/-- The exits left of a place and those right of it. -/
theorem exited_split (from_shell : ℕ → Bool) {i : ℕ} (hi : i < s.sessions.length)
    (hstays : ¬ from_shell i) :
    ∃ left right, (s.exited from_shell).countP (· < i) = left ∧
      (s.exited from_shell).length = left + right ∧ left ≤ i ∧
      right + i + 1 ≤ s.sessions.length ∧ (left = 0 ↔ ∀ j < i, ¬ from_shell j) ∧
      (right + i + 1 = s.sessions.length ↔ ∀ j < s.sessions.length, i < j → from_shell j) := by
  obtain ⟨after, hafter⟩ := Nat.exists_eq_add_of_lt hi
  have hrange : List.range s.sessions.length = List.range i ++ i :: List.range' (i + 1) after := by
    rw [hafter, Nat.add_assoc, List.range_eq_range', List.range_eq_range', ← List.range'_succ,
      ← List.range'_append_1, Nat.zero_add]
  have hexited : s.exited from_shell =
      (List.range i).filter from_shell ++ (List.range' (i + 1) after).filter from_shell := by
    rw [Shell.exited, hrange, List.filter_append, List.filter_cons_of_neg hstays]
  have hleft : ((List.range i).filter from_shell).length ≤ i := by
    have := List.length_filter_le from_shell (List.range i)
    rwa [List.length_range] at this
  have hright : ((List.range' (i + 1) after).filter from_shell).length ≤ after := by
    have := List.length_filter_le from_shell (List.range' (i + 1) after)
    rwa [List.length_range'] at this
  refine ⟨_, _, ?_, by rw [hexited, List.length_append], hleft, by omega, ?_, ?_⟩
  · have hbefore : ∀ j ∈ (List.range i).filter from_shell, decide (j < i) = true := fun j hj =>
      decide_eq_true (List.mem_range.mp (List.mem_of_mem_filter hj))
    have hbehind : ∀ j ∈ (List.range' (i + 1) after).filter from_shell, ¬ decide (j < i) = true := by
      intro j hj
      have := List.mem_range'_1.mp (List.mem_of_mem_filter hj)
      rw [decide_eq_true_iff]
      omega
    rw [hexited, List.countP_append, List.countP_eq_length.mpr hbefore,
      List.countP_eq_zero.mpr hbehind, Nat.add_zero]
  · rw [List.length_eq_zero_iff, List.filter_eq_nil_iff]
    simp only [List.mem_range]
  · have hfull : ((List.range' (i + 1) after).filter from_shell).length + i + 1 =
        s.sessions.length ↔
          ((List.range' (i + 1) after).filter from_shell).length =
            (List.range' (i + 1) after).length := by
      rw [List.length_range']
      omega
    rw [hfull, List.length_filter_eq_length_iff]
    simp only [List.mem_range'_1]
    constructor
    · exact fun h j hj hij => h j (by omega)
    · exact fun h j hj => h j (by omega) (by omega)

/-- **Exits in one frame** keep the focus exactly if none is left of it, or all tabs right of it
exit too. -/
theorem focused_pump (hs : Sound s) (from_shell : ℕ → Bool) {i : ℕ} (hactive : s.active = some i)
    (hstays : ¬ from_shell i) :
    (s.pump from_shell).focused = s.focused ↔
      ((∃ j < i, from_shell j) → ∀ j < s.sessions.length, i < j → from_shell j) := by
  have hi := hs.active_lt i hactive
  obtain ⟨left, right, hleft, hlength, hle, hroom, hnone, hall⟩ := exited_split from_shell hi hstays
  rw [focused_of_active hactive, Shell.pump, focused_foldl_close hs (pairwise_exited from_shell)
    (fun j hj => (mem_exited.mp (List.mem_reverse.mp hj)).1) hactive hi
    (fun hin => hstays (mem_exited.mp (List.mem_reverse.mp hin)).2), List.countP_reverse, hleft,
    List.length_reverse, hlength, ← hall]
  have hsome : (∃ j < i, from_shell j) ↔ left ≠ 0 := by
    rw [ne_eq, hnone]
    push Not
    rfl
  rw [hsome]
  clear hnone hall hsome
  omega

/-! ### Explicit closing -/

theorem step_close (hs : Sound s) (index : ℕ) : s.step (.close index) = s.close index := by
  show s.click .close index = _
  unfold Shell.click
  split
  next entry hentry =>
    rw [Shell.apply_action, position_eq hs.distinct hentry]
  next hnone =>
    have hlength : index ≥ s.sessions.length := List.getElem?_eq_none_iff.mp hnone
    exact (if_pos hlength).symm

/-- Closing a tab left of the active one moves the focus, unless that is the last. -/
theorem focused_close (hs : Sound s) {index i : ℕ} (hactive : s.active = some i)
    (hne : i ≠ index) :
    (s.step (.close index)).focused = s.focused ↔ (index < i → i + 1 = s.sessions.length) := by
  have hi := hs.active_lt i hactive
  rw [step_close hs]
  by_cases hindex : index < s.sessions.length
  · rw [focused_of_active hactive]
    refine (focused_foldl_close hs (List.pairwise_singleton _ index) (by simpa using hindex) hactive
      hi (by simpa using hne)).trans ?_
    rw [List.countP_singleton, List.length_singleton]
    by_cases hleft : index < i
    · simp only [hleft, decide_true, if_true, true_imp_iff]
      omega
    · simp only [hleft, decide_false, Bool.false_eq_true, if_false, false_imp_iff, iff_true]
      omega
  · have hsame : s.close index = s := if_pos (by omega)
    rw [hsame]
    exact iff_of_true rfl fun h => absurd h (by omega)

theorem step_menu_close {id : List Char} {p : ℕ} (h : s.position id = some p) :
    s.step (.menu_close id) = { s with active := some p }.close p := by
  rw [Shell.step, h]

theorem step_menu_close_none {id : List Char} (h : s.position id = none) :
    s.step (.menu_close id) = s := by
  rw [Shell.step, h]

/-- Closing another tab from its menu keeps the focus only with a neighbour that takes its place. -/
theorem focused_menu_close (hs : Sound s) {id : List Char} {p i : ℕ}
    (hposition : s.position id = some p) (hactive : s.active = some i) (hne : i ≠ p) :
    (s.step (.menu_close id)).focused = s.focused ↔
      i = p + 1 ∨ i + 1 = p ∧ p + 1 = s.sessions.length := by
  have hi := hs.active_lt i hactive
  have hp := lt_of_position hposition
  rw [step_menu_close hposition, focused_of_active hactive]
  refine (focused_foldl_close (hs.activate hp) (List.pairwise_singleton _ p) (by simpa using hp) rfl
    hi (by simpa using hne)).trans ?_
  rw [List.countP_singleton, List.length_singleton]
  by_cases hleft : p < i
  · simp only [hleft, decide_true, if_true]
    omega
  · simp only [hleft, decide_false, Bool.false_eq_true, if_false]
    omega

/-! ## Dropping -/

section Place

variable {α : Type*} [DecidableEq α]

/-- `a` dropped in front of what is at `slot`. -/
def place (a : α) (slot : ℕ) (xs : List α) : List α :=
  (xs.take slot).filter (· ≠ a) ++ a :: (xs.drop slot).filter (· ≠ a)

theorem filter_ne_self {a : α} {xs : List α} (h : a ∉ xs) : xs.filter (· ≠ a) = xs :=
  List.filter_eq_self.mpr fun _ hb => decide_eq_true fun heq => h (heq ▸ hb)

/-- Dropping is taking out and putting in again. -/
theorem place_eq {a : α} {xs : List α} (hnodup : xs.Nodup) {i : ℕ} (hi : xs[i]? = some a)
    {slot : ℕ} (hslot : slot ≤ xs.length) :
    place a slot xs = (xs.eraseIdx i).insertIdx (landing i slot) a := by
  obtain ⟨before, after, rfl, rfl⟩ : ∃ before after, xs = before ++ a :: after ∧ before.length = i := by
    obtain ⟨hlt, rfl⟩ := List.getElem?_eq_some_iff.mp hi
    refine ⟨xs.take i, xs.drop (i + 1), ?_, List.length_take_of_le hlt.le⟩
    rw [List.getElem_cons_drop, List.take_append_drop]
  obtain ⟨-, hnodup, hne⟩ := List.nodup_append.mp hnodup
  have hbefore : a ∉ before := fun h => hne a h a List.mem_cons_self rfl
  have hafter : a ∉ after := (List.nodup_cons.mp hnodup).1
  have herase : (before ++ a :: after).eraseIdx before.length = before ++ after := by
    rw [List.eraseIdx_append_of_length_le le_rfl, Nat.sub_self]
    rfl
  rw [herase]
  unfold place landing
  by_cases hleft : before.length < slot
  · -- dropped further right: the tabs in between close up
    obtain ⟨k, rfl⟩ := Nat.exists_eq_add_of_lt hleft
    have htake : (before ++ a :: after).take (before.length + k + 1) = before ++ a :: after.take k := by
      rw [Nat.add_assoc, List.take_length_add_append]
      rfl
    have hdrop : (before ++ a :: after).drop (before.length + k + 1) = after.drop k := by
      rw [Nat.add_assoc, List.drop_length_add_append]
      rfl
    have hk : k ≤ after.length := by
      rw [List.length_append, List.length_cons] at hslot
      omega
    have hlength : before.length + k + 1 - 1 = (before ++ after.take k).length := by
      rw [List.length_append, List.length_take_of_le hk]
      rfl
    have hsplit : before ++ after = (before ++ after.take k) ++ after.drop k := by
      rw [List.append_assoc, List.take_append_drop]
    rw [if_pos hleft, hlength, hsplit, OrderList.insertIdx_append, htake, hdrop]
    simp only [List.filter_append, List.filter_cons]
    rw [filter_ne_self hbefore, filter_ne_self fun h => hafter (List.mem_of_mem_take h),
      filter_ne_self fun h => hafter (List.mem_of_mem_drop h)]
    simp
  · have hslot : slot ≤ before.length := by omega
    have hsplit : before ++ after = before.take slot ++ (before.drop slot ++ after) := by
      rw [← List.append_assoc, List.take_append_drop]
    have hinsert : (before.take slot ++ (before.drop slot ++ after)).insertIdx
        (before.take slot).length a = before.take slot ++ a :: (before.drop slot ++ after) :=
      OrderList.insertIdx_append a
    rw [← hsplit, List.length_take_of_le hslot] at hinsert
    rw [if_neg hleft, hinsert, List.take_append_of_le_length hslot,
      List.drop_append_of_le_length hslot, List.filter_append, List.filter_cons,
      filter_ne_self fun h => hbefore (List.mem_of_mem_take h),
      filter_ne_self fun h => hbefore (List.mem_of_mem_drop h), filter_ne_self hafter]
    simp

theorem landing_le {i slot n : ℕ} (hi : i < n) (hslot : slot ≤ n) : landing i slot ≤ n - 1 := by
  unfold landing
  split <;> omega

theorem getElem?_place {a : α} {xs : List α} (hnodup : xs.Nodup) {i : ℕ} (hi : xs[i]? = some a)
    {slot : ℕ} (hslot : slot ≤ xs.length) : (place a slot xs)[landing i slot]? = some a := by
  obtain ⟨hlt, -⟩ := List.getElem?_eq_some_iff.mp hi
  have hlanding := landing_le hlt hslot
  rw [place_eq hnodup hi hslot, List.getElem?_insertIdx_self, List.length_eraseIdx_of_lt hlt,
    if_pos hlanding]

/-- Dropped in front of itself or of its right neighbour, it stays where it is. -/
theorem place_eq_self_iff {a : α} {xs : List α} (hnodup : xs.Nodup) {i : ℕ} (hi : xs[i]? = some a)
    {slot : ℕ} (hslot : slot ≤ xs.length) : place a slot xs = xs ↔ landing i slot = i := by
  obtain ⟨hlt, hget⟩ := List.getElem?_eq_some_iff.mp hi
  constructor
  · intro h
    have hplace := getElem?_place hnodup hi hslot
    rw [h, ← hi] at hplace
    exact ((List.getElem?_inj hlt hnodup).mp hplace.symm).symm
  · intro h
    rw [place_eq hnodup hi hslot, h, ← hget, List.insertIdx_eraseIdx_getElem hlt]

end Place

/-! ### The release of a drag -/

theorem Shell.drop_index_le (s : Shell) (passed : ℕ → Bool) :
    s.drop_index passed ≤ s.sessions.length := by
  have := List.countP_le_length (p := passed) (l := List.range s.sessions.length)
  rwa [List.length_range] at this

/-- Dropping moves the tab at that place. -/
def Moves (s : Shell) (i slot : ℕ) : Prop := i < s.sessions.length ∧ landing i slot ≠ i

/-- What a release should do: the session that is dragged gets the place and the focus, or nothing
happens. -/
def Drops (s : Shell) (dragged : SessionEntry) (slot : ℕ) (t : Shell) : Prop :=
  if dragged ∈ s.sessions ∧ place dragged slot s.sessions ≠ s.sessions then
    t.sessions = place dragged slot s.sessions ∧ t.focused = some dragged
  else t.sessions = s.sessions ∧ t.active = s.active

theorem step_release {passed : ℕ → Bool} {drag : DragState} (hdrag : s.drag = some drag)
    (hsome : s.sessions ≠ []) :
    s.step (.release passed) =
      if drag.active ∧ landing drag.«from» (s.drop_index passed) ≠ drag.«from» then
        { s with drag := none }.apply_action
          (.reorder drag.«from» (landing drag.«from» (s.drop_index passed)))
      else { s with drag := none } := by
  show (if s.sessions = [] then s
    else (s.tab_bar passed).2.foldl Shell.apply_action (s.tab_bar passed).1) = _
  unfold Shell.tab_bar
  rw [if_neg hsome, hdrag]
  dsimp only
  split <;> rfl

/-- A release that moves no tab. -/
theorem step_release_stays {passed : ℕ → Bool} {drag : DragState} (hdrag : s.drag = some drag)
    (h : ¬ Moves s drag.«from» (s.drop_index passed)) :
    (s.step (.release passed)).sessions = s.sessions ∧
      (s.step (.release passed)).active = s.active := by
  by_cases hsome : s.sessions = []
  · have hsame : s.step (.release passed) = s := if_pos hsome
    rw [hsame]
    exact ⟨rfl, rfl⟩
  rw [step_release hdrag hsome]
  split
  next hmoves =>
    -- there is no tab at that place any more
    have hgone : s.sessions[drag.«from»]? = none :=
      List.getElem?_eq_none_iff.mpr (by by_contra hlt; exact h ⟨by omega, hmoves.2⟩)
    unfold Shell.apply_action
    dsimp only
    rw [hgone]
    split <;> exact ⟨rfl, rfl⟩
  · exact ⟨rfl, rfl⟩

/-- A release that moves the tab at the place the drag began. -/
theorem step_release_moves (hs : Sound s) {passed : ℕ → Bool} {i : ℕ} {entry : SessionEntry}
    (hdrag : s.drag = some ⟨i, true⟩) (hentry : s.sessions[i]? = some entry)
    (h : Moves s i (s.drop_index passed)) :
    (s.step (.release passed)).sessions = place entry (s.drop_index passed) s.sessions ∧
      (s.step (.release passed)).focused = some entry := by
  obtain ⟨hlt, hmoves⟩ := h
  have hsound := hs.release passed
  have hnodup := List.Nodup.of_map _ hs.distinct
  have hslot := s.drop_index_le passed
  have hsome : s.sessions ≠ [] := List.ne_nil_of_length_pos (by omega)
  have hlanding := landing_le hlt hslot
  have hle : landing i (s.drop_index passed) ≤ s.sessions.length := by omega
  have hmin : min (landing i (s.drop_index passed)) (s.sessions.eraseIdx i).length =
      landing i (s.drop_index passed) := by
    rw [List.length_eraseIdx_of_lt hlt]
    exact min_eq_left hlanding
  have hplace := getElem?_place hnodup hentry hslot
  rw [step_release hdrag hsome, if_pos ⟨rfl, hmoves⟩] at hsound ⊢
  unfold Shell.apply_action at hsound ⊢
  dsimp only at hsound ⊢
  rw [if_pos hle, hentry] at hsound ⊢
  dsimp only at hsound ⊢
  rw [hmin, ← place_eq hnodup hentry hslot] at hsound ⊢
  refine ⟨rfl, ?_⟩
  have hposition := position_eq (s := { s with
    sessions := place entry (s.drop_index passed) s.sessions, drag := none }) hsound.distinct hplace
  rw [focused_of_active hposition]
  exact hplace

/-- **The release of a drag** does what it should exactly if the tab at the place where the drag
began is still the one that is dragged, or neither of the two would move. -/
theorem drops_iff (hs : Sound s) {passed : ℕ → Bool} {i : ℕ} (hdrag : s.drag = some ⟨i, true⟩)
    (dragged : SessionEntry) :
    Drops s dragged (s.drop_index passed) (s.step (.release passed)) ↔
      s.sessions[i]? = some dragged ∨
        ∀ j < s.sessions.length, j = i ∨ s.sessions[j]? = some dragged →
          landing j (s.drop_index passed) = j := by
  have hnodup := List.Nodup.of_map _ hs.distinct
  have hslot := s.drop_index_le passed
  have hself {j : ℕ} (hj : s.sessions[j]? = some dragged) :=
    place_eq_self_iff hnodup hj hslot
  by_cases hmoves : Moves s i (s.drop_index passed)
  · obtain ⟨entry, hentry⟩ : ∃ entry, s.sessions[i]? = some entry :=
      ⟨_, List.getElem?_eq_getElem hmoves.1⟩
    obtain ⟨hsessions, hfocused⟩ := step_release_moves hs hdrag hentry hmoves
    have hchanged : place entry (s.drop_index passed) s.sessions ≠ s.sessions := fun h =>
      hmoves.2 ((place_eq_self_iff hnodup hentry hslot).mp h)
    by_cases hsame : entry = dragged
    · subst hsame
      refine iff_of_true ?_ (.inl hentry)
      rw [Drops, if_pos ⟨List.mem_of_getElem? hentry, hchanged⟩]
      exact ⟨hsessions, hfocused⟩
    · refine iff_of_false (fun h => ?_) ?_
      · unfold Drops at h
        split at h
        · rw [hfocused, Option.some.injEq] at h
          exact hsame h.2
        · exact hchanged (hsessions.symm.trans h.1)
      · rintro (h | h)
        · rw [hentry, Option.some.injEq] at h
          exact hsame h
        · exact hmoves.2 (h i hmoves.1 (.inl rfl))
  · obtain ⟨hsessions, hactive⟩ := step_release_stays hdrag hmoves
    have hstays (hi : i < s.sessions.length) : landing i (s.drop_index passed) = i := by
      by_contra hne
      exact hmoves ⟨hi, hne⟩
    by_cases hplace : dragged ∈ s.sessions ∧ place dragged (s.drop_index passed) s.sessions ≠ s.sessions
    · obtain ⟨j, hj⟩ := List.mem_iff_getElem?.mp hplace.1
      obtain ⟨hjlt, -⟩ := List.getElem?_eq_some_iff.mp hj
      refine iff_of_false (fun h => ?_) ?_
      · rw [Drops, if_pos hplace] at h
        exact hplace.2 (h.1.symm.trans hsessions)
      · rintro (h | h)
        · exact hplace.2 ((hself h).mpr (hstays (List.getElem?_eq_some_iff.mp h).1))
        · exact hplace.2 ((hself hj).mpr (h j hjlt (.inr hj)))
    · refine iff_of_true ?_ (.inr ?_)
      · rw [Drops, if_neg hplace]
        exact ⟨hsessions, hactive⟩
      · rintro j hj (rfl | hget)
        · exact hstays hj
        · by_contra hne
          exact hplace ⟨List.mem_of_getElem? hget, fun h => hne ((hself hget).mp h)⟩

/-! ## Runs -/

/-- While there are tabs, one of them is active. -/
def Valid (s : Shell) : Prop := s.sessions ≠ [] → ∃ i < s.sessions.length, s.active = some i

/-- Closing tabs leaves the session in focus, unless it is closed itself. -/
def KeepsFocus (s : Shell) (closed : ℕ → Prop) (t : Shell) : Prop :=
  ∀ i, s.active = some i → ¬ closed i → t.focused = s.focused

/-- What an operation should do. -/
def Promised (w : Watched) (op : Op) : Prop :=
  Valid (w.step op).shell ∧
    match op with
    | .close index => KeepsFocus w.shell (· = index) (w.step op).shell
    | .menu_close id => KeepsFocus w.shell (w.shell.position id = some ·) (w.step op).shell
    | .exit from_shell => KeepsFocus w.shell (from_shell ·) (w.step op).shell
    | .release passed =>
      ∀ i, w.shell.drag = some ⟨i, true⟩ → ∃ dragged, w.dragged = some dragged ∧
        Drops w.shell dragged (w.shell.drop_index passed) (w.step op).shell
    | _ => True

/-- When it does: a tab that is closed or exits is right of the active one or leaves nothing right
of it, a tab closed from its menu is a neighbour whose place the active one gets, and a dragged tab
is still where the drag began. -/
def Keeps (w : Watched) : Op → Prop
  | .close index => ∀ i ∈ w.shell.active, index < i → i + 1 = w.shell.sessions.length
  | .menu_close id => ∀ i ∈ w.shell.active, ∀ p ∈ w.shell.position id, i ≠ p →
      i = p + 1 ∨ i + 1 = p ∧ p + 1 = w.shell.sessions.length
  | .exit from_shell => ∀ i ∈ w.shell.active, ¬ from_shell i → (∃ j < i, from_shell j) →
      ∀ j < w.shell.sessions.length, i < j → from_shell j
  | .release passed => ∀ drag ∈ w.shell.drag, drag.active → ∀ dragged ∈ w.dragged,
      w.shell.sessions[drag.«from»]? = some dragged ∨
        ∀ j < w.shell.sessions.length, j = drag.«from» ∨ w.shell.sessions[j]? = some dragged →
          landing j (w.shell.drop_index passed) = j
  | _ => True

instance (w : Watched) : (op : Op) → Decidable (Keeps w op)
  | .close _ | .menu_close _ | .exit _ | .release _ => inferInstanceAs (Decidable (∀ i ∈ _, _))
  | .open | .restore _ | .select _ | .close_active | .cycle _ | .drag_start _ | .drag_move =>
    .isTrue trivial

/-! ### A drag and its session -/

@[simp] theorem drag_close (s : Shell) (index : ℕ) : (s.close index).drag = s.drag := by
  unfold Shell.close
  split <;> rfl

theorem drag_foldl_close (s : Shell) (closed : List ℕ) :
    (closed.foldl Shell.close s).drag = s.drag := by
  induction closed generalizing s with
  | nil => rfl
  | cons index closed ih => rw [List.foldl_cons, ih, drag_close]

theorem drag_apply_action (s : Shell) (action : TabAction) :
    (s.apply_action action).drag = s.drag := by
  cases action with
  | select id => rfl
  | close id =>
    unfold Shell.apply_action
    dsimp only
    split
    · exact drag_close s _
    · rfl
  | reorder «from» «to» =>
    unfold Shell.apply_action
    dsimp only
    split
    · split <;> rfl
    · rfl

theorem drag_click (s : Shell) (action : List Char → TabAction) (index : ℕ) :
    (s.click action index).drag = s.drag := by
  unfold Shell.click
  split
  · exact drag_apply_action s _
  · rfl

theorem drag_foldl_restore (s : Shell) (tabs : List TabSnapshot) :
    (tabs.foldl Shell.restore_session s).drag = s.drag := by
  induction tabs generalizing s with
  | nil => rfl
  | cons tab tabs ih =>
    rw [List.foldl_cons, ih]
    show (s.keep_clear tab.id).drag = s.drag
    unfold Shell.keep_clear
    split <;> rfl

theorem drag_restore_tabs (s : Shell) (tabs : List TabSnapshot) :
    (s.restore_tabs tabs).drag = s.drag := by
  unfold Shell.restore_tabs
  split
  · rfl
  · dsimp only
    split <;> exact drag_foldl_restore s _

/-- A drag begins on a tab, and otherwise goes on. -/
theorem drag_step {s : Shell} {op : Op} (h : (s.step op).drag ≠ none) :
    s.drag ≠ none ∨ ∃ index, op = .drag_start index ∧ index < s.sessions.length := by
  cases op with
  | «open» => exact .inl h
  | restore tabs => exact .inl (drag_restore_tabs s tabs ▸ h)
  | select index => exact .inl (drag_click s .select index ▸ h)
  | close index => exact .inl (drag_click s .close index ▸ h)
  | close_active =>
    left
    unfold Shell.step at h
    dsimp only at h
    split at h
    · rwa [drag_close] at h
    · exact h
  | menu_close id =>
    left
    unfold Shell.step at h
    dsimp only at h
    split at h
    · rwa [drag_close] at h
    · exact h
  | exit from_shell => exact .inl (drag_foldl_close s _ ▸ h)
  | cycle forward =>
    left
    unfold Shell.step Shell.cycle_tab at h
    dsimp only at h
    split at h <;> exact h
  | drag_start index =>
    by_cases hindex : index < s.sessions.length
    · exact .inr ⟨index, rfl, hindex⟩
    · have hsame : s.step (.drag_start index) = s := if_neg hindex
      exact .inl (hsame ▸ h)
  | drag_move =>
    left
    intro hnone
    refine h ?_
    show s.drag.map _ = none
    rw [hnone]
    rfl
  | release passed =>
    left
    intro hnone
    refine h ?_
    by_cases hsome : s.sessions = []
    · have hsame : s.step (.release passed) = s := if_pos hsome
      rw [hsame, hnone]
    · show (if s.sessions = [] then s
        else (s.tab_bar passed).2.foldl Shell.apply_action (s.tab_bar passed).1).drag = none
      unfold Shell.tab_bar
      rw [if_neg hsome, hnone]
      exact hnone

/-- Sound tabs, and every drag has its session. -/
structure Watched.Sound (w : Watched) : Prop where
  shell : Tabs.Sound w.shell
  dragged : w.shell.drag ≠ none → w.dragged ≠ none

namespace Watched.Sound

variable {w : Watched}

theorem step (hw : w.Sound) (op : Op) (hcount : Counts w.shell op) : (w.step op).Sound where
  shell := hw.shell.step op hcount
  dragged := by
    intro hdrag
    obtain hbefore | ⟨index, rfl, hindex⟩ := drag_step hdrag
    · have hold := hw.dragged hbefore
      unfold Watched.step
      cases op with
      | drag_start index =>
        dsimp only
        split
        next hindex =>
          rw [List.getElem?_eq_getElem hindex]
          exact Option.some_ne_none _
        · exact hold
      | _ => exact hold
    · show (if index < w.shell.sessions.length then w.shell.sessions[index]? else w.dragged) ≠ none
      rw [if_pos hindex, List.getElem?_eq_getElem hindex]
      exact Option.some_ne_none _

theorem valid (hw : w.Sound) : Valid w.shell := by
  intro hsome
  cases hactive : w.shell.active with
  | none => exact absurd (hw.shell.active_none.mp hactive) hsome
  | some i => exact ⟨i, hw.shell.active_lt i hactive, rfl⟩

end Watched.Sound

/-- **Step lemma**: an operation does what it should exactly if its condition is met. -/
theorem promised_step {w : Watched} (hw : w.Sound) {op : Op} (hcount : Counts w.shell op) :
    Promised w op ↔ Keeps w op := by
  refine (and_iff_right (hw.step op hcount).valid).trans ?_
  have hs := hw.shell
  cases op with
  | close index =>
    refine forall₂_congr fun i hactive => ?_
    by_cases hi : i = index
    · exact iff_of_true (fun h => absurd hi h) fun h => absurd h (by omega)
    · exact (forall_prop_of_true hi).trans (focused_close hs hactive hi)
  | menu_close id =>
    refine forall₂_congr fun i hactive => ?_
    cases hposition : w.shell.position id with
    | none => exact iff_of_true (fun _ => congrArg _ (step_menu_close_none hposition)) nofun
    | some p =>
      have hkeeps := focused_menu_close hs hposition hactive
      constructor
      · rintro h q ⟨⟩ hne
        exact (hkeeps hne).mp (h fun heq => hne (Option.some.inj heq).symm)
      · intro h hne
        have hne : i ≠ p := fun heq => hne (congrArg some heq.symm)
        exact (hkeeps hne).mpr (h p rfl hne)
  | exit from_shell =>
    refine forall₂_congr fun i hactive => forall_congr' fun hstays => ?_
    exact focused_pump hs from_shell hactive hstays
  | release passed =>
    constructor
    · rintro h ⟨i, active⟩ hdrag hmoving dragged hdragged
      replace hmoving : active = true := hmoving
      subst hmoving
      obtain ⟨other, hother, hdrops⟩ := h i hdrag
      obtain rfl : other = dragged := Option.some.inj (hother.symm.trans hdragged)
      exact (drops_iff hs hdrag other).mp hdrops
    · intro h i hdrag
      obtain ⟨dragged, hdragged⟩ := Option.ne_none_iff_exists'.mp
        (hw.dragged (by rw [hdrag]; exact Option.some_ne_none _))
      exact ⟨dragged, hdragged, (drops_iff hs hdrag dragged).mpr (h _ hdrag rfl dragged hdragged)⟩
  | _ => exact iff_of_true trivial trivial

/-- **The session in focus**: in a run for which the counter of tabs suffices, every operation does
what it should exactly if every operation meets its condition. -/
theorem promised_iff_keeps (ops : List Op)
    (hcount : Guarded Watched.step (fun w op => Counts w.shell op) .new ops) :
    Guarded Watched.step Promised .new ops ↔ Guarded Watched.step Keeps .new ops := by
  have hnew : Watched.new.Sound := ⟨sound_new, fun h => absurd rfl h⟩
  exact guarded_iff_of_inv (fun _ op (hw : Watched.Sound _) hcount => hw.step op hcount)
    (fun _ _ hw hcount => promised_step hw hcount) ops Watched.new hnew hcount

/-- Closing a tab on the right, a drag to the right, and an exit left of the last tab. -/
theorem promised_iff_keeps_drag :
    Guarded Watched.step Promised .new
      [.open, .open, .open, .select 0, .close 2, .drag_start 0, .drag_move,
        .release (· < 2), .exit (· = 0)] :=
  (promised_iff_keeps _ (by decide +kernel)).mpr (by decide +kernel)

/-- Closing the first of three tabs with the second one active gives the third the focus. -/
theorem close_moves_focus :
    ((run Shell.step .new [.open, .open, .open, .select 1]).focused = some ⟨tab_id 2⟩ ∧
      (run Shell.step .new [.open, .open, .open, .select 1, .close 0]).focused =
        some ⟨tab_id 3⟩) ∧
      ¬ Guarded Watched.step Promised .new [.open, .open, .open, .select 1, .close 0] := by
  refine ⟨by decide +kernel, ?_⟩
  rintro ⟨-, -, -, -, ⟨-, hfocus⟩, -⟩
  have hsame := hfocus 1 (by decide +kernel) (by decide)
  revert hsame
  decide +kernel

end WaSSH.Tabs
