import WaSSH.Lib.Columns
import WaSSH.Monitor.Report

/-!
# The disks

`/proc/diskstats` lists disks and their partitions, and the name alone says which is which.
`parse_diskstats` tells them apart by the last character, and does not look further at `nvme`.

* `Device`, `Device.name`: the devices and how the kernel names them;
* `DiskLine`: a line of `/proc/diskstats`;
* `counted_name`: the devices whose bytes are added;
* **`parse_diskstats_iff`**: the lists whose totals are those of the whole disks.
-/

namespace WaSSH.Monitor

open Text Checked

/-! ## Devices -/

/-- The drivers that number their disks with letters. -/
inductive Lettered
  | sd
  | vd
  | xvd
  deriving DecidableEq, Repr

def Lettered.name : Lettered → List Char
  | sd => "sd".toList
  | vd => "vd".toList
  | xvd => "xvd".toList

/-- The letters of a disk. -/
abbrev Letters := {w : List Char // w ≠ [] ∧ w.all fun c => 'a' ≤ c ∧ c ≤ 'z'}

/-- A block device; a partition carries its number. -/
inductive Device
  | lettered (driver : Lettered) (letters : Letters) (part : Option ℕ)
  | nvme (controller space : ℕ) (part : Option ℕ)
  | mmcblk (card : ℕ) (part : Option ℕ)
  | loop (n : ℕ) (part : Option ℕ)
  | ram (n : ℕ)
  | zram (n : ℕ)
  | sr (n : ℕ)
  | dm (n : ℕ)

/-- `p` and the number of a partition. -/
def part_name (part : Option ℕ) : List Char := part.elim [] fun n => 'p' :: in_decimal n

/-- The name the kernel gives. -/
def Device.name : Device → List Char
  | lettered driver letters part => driver.name ++ (letters.1 ++ part.elim [] in_decimal)
  | nvme controller space part =>
    "nvme".toList ++ (in_decimal controller ++ 'n' :: (in_decimal space ++ part_name part))
  | mmcblk card part => "mmcblk".toList ++ (in_decimal card ++ part_name part)
  | loop n part => "loop".toList ++ (in_decimal n ++ part_name part)
  | ram n => "ram".toList ++ in_decimal n
  | zram n => "zram".toList ++ in_decimal n
  | sr n => "sr".toList ++ in_decimal n
  | dm n => "dm-".toList ++ in_decimal n

/-- A whole disk of its own. -/
def Device.physical : Device → Bool
  | lettered _ _ part => part.isNone
  | nvme _ _ part => part.isNone
  | mmcblk _ part => part.isNone
  | _ => false

/-- A partition of an NVMe disk. -/
def Device.nvme_partition : Device → Bool
  | nvme _ _ part => part.isSome
  | _ => false

/-- A whole memory card. -/
def Device.whole_card : Device → Bool
  | mmcblk _ part => part.isNone
  | _ => false

/-- What the code adds. -/
def Device.added : Device → Bool
  | lettered _ _ part => part.isNone
  | nvme _ _ _ => true
  | _ => false

/-- A name that ends in a number ends in a digit. -/
theorem last_digit (t : List Char) (n : ℕ) : (t ++ in_decimal n).getLast?.any Char.isDigit := by
  have hlast : (t ++ in_decimal n).getLast? =
      some ((in_decimal n).getLast (in_decimal_ne_nil n)) := by
    rw [List.getLast?_append, List.getLast?_eq_some_getLast (in_decimal_ne_nil n)]
    rfl
  rw [hlast]
  exact List.all_eq_true.mp (all_isDigit_in_decimal n) _ (List.getLast_mem _)

theorem last_digit_card (card : ℕ) (part : Option ℕ) :
    (Device.mmcblk card part).name.getLast?.any Char.isDigit := by
  cases part with
  | none =>
    change ("mmcblk".toList ++ (in_decimal card ++ [])).getLast?.any Char.isDigit
    rw [List.append_nil]
    exact last_digit _ _
  | some n =>
    change ("mmcblk".toList ++ (in_decimal card ++ ('p' :: in_decimal n))).getLast?.any Char.isDigit
    have h := last_digit ("mmcblk".toList ++ (in_decimal card ++ ['p'])) n
    rwa [List.append_assoc, List.append_assoc, List.singleton_append] at h

theorem last_digit_lettered (driver : Lettered) (letters : Letters) (part : Option ℕ) :
    (Device.lettered driver letters part).name.getLast?.any Char.isDigit = part.isSome := by
  cases part with
  | none =>
    obtain ⟨w, hne, hw⟩ := letters
    change (driver.name ++ (w ++ [])).getLast?.any Char.isDigit = false
    have hlast : (driver.name ++ w).getLast? = some (w.getLast hne) := by
      rw [List.getLast?_append, List.getLast?_eq_some_getLast hne]
      rfl
    have hletter := List.all_eq_true.mp hw _ (List.getLast_mem hne)
    rw [decide_eq_true_eq] at hletter
    rw [List.append_nil, hlast]
    rw [Option.any_some, Bool.eq_false_iff]
    intro hdigit
    have := isDigit_toNat hdigit
    have := letter_toNat hletter
    omega
  | some n =>
    change (driver.name ++ (letters.1 ++ in_decimal n)).getLast?.any Char.isDigit = true
    rw [← List.append_assoc]
    exact last_digit _ _

/-- **The devices whose bytes are added.** -/
theorem counted_name (d : Device) : counted d.name = d.added := by
  cases d with
  | lettered driver letters part =>
    have hlast := last_digit_lettered driver letters part
    have hnvme : strip_prefix "nvme".toList (Device.lettered driver letters part).name = none := by
      cases driver <;> rfl
    have hskip : skipped (Device.lettered driver letters part).name = false := by
      cases driver <;> rfl
    have hstart : starts_with (Device.lettered driver letters part).name "nvme".toList = false := by
      cases driver <;> rfl
    unfold counted is_partition
    rw [hnvme, hskip, hstart]
    dsimp only
    rw [hlast]
    cases part <;> rfl
  | nvme controller space part =>
    have hskip : skipped (Device.nvme controller space part).name = false := rfl
    have hstart : starts_with (Device.nvme controller space part).name "nvme".toList = true := rfl
    unfold counted
    rw [hskip, hstart, Bool.not_true, Bool.and_false]
    rfl
  | mmcblk card part =>
    have hlast := last_digit_card card part
    have hnvme : strip_prefix "nvme".toList (Device.mmcblk card part).name = none := rfl
    have hskip : skipped (Device.mmcblk card part).name = false := rfl
    have hstart : starts_with (Device.mmcblk card part).name "nvme".toList = false := rfl
    unfold counted is_partition
    rw [hnvme, hskip, hstart]
    dsimp only
    rw [hlast]
    rfl
  | loop n part => rfl
  | ram n => rfl
  | zram n => rfl
  | sr n => rfl
  | dm n => rfl

/-! ## Lines -/

theorem all_word_part (part : Option ℕ) : (part_name part).all (!is_whitespace ·) := by
  cases part with
  | none => rfl
  | some n =>
    change ('p' :: in_decimal n).all _
    rw [List.all_cons, all_word_in_decimal]
    rfl

theorem all_word_letters (letters : Letters) : letters.1.all (!is_whitespace ·) := by
  rw [List.all_eq_true]
  intro c hc
  have hletter := List.all_eq_true.mp letters.2.2 c hc
  rw [decide_eq_true_eq] at hletter
  have := letter_toNat hletter
  rw [not_is_whitespace (by omega)]
  rfl

theorem name_is_word (d : Device) : d.name ≠ [] ∧ d.name.all (!is_whitespace ·) := by
  cases d with
  | lettered driver letters part =>
    have hdriver : driver.name ≠ [] ∧ driver.name.all (!is_whitespace ·) := by
      cases driver <;> exact ⟨List.cons_ne_nil _ _, rfl⟩
    have hpart : (part.elim [] in_decimal).all (!is_whitespace ·) := by
      cases part with
      | none => rfl
      | some n => exact all_word_in_decimal n
    exact ⟨List.append_ne_nil_of_left_ne_nil hdriver.1 _,
      all_word_append hdriver.2 (all_word_append (all_word_letters letters) hpart)⟩
  | nvme controller space part =>
    have hspace : ('n' :: (in_decimal space ++ part_name part)).all (!is_whitespace ·) :=
      all_word_append (a := ['n']) rfl
        (all_word_append (all_word_in_decimal space) (all_word_part part))
    exact ⟨List.cons_ne_nil _ _,
      all_word_append rfl (all_word_append (all_word_in_decimal controller) hspace)⟩
  | mmcblk n part | loop n part =>
    exact ⟨List.cons_ne_nil _ _,
      all_word_append rfl (all_word_append (all_word_in_decimal n) (all_word_part part))⟩
  | ram n | zram n | sr n | dm n =>
    exact ⟨List.cons_ne_nil _ _, all_word_append rfl (all_word_in_decimal n)⟩

/-- A line of `/proc/diskstats`. -/
structure DiskLine where
  lead : Blank
  major : Word
  minor : Column
  name_gap : Gap
  device : Device
  reads : Column
  reads_merged : Column
  read_gap : Gap
  sectors_read : Fin (2 ^ 64)
  read_ms : Column
  writes : Column
  writes_merged : Column
  written_gap : Gap
  sectors_written : Fin (2 ^ 64)
  rest : Rest

namespace DiskLine

variable (l : DiskLine)

/-- The columns behind the first. -/
def columns : List Column :=
  [l.minor, ⟨l.name_gap, l.device.name, name_is_word l.device⟩, l.reads, l.reads_merged,
    ⟨l.read_gap, counter l.sectors_read⟩, l.read_ms, l.writes, l.writes_merged,
    ⟨l.written_gap, counter l.sectors_written⟩]

def text : List Char := l.lead.1 ++ (l.major.1 ++ (l.columns.flatMap Column.text ++ l.rest.1))

theorem split_text : split_whitespace l.text =
    l.major.1 :: l.columns.map (·.word.1) ++ split_whitespace l.rest.1 := by
  have hmajor := split_whitespace_word l.major ⟨_, rest_columns l.columns l.rest⟩
  dsimp only at hmajor
  rw [text, split_whitespace_blank l.lead.2, hmajor, split_whitespace_columns]
  rfl

theorem disk_bytes_text : disk_bytes l.text =
    if l.device.added then some (saturating_mul 64 l.sectors_read 512,
      saturating_mul 64 l.sectors_written 512) else none := by
  unfold disk_bytes
  rw [l.split_text]
  change (if counted l.device.name then some
    (saturating_mul 64 ((parse_u64 (counter l.sectors_read).1).getD 0) 512,
      saturating_mul 64 ((parse_u64 (counter l.sectors_written).1).getD 0) 512) else none) = _
  rw [counted_name, parse_u64, parse_u64, parse_counter, parse_counter]
  rfl

end DiskLine

/-! ## Totals -/

/-- A number of sectors of each line. -/
abbrev Sectors := DiskLine → Fin (2 ^ 64)

/-- The bytes of the lines of some devices. -/
def bytes_of (sectors : Sectors) (which : Device → Bool) (ls : List DiskLine) : ℕ :=
  ((ls.filter (which ·.device)).map fun l => (sectors l).1 * 512).sum

/-- The bytes that the code adds. -/
def added_bytes (sectors : Sectors) (ls : List DiskLine) : List ℕ :=
  (ls.filter (·.device.added)).map fun l => saturating_mul 64 (sectors l) 512

theorem disk_bytes_lines {text : List Char} {ls : List DiskLine}
    (htext : lines text = ls.map DiskLine.text) :
    disk_reads text = added_bytes DiskLine.sectors_read ls ∧
      disk_writes text = added_bytes DiskLine.sectors_written ls := by
  have hbytes : (lines text).filterMap disk_bytes = (ls.filter (·.device.added)).map fun l =>
      (saturating_mul 64 l.sectors_read 512, saturating_mul 64 l.sectors_written 512) := by
    rw [htext, List.filterMap_map, ← List.filterMap_eq_map', List.filterMap_filter]
    exact List.filterMap_congr fun l _ => l.disk_bytes_text
  unfold disk_reads disk_writes added_bytes
  rw [hbytes, List.map_map, List.map_map]
  exact ⟨rfl, rfl⟩

/-- What is added differs from the whole disks by the partitions and the cards. -/
theorem bytes_of_added (sectors : Sectors) (ls : List DiskLine) :
    bytes_of sectors Device.added ls + bytes_of sectors Device.whole_card ls =
      bytes_of sectors Device.physical ls + bytes_of sectors Device.nvme_partition ls := by
  unfold bytes_of
  induction ls with
  | nil => rfl
  | cons l ls ih =>
    have hdevice : l.device.added.toNat + l.device.whole_card.toNat =
        l.device.physical.toNat + l.device.nvme_partition.toNat := by
      cases l.device with
      | lettered driver letters part => cases part <;> rfl
      | nvme controller space part => cases part <;> rfl
      | mmcblk card part => cases part <;> rfl
      | loop n part => rfl
      | ram n | zram n | sr n | dm n => rfl
    have hcons : ∀ which : Device → Bool,
        (((l :: ls).filter (which ·.device)).map fun l => (sectors l).1 * 512).sum =
          (which l.device).toNat * ((sectors l).1 * 512) +
            ((ls.filter (which ·.device)).map fun l => (sectors l).1 * 512).sum := by
      intro which
      rw [List.filter_cons]
      cases which l.device with
      | true => simp
      | false => simp
    rw [hcons, hcons, hcons, hcons]
    linear_combination ih + (sectors l).1 * 512 * hdevice

/-- Saturation shows in the sum. -/
theorem sum_saturating (ns : List ℕ) :
    (ns.map (saturating_mul 64 · 512)).sum ≤ (ns.map (· * 512)).sum ∧
      ((ns.map (saturating_mul 64 · 512)).sum = (ns.map (· * 512)).sum ∨
        2 ^ 64 - 1 ≤ (ns.map (saturating_mul 64 · 512)).sum) := by
  induction ns with
  | nil => exact ⟨le_rfl, .inl rfl⟩
  | cons n ns ih =>
    simp only [List.map_cons, List.sum_cons, saturating_mul] at ih ⊢
    omega

theorem dvd_bytes_of (sectors : Sectors) (which : Device → Bool) (ls : List DiskLine) :
    512 ∣ bytes_of sectors which ls := by
  unfold bytes_of
  apply List.dvd_sum
  intro n hn
  obtain ⟨l, -, rfl⟩ := List.mem_map.mp hn
  exact Nat.dvd_mul_left 512 _

/-- One direction of the totals is right where the partitions of NVMe disks moved as many bytes as
the cards did. -/
theorem sum_added_bytes_iff (sectors : Sectors) (ls : List DiskLine) :
    (bytes_of sectors Device.physical ls = (added_bytes sectors ls).sum ∧
        (added_bytes sectors ls).sum < 2 ^ 64) ↔
      bytes_of sectors Device.nvme_partition ls = bytes_of sectors Device.whole_card ls ∧
        bytes_of sectors Device.physical ls < 2 ^ 64 := by
  have hdevices := bytes_of_added sectors ls
  have hwhole := dvd_bytes_of sectors Device.physical ls
  have hsum := sum_saturating ((ls.filter (·.device.added)).map fun l => (sectors l).1)
  have hadded : (((ls.filter (·.device.added)).map fun l => (sectors l).1).map
      (saturating_mul 64 · 512)) = added_bytes sectors ls := by
    rw [List.map_map]
    rfl
  have htrue : (((ls.filter (·.device.added)).map fun l => (sectors l).1).map (· * 512)).sum =
      bytes_of sectors Device.added ls := by
    rw [List.map_map]
    rfl
  rw [hadded, htrue] at hsum
  constructor
  · rintro ⟨hequal, hlt⟩
    -- a saturated sum would be `2 ^ 64 - 1`, which no number of sectors makes
    omega
  · rintro ⟨hequal, hlt⟩
    omega

/-- **The totals are those of the whole disks where the partitions of NVMe disks moved as many
bytes as the memory cards did**, and the bytes fit. -/
theorem parse_diskstats_iff {text : List Char} {ls : List DiskLine}
    (htext : lines text = ls.map DiskLine.text) :
    parse_diskstats text = .ok (bytes_of DiskLine.sectors_read Device.physical ls,
        bytes_of DiskLine.sectors_written Device.physical ls) ↔
      ∀ sectors ∈ [DiskLine.sectors_read, DiskLine.sectors_written],
        bytes_of sectors Device.nvme_partition ls = bytes_of sectors Device.whole_card ls ∧
          bytes_of sectors Device.physical ls < 2 ^ 64 := by
  obtain ⟨hreads, hwrites⟩ := disk_bytes_lines htext
  rw [parse_diskstats_eq_ok_iff, hreads, hwrites, Prod.mk.injEq, List.forall_mem_cons,
    List.forall_mem_singleton, ← sum_added_bytes_iff, ← sum_added_bytes_iff]
  exact and_and_and_comm

/-- A line with 1024 bytes read and 512 written. -/
def small_line (device : Device) : DiskLine where
  lead := ⟨"   ".toList, by decide⟩
  major := ⟨"8".toList, by decide⟩
  minor := ⟨⟨" ".toList, by decide⟩, "0".toList, by decide⟩
  name_gap := ⟨" ".toList, by decide⟩
  device := device
  reads := ⟨⟨" ".toList, by decide⟩, "9".toList, by decide⟩
  reads_merged := ⟨⟨" ".toList, by decide⟩, "0".toList, by decide⟩
  read_gap := ⟨" ".toList, by decide⟩
  sectors_read := 2
  read_ms := ⟨⟨" ".toList, by decide⟩, "1".toList, by decide⟩
  writes := ⟨⟨" ".toList, by decide⟩, "4".toList, by decide⟩
  writes_merged := ⟨⟨" ".toList, by decide⟩, "0".toList, by decide⟩
  written_gap := ⟨" ".toList, by decide⟩
  sectors_written := 1
  rest := ⟨" 2 0".toList, by decide⟩

/-- The letter of the first disk. -/
def letter_a : Letters := ⟨['a'], by decide⟩

theorem parse_diskstats_sda : parse_diskstats
      "   8 0 sda 9 0 2 1 4 0 1 2 0\n   8 0 sda1 9 0 2 1 4 0 1 2 0\n".toList =
    .ok (1024, 512) := by
  let ls := [small_line (.lettered .sd letter_a none), small_line (.lettered .sd letter_a (some 1))]
  have htext : lines "   8 0 sda 9 0 2 1 4 0 1 2 0\n   8 0 sda1 9 0 2 1 4 0 1 2 0\n".toList =
      ls.map DiskLine.text := by
    decide +kernel
  exact (parse_diskstats_iff htext).mpr (by decide +kernel)

/-- The partition of an NVMe disk is counted again. -/
theorem nvme_partition_counted : ¬ ∀ (text : List Char) (ls : List DiskLine),
    lines text = ls.map DiskLine.text →
      parse_diskstats text = .ok (bytes_of DiskLine.sectors_read Device.physical ls,
        bytes_of DiskLine.sectors_written Device.physical ls) := by
  intro h
  let ls := [small_line (.nvme 0 1 none), small_line (.nvme 0 1 (some 1))]
  let text := "   8 0 nvme0n1 9 0 2 1 4 0 1 2 0\n   8 0 nvme0n1p1 9 0 2 1 4 0 1 2 0\n".toList
  have htext : lines text = ls.map DiskLine.text := by
    decide +kernel
  have hreads : (disk_reads text).sum = 2048 ∧
      bytes_of DiskLine.sectors_read Device.physical ls = 1024 := by
    decide +kernel
  have htotals := (parse_diskstats_eq_ok_iff.mp (h text ls htext)).1
  rw [Prod.mk.injEq, hreads.1, hreads.2] at htotals
  exact absurd htotals.1 (by decide)

end WaSSH.Monitor
