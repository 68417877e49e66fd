import Mathlib.Algebra.BigOperators.Group.Finset.Basic
import Mathlib.Order.Monotone.Basic
import Mathlib.Tactic

/-!
# Timers that back off

A timer is booked for an attempt, and fires when it is due. Each booking since the last reset waits
at least as long as the one before it. A booking may be cancelled.

* `Timer`, `Timer.book`, `Timer.fire`, `Timer.cancel`, `Timer.reset`;
* `Firings`: when it was reset, and when it fired since;
* `Paced`: the `k`-th firing comes after all of the first `k` waits; one rule for each operation.
-/

namespace Backoff

/-- How many attempts were booked since the last reset, and when the booked one is due. -/
structure Timer where
  booked : ℕ := 0
  due : Option ℕ := none
  deriving DecidableEq, Repr

/-- When the timer was reset, and when it fired since then. -/
structure Firings where
  start : ℕ
  times : List ℕ := []
  deriving DecidableEq, Repr

/-- The last firing, or the reset. -/
def Firings.last (f : Firings) : ℕ := f.times.getLast?.getD f.start

def Firings.add (f : Firings) (now : ℕ) : Firings := { f with times := f.times ++ [now] }

@[simp] theorem Firings.last_add (f : Firings) (now : ℕ) : (f.add now).last = now := by
  simp [last, add]

section

variable (delay : ℕ → ℕ)

namespace Timer

def book (t : Timer) (now : ℕ) : Timer := ⟨t.booked + 1, some (now + delay (t.booked + 1))⟩

def cancel (t : Timer) : Timer := { t with due := none }

def reset : Timer := {}

end Timer

/-- The waits of the first `n` attempts. -/
def total (n : ℕ) : ℕ := ∑ i ∈ Finset.range n, delay (i + 1)

theorem total_succ (n : ℕ) : total delay (n + 1) = total delay n + delay (n + 1) :=
  Finset.sum_range_succ _ n

/-- By `now`, the timer has fired at these times, none of them before the waits up to it. -/
structure Paced (now : ℕ) (t : Timer) (f : Firings) : Prop where
  counted : f.times.length ≤ t.booked
  due : ∀ time, t.due = some time →
    f.times.length < t.booked ∧ f.last + delay (f.times.length + 1) ≤ time
  spent : f.start + total delay f.times.length ≤ f.last
  paced : ∀ k (h : k < f.times.length), f.start + total delay (k + 1) ≤ f.times[k]
  past : f.last ≤ now

namespace Paced

variable {delay} {now now' : ℕ} {t : Timer} {f : Firings}

theorem init : Paced delay now {} ⟨now, []⟩ where
  counted := le_refl 0
  due := by simp
  spent := by simp [total, Firings.last]
  paced := by simp
  past := le_refl now

theorem wait (h : Paced delay now t f) (hnow : now ≤ now') : Paced delay now' t f :=
  { h with past := h.past.trans hnow }

theorem reset : Paced delay now Timer.reset ⟨now, []⟩ := init

theorem cancel (h : Paced delay now t f) : Paced delay now t.cancel f :=
  { h with due := by simp [Timer.cancel] }

/-- Delays that grow: a booking is due no sooner than the attempt it is for. -/
theorem book (hdelay : Monotone delay) (h : Paced delay now t f) :
    Paced delay now (t.book delay now) f where
  counted := h.counted.trans (Nat.le_succ _)
  due := by
    intro time hbooked
    obtain rfl := Option.some.inj hbooked
    have hle : delay (f.times.length + 1) ≤ delay (t.booked + 1) :=
      hdelay (Nat.succ_le_succ h.counted)
    exact ⟨Nat.lt_succ_of_le h.counted, Nat.add_le_add h.past hle⟩
  spent := h.spent
  paced := h.paced
  past := h.past

/-- A timer that is due fires. -/
theorem fire (h : Paced delay now t f) {time : ℕ} (hbooked : t.due = some time) (hdue : time ≤ now) :
    Paced delay now t.cancel (f.add now) where
  counted := by simpa [Firings.add, Timer.cancel] using (h.due time hbooked).1
  due := by simp [Timer.cancel]
  spent := by
    have hwait := (h.due time hbooked).2
    have hspent := h.spent
    rw [Firings.last_add, Firings.add]
    simp only [List.length_append, List.length_singleton, total_succ]
    omega
  paced := by
    intro k hk
    simp only [Firings.add, List.length_append, List.length_singleton] at hk
    simp only [Firings.add]
    by_cases hlast : k < f.times.length
    · rw [List.getElem_append_left hlast]
      exact h.paced k hlast
    · have hk' : k = f.times.length := by omega
      subst hk'
      have hwait := (h.due time hbooked).2
      have hspent := h.spent
      simp only [List.getElem_append_right (le_refl _), Nat.sub_self, List.getElem_singleton,
        total_succ]
      omega
  past := by simp

end Paced

end

end Backoff
