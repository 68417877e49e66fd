import Mathlib.Data.List.Infix
import Mathlib.Order.Lattice.Nat

/-!
# Two endpoints

An endpoint is what it has sent once it has received a stream; what it has sent it never takes
back. Two endpoints are connected, and an order says whose turn it is to receive how much.

* `Endpoint`, `Received`, `exchange`: the exchange in an order of deliveries;
* `exchange_mono`, `sound_exchange`: what is received was sent, and stays received;
* `Fair`: both endpoints go on receiving; `eventually_received`: nothing sent is held back;
* **`exists_quiet`**: an exchange in which one endpoint only sends so much comes to a state in which
  everything has arrived and nothing more is said;
* **`settles_iff`**: where that state cannot be, an exchange settles only if an endpoint stops
  receiving.
-/

namespace Exchange

/-- What an endpoint has sent, once it has received a stream. -/
structure Endpoint (α : Type*) where
  out : List α → List α
  causal (s t : List α) : out s <+: out (s ++ t)

/-- What the two endpoints have received. -/
structure Received (α : Type*) where
  first : List α
  second : List α

/-- One endpoint receives up to so many symbols more. -/
inductive Delivery
  | to_first (n : ℕ)
  | to_second (n : ℕ)

variable {α : Type*} (a b : Endpoint α)

theorem Endpoint.mono {s t : List α} (h : s <+: t) : a.out s <+: a.out t := by
  obtain ⟨u, rfl⟩ := h
  exact a.causal s u

/-- One delivery, in the order the symbols were sent. -/
def deliver (s : Received α) : Delivery → Received α
  | .to_first n => { s with first := (b.out s.second).take (s.first.length + n) }
  | .to_second n => { s with second := (a.out s.first).take (s.second.length + n) }

/-- The exchange after `n` deliveries. -/
def exchange (order : ℕ → Delivery) : ℕ → Received α
  | 0 => ⟨[], []⟩
  | n + 1 => deliver a b (exchange order n) (order n)

/-- Everything sent has arrived. -/
def Quiet (s : Received α) : Prop := s.first = b.out s.second ∧ s.second = a.out s.first

/-- Both endpoints receive something again and again. -/
structure Fair (order : ℕ → Delivery) : Prop where
  to_first : ∀ n, ∃ m, n ≤ m ∧ ∃ k, order m = .to_first (k + 1)
  to_second : ∀ n, ∃ m, n ≤ m ∧ ∃ k, order m = .to_second (k + 1)

/-! ## What is received -/

/-- What is received was sent. -/
structure Sound (s : Received α) : Prop where
  first : s.first <+: b.out s.second
  second : s.second <+: a.out s.first

theorem prefix_take_add {s t : List α} (h : s <+: t) (n : ℕ) : s <+: t.take (s.length + n) := by
  obtain ⟨u, rfl⟩ := h
  rw [List.take_length_add_append]
  exact List.prefix_append _ _

variable {a b} {s : Received α}

theorem Sound.first_deliver (hs : Sound a b s) (d : Delivery) :
    s.first <+: (deliver a b s d).first := by
  cases d with
  | to_first n => exact prefix_take_add hs.first n
  | to_second n => exact List.prefix_rfl

theorem Sound.second_deliver (hs : Sound a b s) (d : Delivery) :
    s.second <+: (deliver a b s d).second := by
  cases d with
  | to_first n => exact List.prefix_rfl
  | to_second n => exact prefix_take_add hs.second n

theorem Sound.deliver (hs : Sound a b s) (d : Delivery) : Sound a b (deliver a b s d) := by
  have hfirst := hs.first_deliver d
  have hsecond := hs.second_deliver d
  cases d with
  | to_first n => exact ⟨List.take_prefix _ _, hs.second.trans (a.mono hfirst)⟩
  | to_second n => exact ⟨hs.first.trans (b.mono hsecond), List.take_prefix _ _⟩

variable (a b) (order : ℕ → Delivery)

theorem sound_exchange (n : ℕ) : Sound a b (exchange a b order n) := by
  induction n with
  | zero => exact ⟨List.nil_prefix, List.nil_prefix⟩
  | succ n ih => exact ih.deliver (order n)

theorem exchange_mono {n m : ℕ} (h : n ≤ m) :
    (exchange a b order n).first <+: (exchange a b order m).first ∧
      (exchange a b order n).second <+: (exchange a b order m).second := by
  induction h with
  | refl => exact ⟨List.prefix_rfl, List.prefix_rfl⟩
  | @step m _ ih =>
    have hs := sound_exchange a b order m
    exact ⟨ih.1.trans (hs.first_deliver _), ih.2.trans (hs.second_deliver _)⟩

/-! ## Fair orders -/

variable {a b order}

/-- Lists that only grow, inside a list that they are given more of again and again, reach it. -/
theorem eventually_received {got : ℕ → List α} {sent : List α} {N : ℕ}
    (hgrow : ∀ n m, n ≤ m → got n <+: got m) (hin : ∀ n, N ≤ n → got n <+: sent)
    (hmore : ∀ n, N ≤ n →
      ∃ m, n ≤ m ∧ ∃ k, got (m + 1) = sent.take ((got m).length + (k + 1))) :
    ∃ n, N ≤ n ∧ got n = sent := by
  -- by induction on what is left to arrive
  suffices h : ∀ left n, N ≤ n → sent.length - (got n).length = left →
      ∃ m, N ≤ m ∧ got m = sent from h _ N le_rfl rfl
  intro left
  induction left using Nat.strong_induction_on with
  | _ left ih =>
    intro n hn hleft
    by_cases hdone : sent.length ≤ (got n).length
    · exact ⟨n, hn, (hin n hn).eq_of_length_le hdone⟩
    · obtain ⟨m, hm, k, hnext⟩ := hmore n hn
      have hlength := (hgrow n m hm).length_le
      have hsome : (got (m + 1)).length = min ((got m).length + (k + 1)) sent.length := by
        rw [hnext, List.length_take]
      exact ih _ (by omega) (m + 1) (by omega) rfl

theorem eventually_second (hfair : Fair order) {sent : List α} {N : ℕ}
    (hsent : ∀ n, N ≤ n → a.out (exchange a b order n).first = sent) :
    ∃ n, N ≤ n ∧ (exchange a b order n).second = sent := by
  refine eventually_received (fun n m h => (exchange_mono a b order h).2)
    (fun n hn => hsent n hn ▸ (sound_exchange a b order n).second) fun n hn => ?_
  obtain ⟨m, hm, k, hnext⟩ := hfair.to_second n
  refine ⟨m, hm, k, ?_⟩
  rw [exchange, hnext, deliver, hsent m (hn.trans hm)]

theorem eventually_first (hfair : Fair order) {sent : List α} {N : ℕ}
    (hsent : ∀ n, N ≤ n → b.out (exchange a b order n).second = sent) :
    ∃ n, N ≤ n ∧ (exchange a b order n).first = sent := by
  refine eventually_received (fun n m h => (exchange_mono a b order h).1)
    (fun n hn => hsent n hn ▸ (sound_exchange a b order n).first) fun n hn => ?_
  obtain ⟨m, hm, k, hnext⟩ := hfair.to_first n
  refine ⟨m, hm, k, ?_⟩
  rw [exchange, hnext, deliver, hsent m (hn.trans hm)]

/-- Lists that only grow and stay bounded stop growing. -/
theorem eventually_constant {out : ℕ → List α} (hgrow : ∀ n m, n ≤ m → out n <+: out m)
    {bound : ℕ} (hbound : ∀ n, (out n).length ≤ bound) : ∃ N, ∀ n, N ≤ n → out n = out N := by
  have hbdd : BddAbove (Set.range fun n => (out n).length) :=
    ⟨bound, by rintro _ ⟨n, rfl⟩; exact hbound n⟩
  obtain ⟨N, hN⟩ := Nat.sSup_mem (Set.range_nonempty fun n => (out n).length) hbdd
  refine ⟨N, fun n hn => ((hgrow N n hn).eq_of_length_le ?_).symm⟩
  have hle : (out n).length ≤ sSup (Set.range fun n => (out n).length) := le_csSup hbdd ⟨n, rfl⟩
  exact hle.trans_eq hN.symm

/-- **An exchange that ends**: in a fair order in which one endpoint only sends so much, everything
has arrived at some point. -/
theorem exists_quiet (hfair : Fair order) {bound : ℕ}
    (hbound : ∀ n, (a.out (exchange a b order n).first).length ≤ bound) :
    ∃ n, Quiet a b (exchange a b order n) := by
  obtain ⟨N, hN⟩ := eventually_constant
    (fun n m h => a.mono (exchange_mono a b order h).1) hbound
  obtain ⟨M, hM, hsecond⟩ := eventually_second hfair hN
  have hstays (n : ℕ) (hn : M ≤ n) :
      (exchange a b order n).second = (exchange a b order M).second := by
    refine ((exchange_mono a b order hn).2.eq_of_length_le ?_).symm
    rw [hsecond, ← hN n (hM.trans hn)]
    exact (sound_exchange a b order n).second.length_le
  obtain ⟨K, hK, hfirst⟩ := eventually_first hfair fun n hn => congrArg b.out (hstays n hn)
  refine ⟨K, ?_, ?_⟩
  · rw [hfirst, hstays K hK]
  · rw [hstays K hK, hsecond, hN K (hM.trans hK)]

/-! ## Exchanges that settle -/

variable (a b order)

/-- Both endpoints only ever send so much. -/
def Settles : Prop :=
  ∃ bound, ∀ n, (a.out (exchange a b order n).first).length ≤ bound ∧
    (b.out (exchange a b order n).second).length ≤ bound

variable {a b order}

/-- An endpoint that is given nothing more keeps what it has. -/
theorem first_stopped {N : ℕ} (hN : ∀ m, N ≤ m → ∀ k, order m ≠ .to_first (k + 1)) (n : ℕ) :
    (exchange a b order n).first <+: (exchange a b order N).first := by
  obtain hn | hn := Nat.le_total n N
  · exact (exchange_mono a b order hn).1
  induction n, hn using Nat.le_induction with
  | base => exact List.prefix_rfl
  | succ n hn ih =>
    rw [exchange]
    cases hnext : order n with
    | to_first k =>
      cases k with
      | zero =>
        have hsame := List.prefix_iff_eq_take.mp (sound_exchange a b order n).first
        rw [deliver, Nat.add_zero, ← hsame]
        exact ih
      | succ k => exact absurd hnext (hN n hn k)
    | to_second k => exact ih

theorem second_stopped {N : ℕ} (hN : ∀ m, N ≤ m → ∀ k, order m ≠ .to_second (k + 1)) (n : ℕ) :
    (exchange a b order n).second <+: (exchange a b order N).second := by
  obtain hn | hn := Nat.le_total n N
  · exact (exchange_mono a b order hn).2
  induction n, hn using Nat.le_induction with
  | base => exact List.prefix_rfl
  | succ n hn ih =>
    rw [exchange]
    cases hnext : order n with
    | to_first k => exact ih
    | to_second k =>
      cases k with
      | zero =>
        have hsame := List.prefix_iff_eq_take.mp (sound_exchange a b order n).second
        rw [deliver, Nat.add_zero, ← hsame]
        exact ih
      | succ k => exact absurd hnext (hN n hn k)

/-- An endpoint that stops receiving ends the exchange. -/
theorem settles_of_not_fair (hfair : ¬ Fair order) : Settles a b order := by
  have hstop : (∃ N, ∀ m, N ≤ m → ∀ k, order m ≠ .to_first (k + 1)) ∨
      ∃ N, ∀ m, N ≤ m → ∀ k, order m ≠ .to_second (k + 1) := by
    by_contra hboth
    push Not at hboth
    exact hfair ⟨hboth.1, hboth.2⟩
  have hs (n : ℕ) := sound_exchange a b order n
  obtain ⟨N, hN⟩ | ⟨N, hN⟩ := hstop
  · have hout (n : ℕ) := a.mono (first_stopped (a := a) (b := b) hN n)
    refine ⟨max (a.out (exchange a b order N).first).length
      (b.out (a.out (exchange a b order N).first)).length, fun n => ⟨?_, ?_⟩⟩
    · exact (hout n).length_le.trans (le_max_left _ _)
    · exact (b.mono ((hs n).second.trans (hout n))).length_le.trans (le_max_right _ _)
  · have hout (n : ℕ) := b.mono (second_stopped (a := a) (b := b) hN n)
    refine ⟨max (b.out (exchange a b order N).second).length
      (a.out (b.out (exchange a b order N).second)).length, fun n => ⟨?_, ?_⟩⟩
    · exact (a.mono ((hs n).first.trans (hout n))).length_le.trans (le_max_right _ _)
    · exact (hout n).length_le.trans (le_max_left _ _)

/-- **Exchanges that settle**: where the endpoints are never quiet, an exchange settles exactly if
one of them receives nothing more from some point on. -/
theorem settles_iff (hnever : ∀ s, ¬ Quiet a b s) : Settles a b order ↔ ¬ Fair order := by
  constructor
  · rintro ⟨bound, hbound⟩ hfair
    obtain ⟨n, hquiet⟩ := exists_quiet hfair fun n => (hbound n).1
    exact hnever _ hquiet
  · exact settles_of_not_fair

/-- Turn and turn about, one symbol at a time. -/
def alternating (n : ℕ) : Delivery := if n % 2 = 0 then .to_first 1 else .to_second 1

theorem fair_alternating : Fair alternating where
  to_first := fun n => ⟨2 * n, by omega, 0, if_pos (by omega)⟩
  to_second := fun n => ⟨2 * n + 1, by omega, 0, if_neg (by omega)⟩

end Exchange
