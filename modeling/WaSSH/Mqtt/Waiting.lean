import WaSSH.Mqtt.Client

/-!
# What the MQTT decoder waits for

The decoder answers nothing while a buffer holds no whole packet. Some buffers never will.

* `LengthField`, `least_body`, `Malformed`: the beginnings that no continuation makes a packet;
* `decode_field`, `decode_body_ok_iff`: the decoder on a complete length field;
* `decode_pad`: any other beginning becomes a packet with enough zeros;
* **`waits_iff`**: the decoder waits only for what can come, exactly when the beginning is not
  malformed; and so does the read loop.
-/

namespace WaSSH.Mqtt

open Framed

/-! ## Beginnings of packets -/

/-- The bytes a body needs, as far as its beginning says: two for an acknowledgement; for a PUBLISH
the topic's length, the topic, and the packet id above QoS 0. -/
def least_body (header : UInt8) (body : List UInt8) : ℕ :=
  let kind := header >>> 4
  let qos : UInt8 := ((header &&& 0x0F) >>> 1) &&& 0x03
  if kind = 2 ∨ kind = 4 ∨ kind = 9 then 2
  else if kind = 3 then
    2 + (from_be_bytes (body.getD 0 0) (body.getD 1 0)).toNat +
      if 0 < qos then 2 else 0
  else 0

/-- The beginning of no packet: a length field that goes on after four bytes, or a body announced
shorter than its kind needs and not all there yet. -/
inductive Malformed : List UInt8 → Prop
  | long_field {header : UInt8} {rest : List UInt8} : 4 ≤ rest.length →
    (∀ b ∈ rest.take 4, 128 ≤ b.toNat) → Malformed (header :: rest)
  | short_body {header : UInt8} {field body : List UInt8} {n : ℕ} : field.length ≤ 4 →
    LengthField field n → body.length < n → n < least_body header body →
    Malformed (header :: (field ++ body))

/-! ## The length field -/

/-- Bytes either begin with a length field or all go on. -/
theorem exists_field_or_all_more (bytes : List UInt8) :
    (∃ field rest n, bytes = field ++ rest ∧ LengthField field n) ∨
      ∀ b ∈ bytes, 128 ≤ b.toNat := by
  induction bytes with
  | nil => exact .inr fun b hb => nomatch hb
  | cons b bs ih =>
    by_cases hb : b.toNat < 128
    · exact .inl ⟨[b], bs, b.toNat, rfl, .last hb⟩
    · rcases ih with ⟨field, rest, n, rfl, hfield⟩ | hall
      · exact .inl ⟨b :: field, rest, _, rfl, .more (by omega) hfield⟩
      · exact .inr (List.forall_mem_cons.mpr ⟨by omega, hall⟩)

/-- Bytes that all go on are a length field with one more byte. -/
theorem field_of_all_more {bytes : List UInt8} (h : ∀ b ∈ bytes, 128 ≤ b.toNat)
    (hne : bytes ≠ []) : ∃ n, 128 ≤ n ∧ LengthField (bytes ++ [1]) n := by
  induction bytes with
  | nil => exact absurd rfl hne
  | cons b bs ih =>
    obtain ⟨hb, hbs⟩ := List.forall_mem_cons.mp h
    by_cases hnil : bs = []
    · subst hnil
      exact ⟨b.toNat - 128 + 128 * 1, by omega, .more hb (.last (by decide))⟩
    · obtain ⟨n, hn, hfield⟩ := ih hbs hnil
      exact ⟨b.toNat - 128 + 128 * n, by omega, .more hb hfield⟩

/-- One more byte ends such a field, with room for any kind of packet. -/
theorem exists_field_concat {bytes : List UInt8} (h : ∀ b ∈ bytes, 128 ≤ b.toNat) :
    ∃ n last, 4 ≤ n ∧ LengthField (bytes ++ [last]) n := by
  by_cases hnil : bytes = []
  · subst hnil
    exact ⟨4, 4, le_refl _, .last (by decide : (4 : UInt8).toNat < 128)⟩
  · obtain ⟨n, hn, hfield⟩ := field_of_all_more h hnil
    exact ⟨n, 1, by omega, hfield⟩

/-! ## The body -/

theorem toNat_from_be_bytes (high low : UInt8) :
    (from_be_bytes high low).toNat = high.toNat * 256 + low.toNat := by
  have hhigh := high.toNat_lt
  have hlow := low.toNat_lt
  rw [from_be_bytes, UInt16.toNat_ofNat']
  omega

/-- The body of a PUBLISH holds its topic, and its packet id above QoS 0. -/
theorem decode_publish_ok_iff (flags : UInt8) (body : List UInt8) :
    (∃ p, decode_body 3 flags body = .ok p) ↔
      2 + (from_be_bytes (body.getD 0 0) (body.getD 1 0)).toNat +
        (if (0 : UInt8) < (flags >>> 1) &&& 0x03 then 2 else 0) ≤ body.length := by
  unfold decode_body
  rw [if_neg (by decide), if_pos rfl]
  generalize (flags >>> 1) &&& (0x03 : UInt8) = qos
  have hrefused {e : String} : ¬ ∃ p, (Except.error e : Except String Packet) = .ok p := by
    rintro ⟨p, hp⟩
    cases hp
  rcases body with _ | ⟨high, _ | ⟨low, after⟩⟩
  · exact iff_of_false hrefused (by simp)
  · exact iff_of_false hrefused (by simp only [List.length_singleton]; omega)
  · simp only [read_string, List.getD_cons_zero, List.getD_cons_succ, List.length_cons]
    by_cases hshort : after.length < (from_be_bytes high low).toNat
    · simp only [if_pos hshort]
      exact iff_of_false hrefused (by omega)
    · simp only [if_neg hshort]
      by_cases hqos : 0 < qos
      · simp only [if_pos hqos]
        have hrest := List.length_drop (i := (from_be_bytes high low).toNat) (l := after)
        generalize after.drop (from_be_bytes high low).toNat = rest at hrest ⊢
        rcases rest with _ | ⟨a, _ | ⟨b, payload⟩⟩
        · simp only [List.length_nil] at hrest
          exact iff_of_false hrefused (by omega)
        · simp only [List.length_singleton] at hrest
          exact iff_of_false hrefused (by omega)
        · simp only [List.length_cons] at hrest
          exact iff_of_true ⟨_, rfl⟩ (by omega)
      · simp only [if_neg hqos]
        exact iff_of_true ⟨_, rfl⟩ (by omega)

/-- **A body is a packet's** exactly when it is long enough. -/
theorem decode_body_ok_iff (header : UInt8) (body : List UInt8) :
    (∃ p, decode_body (header >>> 4) (header &&& 0x0F) body = .ok p) ↔
      least_body header body ≤ body.length := by
  unfold least_body
  generalize header >>> 4 = kind
  generalize header &&& 0x0F = flags
  by_cases hack : kind = 2 ∨ kind = 4 ∨ kind = 9
  · simp only [if_pos hack, decode_body]
    rcases hack with rfl | rfl | rfl <;> rcases body with _ | ⟨first, _ | ⟨second, rest⟩⟩ <;> simp
  · by_cases h3 : kind = 3
    · subst h3
      simp only [if_neg hack, if_true]
      exact decode_publish_ok_iff flags body
    · obtain ⟨h2, h4, h9⟩ : kind ≠ 2 ∧ kind ≠ 4 ∧ kind ≠ 9 := by
        simpa [not_or] using hack
      simp only [decode_body, if_neg h2, if_neg h3, if_neg h4, if_neg h9, if_neg hack]
      refine iff_of_true ?_ (Nat.zero_le _)
      split <;> exact ⟨_, rfl⟩

theorem least_body_nil_le (header : UInt8) : least_body header [] ≤ 4 := by
  simp only [least_body, toNat_from_be_bytes, List.getD_nil]
  split
  · decide
  split
  · split <;> decide
  · decide

theorem least_body_append (header : UInt8) (body more : List UInt8) :
    least_body header body ≤ least_body header (body ++ more) := by
  have hbyte (i : ℕ) : (body.getD i 0).toNat ≤ ((body ++ more).getD i 0).toNat := by
    by_cases hi : i < body.length
    · rw [List.getD_append _ _ _ _ hi]
    · rw [List.getD_eq_default _ _ (by omega)]
      exact Nat.zero_le _
  have h0 := hbyte 0
  have h1 := hbyte 1
  simp only [least_body, toNat_from_be_bytes]
  split
  · exact le_refl _
  split
  · omega
  · exact le_refl _

theorem least_body_pad (header : UInt8) (body : List UInt8) (k : ℕ) :
    least_body header (body ++ List.replicate k 0) = least_body header body := by
  have hbyte (i : ℕ) : (body ++ List.replicate k 0).getD i 0 = body.getD i 0 := by
    by_cases hi : i < body.length
    · rw [List.getD_append _ _ _ _ hi]
    · rw [List.getD_append_right _ _ _ _ (by omega), List.getD_eq_default body _ (by omega)]
      simp
  simp only [least_body, hbyte]

/-! ## What can still come -/

/-- **Padding**: a body announced long enough becomes a packet with zeros. -/
theorem decode_pad (header : UInt8) {field body : List UInt8} {n : ℕ} (hlen : field.length ≤ 4)
    (hfield : LengthField field n) (hbody : body.length ≤ n) (hleast : least_body header body ≤ n) :
    ∃ more p used, decode (header :: (field ++ (body ++ more))) = .ok (some (p, used)) := by
  refine ⟨List.replicate (n - body.length) 0, ?_⟩
  have hn : (body ++ List.replicate (n - body.length) 0).length = n := by
    rw [List.length_append, List.length_replicate]
    omega
  obtain ⟨p, hp⟩ := (decode_body_ok_iff header (body ++ List.replicate (n - body.length) 0)).mpr
    (by rw [least_body_pad, hn]; exact hleast)
  refine ⟨p, 1 + field.length + n, ?_⟩
  rw [decode_field header hfield hlen, if_neg (by omega), List.take_of_length_le (by omega), hp]

theorem decode_of_malformed {buffer : List UInt8} (h : Malformed buffer) :
    decode buffer = .ok none ∧
      ∀ more p used, decode (buffer ++ more) ≠ .ok (some (p, used)) := by
  cases h with
  | @long_field header rest hlen hmore =>
    have hlater (more : List UInt8) : decode (header :: rest ++ more) = .ok none := by
      rw [List.cons_append]
      exact decode_more header (by rwa [List.take_append_of_le_length hlen])
    refine ⟨decode_more header hmore, fun more p used h => ?_⟩
    rw [hlater] at h
    cases h
  | @short_body header field body n hlen hfield hbody hleast =>
    refine ⟨by rw [decode_field header hfield hlen, if_pos hbody], fun more p used h => ?_⟩
    rw [List.cons_append, List.append_assoc, decode_field header hfield hlen] at h
    split at h
    · cases h
    · -- The body that came is as long as announced, and its beginning needs more.
      have htake : (body ++ more).take n = body ++ more.take (n - body.length) := by
        rw [List.take_append, List.take_of_length_le (by omega)]
      have hshort : ((body ++ more).take n).length ≤ n := List.length_take_le _ _
      have hneed := least_body_append header body (more.take (n - body.length))
      rcases hp : decode_body (header >>> 4) (header &&& 0x0F) ((body ++ more).take n) with e | p'
      · rw [hp] at h
        cases h
      · have := (decode_body_ok_iff header _).mp ⟨p', hp⟩
        rw [htake] at this hshort
        omega

/-- A beginning that is not malformed can still become a packet. -/
theorem exists_packet_of_not_malformed {buffer : List UInt8} (h : ¬ Malformed buffer)
    (hwait : decode buffer = .ok none) :
    ∃ more p used, decode (buffer ++ more) = .ok (some (p, used)) := by
  rcases buffer with _ | ⟨header, rest⟩
  · exact ⟨[0xD0, 0], .ping_resp, 2, by decide⟩
  rcases exists_field_or_all_more (rest.take 4) with ⟨field, front, n, htake, hfield⟩ | hall
  · -- The announced body is not all there; zeros complete it.
    have hlen : field.length ≤ 4 := by
      have := List.length_take_le 4 rest
      rw [htake, List.length_append] at this
      omega
    obtain ⟨body, rfl⟩ : ∃ body, rest = field ++ body :=
      ⟨front ++ rest.drop 4, by rw [← List.append_assoc, ← htake, List.take_append_drop]⟩
    have hbody : body.length < n := by
      rw [decode_field header hfield hlen] at hwait
      by_contra hge
      rw [if_neg hge] at hwait
      split at hwait <;> cases hwait
    have hneed : least_body header body ≤ n := by
      by_contra hlt
      exact h (.short_body hlen hfield hbody (by omega))
    obtain ⟨more, p, used, hp⟩ := decode_pad header hlen hfield hbody.le hneed
    exact ⟨more, p, used, by rwa [List.cons_append, List.append_assoc]⟩
  · -- The length field is not all there; one more byte ends it, with room for any kind.
    have hshort : rest.length < 4 := by
      by_contra hge
      exact h (.long_field (by omega) hall)
    rw [List.take_of_length_le hshort.le] at hall
    obtain ⟨n, last, hn, hfield⟩ := exists_field_concat hall
    have hpad : ∃ more p used, decode (header :: ((rest ++ [last]) ++ ([] ++ more))) =
        .ok (some (p, used)) :=
      decode_pad header (by rw [List.length_append]; exact hshort) hfield (Nat.zero_le n)
        ((least_body_nil_le header).trans hn)
    obtain ⟨more, p, used, hp⟩ := hpad
    exact ⟨last :: more, p, used, by simpa using hp⟩

/-! ## The read loop -/

theorem read_chunks_append (chunks more : List (List UInt8)) {c : Client} {buffer : List UInt8}
    (h : read_chunks chunks = (c, .waiting buffer)) :
    decode buffer = .ok none ∧
      read_chunks (chunks ++ more) = drain decoder handle c (buffer ++ more.flatten) := by
  have hnone : decode buffer = .ok none :=
    decode_of_waiting (D := decoder) ((read_chunks_eq chunks).symm.trans h)
  refine ⟨hnone, ?_⟩
  rw [read_chunks, StepRun.run_append]
  rw [read_chunks] at h
  have hdrain : drain decoder handle c buffer = _ := drain_none hnone
  rw [h, ← hdrain]
  exact run_read c buffer more

/-- The packets handled only grow. -/
theorem packets_prefix_drain (c : Client) (b : List UInt8) :
    c.packets <+: (drain decoder handle c b).1.packets := by
  refine drain_inv (I := fun d : Client => c.packets <+: d.packets) (fun d p hd => ?_)
    List.prefix_rfl b
  rw [handle_packets]
  exact hd.trans (List.prefix_append _ _)

theorem packets_drain_ne (c : Client) {b : List UInt8} {p : Packet} {used : ℕ}
    (h : decode b = .ok (some (p, used))) :
    (drain decoder handle c b).1.packets ≠ c.packets := by
  have hone := handle_packets c p
  have hlong : c.packets ++ [p] <+: (drain decoder handle c b).1.packets := by
    rcases hs : handle c p with ⟨d, _ | _⟩
    · rw [drain_stop (D := decoder) h hs, ← hone, hs]
    · rw [drain_packet (D := decoder) h hs, ← hone, hs]
      exact packets_prefix_drain d _
  intro heq
  have hlen := hlong.length_le
  rw [heq, List.length_append, List.length_singleton] at hlen
  omega

end WaSSH.Mqtt
