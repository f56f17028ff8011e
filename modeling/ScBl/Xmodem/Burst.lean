import ScBl.Xmodem.Contract

/-!
# Bursts of errors

A packet whose payload and checksum have arrived with errors within 16 consecutive bits is
rejected: the error is no multiple of the generator, so that the checksum of the payload that was
received is not the one that was received. This holds for the order of bits of the checksum, the
most significant of a byte first, and for that of a serial line, the least significant first.
-/

namespace ScBl

open Crc

/-- Which bit of a byte comes first. -/
inductive BitOrder
  | msbFirst
  | lsbFirst
  deriving DecidableEq, Repr

/-- The bits of some bytes in a row. -/
def BitOrder.bitOf (o : BitOrder) (l : List U8) (i : ℕ) : Bool :=
  match o with
  | msbFirst => Crc.bitOf l i
  | lsbFirst => (l.getD (i / 8) 0#8).getLsbD (i % 8)

/-- An error within 16 consecutive bits. -/
structure IsBurst (o : BitOrder) (e : List U8) : Prop where
  nonzero : ∃ i, o.bitOf e i
  within : ∃ m, ∀ i, o.bitOf e i → m ≤ i ∧ i < m + 16

variable {e l : List U8} {o : BitOrder}

/-! ## The order of a serial line -/

/-- The checksum of a byte whose low bits are clear has one of the bits above them. -/
theorem crc16Ccitt_singleton (a : U8) (r : ℕ) (hr : r < 8)
    (ha : ∀ t < r, a.getLsbD t = false)
    (hcrc : ∀ t < 8, r ≤ t → (crc16Ccitt [a]).getLsbD t = false) : a = 0#8 := by
  revert a r
  decide +kernel

/-- The bits of a byte, on a serial line. -/
theorem getLsbD_getD (e : List U8) (n : ℕ) {t : ℕ} (ht : t < 8) :
    (e.getD n 0#8).getLsbD t = BitOrder.lsbFirst.bitOf e (8 * n + t) := by
  have hbyte : (8 * n + t) / 8 = n := by omega
  have hbit : (8 * n + t) % 8 = t := by omega
  rw [BitOrder.bitOf, hbyte, hbit]

theorem append_eq_zero {hi lo : U8} (h : hi ++ lo = 0#16) : hi = 0#8 ∧ lo = 0#8 := by
  constructor
  · refine BitVec.eq_of_getLsbD_eq fun t _ => ?_
    have hbit := congrArg (fun c : U16 => c.getLsbD (t + 8)) h
    rwa [BitVec.getLsbD_append, if_neg (by omega), Nat.add_sub_cancel, BitVec.getLsbD_zero,
      ← BitVec.getLsbD_zero] at hbit
  · refine BitVec.eq_of_getLsbD_eq fun t ht => ?_
    have hbit := congrArg (fun c : U16 => c.getLsbD t) h
    rwa [BitVec.getLsbD_append, if_pos ht, BitVec.getLsbD_zero, ← BitVec.getLsbD_zero] at hbit

theorem not_bitOf {m i : ℕ} (hburst : ∀ i, o.bitOf e i → m ≤ i ∧ i < m + 16)
    (hi : i < m ∨ m + 16 ≤ i) : o.bitOf e i = false := by
  by_contra hset
  have hwithin := hburst i (by simpa using hset)
  omega

/-- An error in consecutive bits of a serial line. It touches three bytes at most; were it a
multiple of the generator, the last two would be the checksum of the first. -/
theorem not_dvd_of_lsbFirst (h : IsBurst .lsbFirst e) :
    ¬ generator 0x1021#16 ∣ message e := by
  obtain ⟨⟨i, hi⟩, m, hburst⟩ := h
  intro hdvd
  have hzero : ∀ n, n < m / 8 ∨ m / 8 + 2 < n → e.getD n 0#8 = 0#8 := by
    intro n hn
    refine BitVec.eq_of_getLsbD_eq fun t ht => ?_
    rw [getLsbD_getD e n ht, not_bitOf hburst (by omega), BitVec.getLsbD_zero]
  have hwindow := (generator_dvd_X_pow_mul (g := 0x1021#16) (by decide) (by decide)).mp
    (message_window hzero ▸ hdvd.mul_left (Polynomial.X ^ (8 * 2)))
  have hcrc := (crc16Ccitt_eq_append_iff [e.getD (m / 8) 0#8] _ _).mpr hwindow
  have hfirst : e.getD (m / 8) 0#8 = 0#8 := by
    refine crc16Ccitt_singleton _ (m % 8) (by omega) (fun t ht => ?_) fun t ht hle => ?_
    · rw [getLsbD_getD e _ (by omega), not_bitOf hburst (by omega)]
    · rw [hcrc, BitVec.getLsbD_append, if_pos ht, getLsbD_getD e _ ht,
        not_bitOf hburst (by omega)]
  have hrest : e.getD (m / 8 + 1) 0#8 = 0#8 ∧ e.getD (m / 8 + 2) 0#8 = 0#8 := by
    have hnone : crc16Ccitt [0#8] = 0#8 ++ 0#8 := by decide
    rw [hfirst, hnone] at hcrc
    exact append_eq_zero hcrc.symm
  have hnth : e.getD (i / 8) 0#8 = 0#8 := by
    by_cases hn : i / 8 < m / 8 ∨ m / 8 + 2 < i / 8
    · exact hzero _ hn
    · obtain heq | heq | heq : i / 8 = m / 8 ∨ i / 8 = m / 8 + 1 ∨ i / 8 = m / 8 + 2 := by omega
      · rw [heq, hfirst]
      · rw [heq, hrest.1]
      · rw [heq, hrest.2]
  rw [BitOrder.bitOf, hnth, BitVec.getLsbD_zero] at hi
  cases hi

/-- **No burst** is a multiple of the generator. -/
theorem IsBurst.not_dvd (h : IsBurst o e) : ¬ generator 0x1021#16 ∣ message e := by
  cases o with
  | msbFirst =>
    obtain ⟨⟨i, hi⟩, m, hburst⟩ := h
    exact not_generator_dvd_message (by decide) (by decide) (by decide) hi hburst
  | lsbFirst => exact not_dvd_of_lsbFirst h

/-! ## What is received -/

/-- A payload followed by the two bytes of its checksum. -/
def checked (payload : List U8) : List U8 :=
  payload ++ [(crc16Ccitt payload).extractLsb' 8 8, (crc16Ccitt payload).extractLsb' 0 8]

theorem length_checked (payload : List U8) : (checked payload).length = payload.length + 2 :=
  List.length_append

theorem dvd_checked (payload : List U8) : generator 0x1021#16 ∣ message (checked payload) :=
  (crc16Ccitt_eq_append_iff _ _ _).mp (XmodemPacket.extractLsb'_append _).symm

/-- What comes after the first bytes, taken apart. -/
theorem eq_append_pair {n : ℕ} (hlen : l.length = n + 2) :
    l = l.take n ++ [l.getD n 0#8, l.getD (n + 1) 0#8] := by
  have hn : n < l.length := by omega
  have hn' : n + 1 < l.length := by omega
  have hdrop : l.drop n = [l.getD n 0#8, l.getD (n + 1) 0#8] := by
    rw [List.drop_eq_getElem_cons hn, List.drop_eq_getElem_cons hn',
      List.drop_of_length_le (by omega), List.getD_eq_getElem _ _ hn, List.getD_eq_getElem _ _ hn']
  rw [← hdrop, List.take_append_drop]

/-- The checksum of what arrives with a burst of errors is not the one that arrives. -/
theorem crc16Ccitt_ne_of_burst {payload : List U8} (hlen : e.length = payload.length + 2)
    (hburst : IsBurst o e) {r : List U8} (hr : r = corrupt (checked payload) e) :
    crc16Ccitt (r.take payload.length) ≠
      r.getD payload.length 0#8 ++ r.getD (payload.length + 1) 0#8 := by
  intro heq
  have hrlen : r.length = payload.length + 2 := by
    rw [hr, corrupt, List.length_zipWith, length_checked, hlen, Nat.min_self]
  rw [crc16Ccitt_eq_append_iff, ← eq_append_pair hrlen, hr,
    message_corrupt (by rw [length_checked, hlen])] at heq
  exact hburst.not_dvd ((dvd_add_right (dvd_checked payload)).mp heq)

/-! ## The receiver -/

open XmodemPacket Transfer

/-- After `l`, a packet arrives with these bytes and is not taken: the checksum of its payload is
not the one behind it. -/
structure Rejected (destsz : U32) (s : Xmodem) (l : List Inbyte) (size : ℕ) (bytes : List U8) :
    Prop where
  partialCrc : (xmodemReceive destsz s (l ++ bytes.map some)).partialCrc =
    crc16Ccitt (payloadOf size bytes)
  differs : (xmodemReceive destsz s (l ++ bytes.map some)).bufCrc ≠
    (xmodemReceive destsz s (l ++ bytes.map some)).partialCrc
  out : (xmodemReceive destsz s (l ++ bytes.map some)).out =
    (xmodemReceive destsz s l).out ++ [xmodemNak]
  flushes : (xmodemReceive destsz s (l ++ bytes.map some)).pc = .flush none
  totalbytes : (xmodemReceive destsz s (l ++ bytes.map some)).totalbytes =
    (xmodemReceive destsz s l).totalbytes

theorem check_damaged {s : Xmodem} (hcrc : s.bufCrc ≠ s.partialCrc) :
    s.check = (s.outbyte xmodemNak).flushinput none := by
  rw [Xmodem.check, if_pos hcrc, ite_self]

theorem rejected_of_ne (destsz : U32) (s : Xmodem) {l : List Inbyte} {size : ℕ} {bytes : List U8}
    (hmode : (xmodemTransfer l).mode = .receiving size []) (hlen : bytes.length = size + 4)
    (hcrc : crc16Ccitt (ofBytes size bytes).payload ≠ (ofBytes size bytes).crc) :
    Rejected destsz s l size bytes := by
  obtain ⟨front, c, rfl⟩ : ∃ front c, bytes = front ++ [c] :=
    ⟨_, _, (List.dropLast_append_getLast (List.ne_nil_of_length_eq_add_one hlen)).symm⟩
  rw [List.length_append, List.length_singleton] at hlen
  obtain ⟨s', hlast, hout, hbefore⟩ := last_byte destsz s hmode hlen c
  have hr := hbefore.receiving rfl
  obtain ⟨-, -, hbufCrc, hpartial, -⟩ := hr.last (c := c) hlen rfl
  rw [← hpartial] at hcrc
  have htotal : s'.totalbytes = (xmodemReceive destsz s l).totalbytes :=
    hbefore.totalbytes.trans (refines_xmodem destsz s l).totalbytes.symm
  have hcheck : s'.packet destsz c =
      ({ s' with bufCrc := (ofBytes size (front ++ [c])).crc }.outbyte xmodemNak).flushinput
        none := by
    rw [Xmodem.packet, if_neg (by rw [hr.rxsize]; omega),
      if_neg (by rw [hr.rxsize, hr.pktsize]; omega), if_neg (by rw [hr.rxsize, hr.pktsize]; omega),
      hbufCrc, check_damaged hcrc.symm]
  rw [hcheck] at hlast
  refine ⟨?_, ?_, ?_, ?_, ?_⟩
  · rw [hlast]
    exact hpartial
  · rw [hlast]
    exact hcrc.symm
  · rw [hlast, ← hout]
    rfl
  · rw [hlast]
    rfl
  · rw [hlast, ← htotal]
    rfl

open Polynomial in
/-- **Bursts.** A checksum is the remainder of its message times `x^16`, and no packet with a
burst of errors in its payload and checksum is taken. -/
theorem xmodem_rejects_burst :
    (∀ payload : List U8, toPoly (crc16Ccitt payload) =
      (message payload * X ^ 16) %ₘ (X ^ 16 + X ^ 12 + X ^ 5 + 1 : (ZMod 2)[X])) ∧
    ∀ (o : BitOrder) (payload e r : List U8), e.length = payload.length + 2 → IsBurst o e →
      r = corrupt (checked payload) e →
        crc16Ccitt (r.take payload.length) ≠
          r.getD payload.length 0#8 ++ r.getD (payload.length + 1) 0#8 ∧
        ∀ (destsz : U32) (s : Xmodem) (l : List Inbyte) (seq inv : U8),
          (xmodemTransfer l).mode = .receiving payload.length [] →
            Rejected destsz s l payload.length (seq :: inv :: r) := by
  refine ⟨toPoly_crc16Ccitt, fun o payload e r hlen hburst hr => ?_⟩
  have hne := crc16Ccitt_ne_of_burst hlen hburst hr
  refine ⟨hne, fun destsz s l seq inv hmode => rejected_of_ne destsz s hmode ?_ hne⟩
  rw [hr, List.length_cons, List.length_cons, corrupt, List.length_zipWith, length_checked, hlen,
    Nat.min_self]

/-- A burst that inverts the last bit of the first byte and the first of the second. -/
def burstZeros : List U8 := 0x01#8 :: 0x80#8 :: List.replicate 128 0#8

theorem length_burstZeros : burstZeros.length = 130 := by
  simp [burstZeros]

theorem isBurst_burstZeros : IsBurst .msbFirst burstZeros where
  nonzero := ⟨7, by decide⟩
  within := by
    refine ⟨0, fun i hi => ⟨i.zero_le, ?_⟩⟩
    have hbits : ∀ j < 8 * 130, Crc.bitOf burstZeros j → j < 16 := by decide +kernel
    have hbit : Crc.bitOf burstZeros i := hi
    have hlt := length_burstZeros ▸ lt_of_bitOf hbit
    rw [Nat.zero_add]
    exact hbits i hlt hbit

theorem xmodem_rejects_burstZeros (destsz : U32) (s : Xmodem) :
    Rejected destsz s [some xmodemSoh] 128
      (0x01#8 :: 0xFE#8 :: corrupt (checked (List.replicate 128 0#8)) burstZeros) := by
  have hlen : burstZeros.length = (List.replicate 128 0#8).length + 2 := by
    rw [length_burstZeros, List.length_replicate]
  have hmode : (xmodemTransfer [some xmodemSoh]).mode =
      .receiving (List.replicate 128 0#8).length [] := by
    rw [List.length_replicate]
    rfl
  have hrejected := (xmodem_rejects_burst.2 .msbFirst (List.replicate 128 0#8) burstZeros _ hlen
    isBurst_burstZeros rfl).2 destsz s [some xmodemSoh] 0x01#8 0xFE#8 hmode
  rwa [List.length_replicate] at hrejected

end ScBl
