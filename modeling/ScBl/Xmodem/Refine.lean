import ScBl.Xmodem.Transfer

/-!
# `xmodem_receive` follows the transfer

Fed with the same input, the code and the packet level stay together
(`Refines.step`): the counters of the code are those of the transfer, the
offset `rxsize` says how many bytes of a packet have come, and as long as the
buffer is large enough it holds the accepted payloads.
-/

namespace ScBl

/-- These are the values from `k` on. -/
def Holds (f : ℤ → U8) (k : ℤ) (l : List U8) : Prop :=
  ∀ (i : ℕ) (c : U8), l[i]? = some c → f (k + i) = c

namespace Holds

variable {f : ℤ → U8} {k j : ℤ} {l l' : List U8} {c : U8}

theorem nil : Holds f k [] := by
  intro i c hc
  cases hc

theorem append (hl : Holds f k l) (hl' : Holds f (k + l.length) l') : Holds f k (l ++ l') := by
  intro i c hc
  by_cases hi : i < l.length
  · rw [List.getElem?_append_left hi] at hc
    exact hl i c hc
  · rw [List.getElem?_append_right (by omega)] at hc
    have hrest := hl' (i - l.length) c hc
    have heq : k + l.length + ((i - l.length : ℕ) : ℤ) = k + i := by omega
    rwa [heq] at hrest

/-- A write elsewhere. -/
theorem update_of_ge (hl : Holds f k l) (hj : k + l.length ≤ j) :
    Holds (Function.update f j c) k l := by
  intro i d hd
  obtain ⟨hi, _⟩ := List.getElem?_eq_some_iff.mp hd
  rw [Function.update_of_ne (by omega)]
  exact hl i d hd

/-- A write behind the last one. -/
theorem snoc (hl : Holds f k l) (hj : j = k + l.length) :
    Holds (Function.update f j c) k (l ++ [c]) := by
  refine (hl.update_of_ge hj.ge).append ?_
  intro i d hd
  obtain ⟨hi, rfl⟩ := List.getElem?_eq_some_iff.mp hd
  have hzero : i = 0 := by simpa using hi
  subst hzero
  rw [hj]
  simp

end Holds

open XmodemPacket Transfer

/-- In the middle of a packet: its bytes so far are in `seq`, in the buffer and
in the two checksums. -/
structure Receiving (destsz : U32) (s : Xmodem) (total size : ℕ) (bytes : List U8) : Prop where
  pc : s.pc = .packet
  pktsize : s.pktsize = size
  rxsize : s.rxsize = bytes.length - 2
  trychar : s.trychar = 0#8
  seq : Holds s.seq 0 (bytes.take 2)
  partialCrc : s.partialCrc = crc16Ccitt (payloadOf size bytes)
  bufCrc : ∀ c, bytes[size + 2]? = some c → s.bufCrc = c.setWidth 16 <<< 8
  stored : total + size ≤ destsz.toNat → Holds s.dest total (payloadOf size bytes)

namespace Transfer

/-- The value that is returned at the end of a transfer. -/
def ret (t : Transfer) : XmodemEnd → ℤ
  | .eot => if BitVec.ofNat 32 t.total = 0#32 then -2 else (BitVec.ofNat 32 t.total).toInt
  | .cancelled => -1
  | .tooManyRetries => -3
  | .outOfSync => -2

/-- Where the code is. -/
def At (destsz : U32) (s : Xmodem) (t : Transfer) : Prop :=
  match t.mode with
  | .idle => s.pc = .control
  | .cancelling => s.pc = .cancel
  | .receiving size bytes => Receiving destsz s t.total size bytes
  | .draining => s.pc = .flush none
  | .ended e => s.pc = .flush (some (t.ret e)) ∨ s.pc = .done (t.ret e)

end Transfer

/-- The counters and the buffer are those of the transfer. -/
structure Tracks (destsz : U32) (s : Xmodem) (t : Transfer) : Prop where
  seqnum : s.seqnum = t.expected
  totalbytes : s.totalbytes = BitVec.ofNat 32 t.total
  buf : s.buf = t.total
  retry : s.retry = maxretrans - t.duplicates
  trychar : t.accepted ≠ [] → s.trychar = 0#8
  content : t.total ≤ destsz.toNat → Holds s.dest 0 t.content
  stores : t.total < 2 ^ 31 - 1024 → ∀ k ∈ s.stores, 0 ≤ k ∧ k < destsz.toNat

/-- **The refinement.** -/
structure Refines (destsz : U32) (s : Xmodem) (t : Transfer) : Prop extends Tracks destsz s t where
  mode : t.At destsz s

variable {destsz : U32} {s s' : Xmodem} {t : Transfer} {p : XmodemPacket}

/-! ## Counters -/

namespace Tracks

/-- A step that leaves the counters and the buffer alone. -/
theorem of_frame (h : Tracks destsz s t) {m : TransferMode}
    (hseqnum : s'.seqnum = s.seqnum) (htotal : s'.totalbytes = s.totalbytes)
    (hbuf : s'.buf = s.buf) (hretry : s'.retry = s.retry)
    (htrychar : s'.trychar = s.trychar ∨ s'.trychar = 0#8) (hdest : s'.dest = s.dest)
    (hstores : s'.stores = s.stores) : Tracks destsz s' { t with mode := m } where
  seqnum := hseqnum.trans h.seqnum
  totalbytes := htotal.trans h.totalbytes
  buf := hbuf.trans h.buf
  retry := hretry.trans h.retry
  trychar := fun hne => htrychar.elim (fun he => he.trans (h.trychar hne)) id
  content := by
    rw [hdest]
    exact h.content
  stores := by
    rw [hstores]
    exact h.stores

/-- The capacity test. -/
theorem guard_toNat (h : Tracks destsz s t) (size : ℕ) :
    (s.totalbytes + BitVec.ofInt 32 (size : ℤ)).toNat = (t.total + size) % 2 ^ 32 := by
  rw [h.totalbytes, BitVec.ofInt_natCast, BitVec.toNat_add, BitVec.toNat_ofNat,
    BitVec.toNat_ofNat, ← Nat.add_mod]

/-- A store behind the accepted payloads that passed the capacity test. It is inside of the buffer,
and none of the bytes that count is overwritten. -/
theorem store (h : Tracks destsz s t) {size i : ℕ} (c : U8) {m : TransferMode}
    (hsize : PayloadSize size) (hi : i < size)
    (hfits : (s.totalbytes + BitVec.ofInt 32 (size : ℤ)).toNat ≤ destsz.toNat) :
    Tracks destsz (s.store (s.buf + i) c) { t with mode := m } where
  seqnum := h.seqnum
  totalbytes := h.totalbytes
  buf := h.buf
  retry := h.retry
  trychar := h.trychar
  content := by
    intro hle
    refine (h.content hle).update_of_ge ?_
    rw [length_content, h.buf]
    omega
  stores := by
    intro hlt k hk
    rcases List.mem_cons.mp hk with rfl | hk
    · have hsize' : size ≤ 1024 := by
        rcases hsize with rfl | rfl <;> decide
      have htotal : t.total < 2 ^ 31 - 1024 := hlt
      rw [h.guard_toNat, Nat.mod_eq_of_lt (by omega)] at hfits
      rw [h.buf]
      omega
    · exact h.stores hlt k hk

end Tracks

/-! ## Packets -/

namespace Receiving

variable {total size : ℕ} {bytes : List U8} {c : U8}

theorem rxsize_snoc (h : Receiving destsz s total size bytes) :
    s.rxsize + 1 = ((bytes ++ [c]).length : ℤ) - 2 := by
  rw [h.rxsize, List.length_append, List.length_singleton]
  omega

/-- A byte of the header. -/
theorem header (h : Receiving destsz s total size bytes) (hhead : bytes.length < 2) :
    Receiving destsz { s with seq := Function.update s.seq (2 + s.rxsize) c }.next total size
      (bytes ++ [c]) := by
  have hpayload : payloadOf size (bytes ++ [c]) = payloadOf size bytes := by
    rw [payloadOf_header hhead, payloadOf, List.drop_eq_nil_of_le hhead.le, List.take_nil]
  refine {
    pc := h.pc, pktsize := h.pktsize, rxsize := h.rxsize_snoc, trychar := h.trychar, seq := ?_
    partialCrc := h.partialCrc.trans (congrArg crc16Ccitt hpayload).symm
    bufCrc := fun d hd => ?_, stored := ?_ }
  · have hseq := h.seq
    rw [List.take_of_length_le (by simpa using hhead)]
    rw [List.take_of_length_le hhead.le] at hseq
    refine hseq.snoc ?_
    rw [h.rxsize]
    omega
  · rw [List.getElem?_eq_none (by simp; omega)] at hd
    cases hd
  · rw [hpayload]
    exact h.stored

/-- A byte of the payload; it is in the buffer if the packet fits. Otherwise the code reads on, and
does not store what it reads. -/
theorem payload (h : Receiving destsz s total size bytes) (hhead : 2 ≤ bytes.length)
    (hbody : bytes.length < size + 2) (hpc : s'.pc = s.pc) (hpktsize : s'.pktsize = s.pktsize)
    (hrxsize : s'.rxsize = s.rxsize) (htrychar : s'.trychar = s.trychar) (hseq : s'.seq = s.seq)
    (hcrc : s'.partialCrc = s.partialCrc)
    (hdest : total + size ≤ destsz.toNat →
      s'.dest = Function.update s.dest (total + (bytes.length - 2)) c) :
    Receiving destsz { s' with partialCrc := crc16CcittUpdate s'.partialCrc c }.next total size
      (bytes ++ [c]) := by
  have hpayload : payloadOf size (bytes ++ [c]) = payloadOf size bytes ++ [c] :=
    payloadOf_snoc hhead hbody c
  refine {
    pc := hpc.trans h.pc, pktsize := hpktsize.trans h.pktsize
    rxsize := (congrArg (· + 1) hrxsize).trans h.rxsize_snoc
    trychar := htrychar.trans h.trychar, seq := ?_, partialCrc := ?_
    bufCrc := fun d hd => ?_, stored := fun hle => ?_ }
  · rw [List.take_append_of_le_length hhead]
    exact hseq ▸ h.seq
  · rw [hpayload, crc16Ccitt, List.foldl_append, ← crc16Ccitt, ← h.partialCrc, ← hcrc]
    rfl
  · rw [List.getElem?_eq_none (by simp; omega)] at hd
    cases hd
  · rw [hpayload]
    have hstored := (h.stored hle).snoc (j := total + (bytes.length - 2)) (c := c) (by
      rw [length_payloadOf]
      omega)
    rw [← hdest hle] at hstored
    exact hstored

/-- The high byte of the checksum. -/
theorem crc (h : Receiving destsz s total size bytes) (hlast : bytes.length = size + 2) :
    Receiving destsz { s with bufCrc := c.setWidth 16 <<< 8 }.next total size (bytes ++ [c]) := by
  have hpayload : payloadOf size (bytes ++ [c]) = payloadOf size bytes := payloadOf_full hlast.ge c
  refine {
    pc := h.pc, pktsize := h.pktsize, rxsize := h.rxsize_snoc, trychar := h.trychar, seq := ?_
    partialCrc := h.partialCrc.trans (congrArg crc16Ccitt hpayload).symm
    bufCrc := fun d hd => ?_, stored := ?_ }
  · rw [List.take_append_of_le_length (by omega)]
    exact h.seq
  · rw [← hlast, List.getElem?_concat_length, Option.some.injEq] at hd
    rw [← hd]
    rfl
  · rw [hpayload]
    exact h.stored

theorem shiftLeft_or_eq_append (hi lo : U8) :
    (hi.setWidth 16 <<< 8) ||| lo.setWidth 16 = hi ++ lo := by
  refine BitVec.eq_of_getLsbD_eq fun i hi' => ?_
  rw [BitVec.getLsbD_append, BitVec.getLsbD_or, BitVec.getLsbD_shiftLeft, BitVec.getLsbD_setWidth,
    BitVec.getLsbD_setWidth]
  by_cases hlow : i < 8
  · simp [hlow, hi']
  · have hlt : i - 8 < 16 := by omega
    simp [hlow, hi', BitVec.getLsbD_of_ge lo i (Nat.le_of_not_lt hlow), hlt]

/-- What the code has of a packet after its last byte: the two numbers, the payload and both bytes
of the checksum. -/
theorem last (h : Receiving destsz s total size bytes) (hlast : bytes.length + 1 = size + 4)
    (hp : p = .ofBytes size (bytes ++ [c])) :
    s.seq 0 = p.seq ∧ s.seq 1 = p.inv ∧ s.bufCrc ||| c.setWidth 16 = p.crc ∧
      s.partialCrc = crc16Ccitt p.payload ∧ p.payload = payloadOf size bytes := by
  have hget : ∀ i (hi : i < bytes.length) (d : U8), (bytes ++ [c]).getD i d = bytes[i] := by
    intro i hi d
    rw [List.getD_eq_getElem?_getD, List.getElem?_append_left hi, List.getElem?_eq_getElem hi]
    rfl
  have hseq : ∀ (i : ℕ) (hi : i < bytes.length), i < 2 → s.seq i = bytes[i] := by
    intro i hi htwo
    have hholds := h.seq i bytes[i] (by
      rw [List.getElem?_take_of_lt htwo, List.getElem?_eq_getElem hi])
    rwa [zero_add] at hholds
  have hpayload : payloadOf size (bytes ++ [c]) = payloadOf size bytes :=
    payloadOf_full (by omega) c
  have hhi : size + 2 < bytes.length := by omega
  rw [hp]
  refine ⟨?_, ?_, ?_, h.partialCrc.trans (congrArg crc16Ccitt hpayload).symm, hpayload⟩
  · exact (hseq 0 (by omega) (by omega)).trans (hget 0 (by omega) _).symm
  · exact (hseq 1 (by omega) (by omega)).trans (hget 1 (by omega) _).symm
  · have hhigh := h.bufCrc bytes[size + 2] (List.getElem?_eq_getElem hhi)
    have hlow : (bytes ++ [c]).getD (size + 3) 0#8 = c := by
      have heq : size + 3 = bytes.length := by omega
      rw [List.getD_eq_getElem?_getD, heq,
        List.getElem?_concat_length]
      rfl
    simp only [XmodemPacket.ofBytes]
    rw [hlow, hget (size + 2) hhi, hhigh]
    exact shiftLeft_or_eq_append _ _

end Receiving

namespace Tracks

/-- A packet is accepted. -/
theorem accept (h : Tracks destsz s t) (hpktsize : s.pktsize = p.payload.length)
    (htrychar : s.trychar = 0#8)
    (hstored : t.total + p.payload.length ≤ destsz.toNat → Holds s.dest t.total p.payload)
    (hseqnum : s'.seqnum = s.seqnum + 1#8)
    (htotal : s'.totalbytes = s.totalbytes + BitVec.ofInt 32 s.pktsize)
    (hbuf : s'.buf = s.buf + s.pktsize) (hretry : s'.retry = maxretrans)
    (htrychar' : s'.trychar = s.trychar) (hdest : s'.dest = s.dest)
    (hstores : s'.stores = s.stores) :
    Tracks destsz s' { mode := .idle, accepted := t.accepted ++ [p], duplicates := 0 } := by
  have hsum : total { mode := .idle, accepted := t.accepted ++ [p], duplicates := 0 } =
      t.total + p.payload.length := by
    simp [total]
  have hcontent :
      Transfer.content { mode := .idle, accepted := t.accepted ++ [p], duplicates := 0 } =
        t.content ++ p.payload := by
    simp [Transfer.content]
  refine {
    seqnum := ?_, totalbytes := ?_, buf := ?_, retry := hretry
    trychar := fun _ => htrychar'.trans htrychar
    content := fun hle => ?_, stores := fun hlt => ?_ }
  · rw [hseqnum, h.seqnum, expected, expected, List.length_append, List.length_singleton,
      BitVec.ofNat_add (t.accepted.length + 1)]
  · rw [htotal, hsum, h.totalbytes, hpktsize, BitVec.ofNat_add, BitVec.ofInt_natCast]
  · rw [hbuf, hsum, h.buf, hpktsize, Nat.cast_add]
  · rw [hsum] at hle
    rw [hcontent, hdest]
    refine (h.content (by omega)).append ?_
    rw [length_content, zero_add]
    exact hstored hle
  · rw [hsum] at hlt
    rw [hstores]
    exact h.stores (by omega)

end Tracks

namespace Refines

theorem receiving (h : Refines destsz s t) {size : ℕ} {bytes : List U8}
    (hmode : t.mode = .receiving size bytes) : Receiving destsz s t.total size bytes := by
  have hm := h.mode
  rwa [At, hmode] at hm

/-- A packet begins. -/
theorem startRecv (h : Refines destsz s t) (size : ℕ) :
    Refines destsz (s.startRecv size) { t with mode := .receiving size [] } := by
  have hpayload : payloadOf size [] = [] := List.take_nil
  refine ⟨h.toTracks.of_frame rfl rfl rfl rfl (.inr rfl) rfl rfl, ?_⟩
  exact {
    pc := rfl, pktsize := rfl, rxsize := rfl, trychar := rfl, seq := .nil
    partialCrc := (congrArg crc16Ccitt hpayload).symm
    bufCrc := nofun
    stored := fun _ => hpayload.symm ▸ .nil }

/-- A control byte. -/
theorem control (h : Refines destsz s t) (c : U8) :
    Refines destsz (s.control c) (t.control c) := by
  rw [Xmodem.control, Transfer.control]
  split_ifs with hsoh hstx heot hzero hcan
  · exact h.startRecv 128
  · exact h.startRecv 1024
  · refine ⟨h.toTracks.of_frame rfl rfl rfl rfl (.inl rfl) rfl rfl, .inr ?_⟩
    rw [h.totalbytes] at hzero
    exact congrArg XmodemPc.done (if_pos hzero).symm
  · refine ⟨h.toTracks.of_frame rfl rfl rfl rfl (.inl rfl) rfl rfl, .inl ?_⟩
    rw [h.totalbytes] at hzero
    have hret : s.totalbytes.toInt = t.ret .eot := by
      rw [h.totalbytes]
      exact (if_neg hzero).symm
    exact congrArg (fun r => XmodemPc.flush (some r)) hret
  · exact ⟨h.toTracks.of_frame rfl rfl rfl rfl (.inl rfl) rfl rfl, rfl⟩
  · exact h

/-- A byte of a packet that is not the last. By cases of how much of the packet has come: its
header, its payload, or half of its checksum. -/
theorem packet_more (h : Refines destsz s t) {size : ℕ} {bytes : List U8} (c : U8)
    (hmode : t.mode = .receiving size bytes) (hsize : PayloadSize size)
    (hmore : bytes.length + 1 < size + 4) :
    Refines destsz (s.packet destsz c) { t with mode := .receiving size (bytes ++ [c]) } := by
  have hr := h.receiving hmode
  rw [Xmodem.packet]
  rcases Nat.lt_or_ge bytes.length 2 with hhead | hhead
  · rw [if_pos (by rw [hr.rxsize]; omega)]
    exact ⟨h.toTracks.of_frame rfl rfl rfl rfl (.inl rfl) rfl rfl, hr.header hhead⟩
  · rw [if_neg (by rw [hr.rxsize]; omega)]
    rcases Nat.lt_or_ge bytes.length (size + 2) with hbody | hbody
    · have hindex : s.rxsize = ((bytes.length - 2 : ℕ) : ℤ) := by
        rw [hr.rxsize]
        omega
      rw [if_pos (by rw [hr.rxsize, hr.pktsize]; omega), hr.pktsize]
      by_cases hfits : (s.totalbytes + BitVec.ofInt 32 (size : ℤ)).toNat ≤ destsz.toNat
      · simp only [if_pos hfits, hindex]
        have hstore := h.toTracks.store (i := bytes.length - 2) (m := t.mode) c hsize
          (by omega) hfits
        refine ⟨hstore.of_frame rfl rfl rfl rfl (.inl rfl) rfl rfl, ?_⟩
        refine hr.payload hhead hbody rfl rfl rfl rfl rfl rfl fun _ => ?_
        rw [← h.buf]
        exact congrArg (fun k => Function.update s.dest (s.buf + k) c) (by omega)
      · simp only [if_neg hfits]
        refine ⟨h.toTracks.of_frame rfl rfl rfl rfl (.inl rfl) rfl rfl, ?_⟩
        refine hr.payload hhead hbody rfl rfl rfl rfl rfl rfl fun hle => absurd ?_ hfits
        rw [h.guard_toNat, Nat.mod_eq_of_lt (hle.trans_lt destsz.isLt)]
        exact hle
    · have hlast : bytes.length = size + 2 := by omega
      rw [if_neg (by rw [hr.rxsize, hr.pktsize]; omega),
        if_pos (by rw [hr.rxsize, hr.pktsize]; omega)]
      exact ⟨h.toTracks.of_frame rfl rfl rfl rfl (.inl rfl) rfl rfl, hr.crc hlast⟩

/-- The tests after the last byte of a packet decide as the transfer does: a damaged packet, a
duplicate, one out of sync, or the next one. -/
theorem check (h : Tracks destsz s t) (hseq : s.seq 0 = p.seq) (hinv : s.seq 1 = p.inv)
    (hbufCrc : s.bufCrc = p.crc) (hcrc : s.partialCrc = crc16Ccitt p.payload)
    (hpktsize : s.pktsize = p.payload.length) (htrychar : s.trychar = 0#8)
    (hstored : t.total + p.payload.length ≤ destsz.toNat → Holds s.dest t.total p.payload) :
    Refines destsz s.check (t.judge p) := by
  rw [Xmodem.check, Transfer.judge, verdict, hseq, hinv, hbufCrc, hcrc]
  by_cases hintact : p.Intact
  · rw [if_neg (not_not.mpr hintact.1), if_neg (not_not.mpr hintact.2),
      if_neg (not_not.mpr hintact), h.seqnum]
    by_cases hdup : t.expected.toNat = p.seq.toNat + 1
    · have hretry : s.retry - 1 = maxretrans - (t.duplicates + 1 : ℕ) := by
        rw [h.retry]
        omega
      rw [if_pos hdup, if_pos hdup]
      by_cases hmany : maxretrans ≤ t.duplicates + 1
      · rw [if_pos (by rw [hretry]; omega)]
        simp only [if_pos hmany]
        exact ⟨⟨rfl, h.totalbytes, h.buf, hretry, h.trychar, h.content, h.stores⟩, .inl rfl⟩
      · rw [if_neg (by rw [hretry]; omega)]
        simp only [if_neg hmany]
        exact ⟨⟨rfl, h.totalbytes, h.buf, hretry, h.trychar, h.content, h.stores⟩, rfl⟩
    · rw [if_neg hdup, if_neg hdup]
      by_cases hnext : t.expected = p.seq
      · rw [if_pos hnext, if_pos hnext]
        refine ⟨h.accept hpktsize htrychar hstored ?_ rfl rfl rfl rfl rfl rfl, rfl⟩
        exact congrArg (· + 1#8) h.seqnum.symm
      · rw [if_neg hnext, if_neg hnext]
        exact ⟨h.of_frame rfl rfl rfl rfl (.inl rfl) rfl rfl, .inl rfl⟩
  · rw [if_pos hintact]
    have hnak : Refines destsz ((s.outbyte xmodemNak).flushinput none)
        { t with mode := .draining } :=
      ⟨h.of_frame rfl rfl rfl rfl (.inl rfl) rfl rfl, rfl⟩
    by_cases hcomplement : p.seq = ~~~ p.inv
    · rw [if_neg (not_not.mpr hcomplement), if_pos fun he => hintact ⟨hcomplement, he⟩]
      exact hnak
    · rw [if_pos hcomplement]
      exact hnak

/-- The last byte of a packet. -/
theorem packet_last (h : Refines destsz s t) {size : ℕ} {bytes : List U8} (c : U8)
    (hmode : t.mode = .receiving size bytes) (hlast : bytes.length + 1 = size + 4) :
    Refines destsz (s.packet destsz c) (t.judge (.ofBytes size (bytes ++ [c]))) := by
  have hr := h.receiving hmode
  obtain ⟨hseq, hinv, hbufCrc, hcrc, hpayload⟩ := hr.last hlast (c := c) rfl
  have hlength : (payloadOf size bytes).length = size := by
    rw [length_payloadOf]
    omega
  rw [Xmodem.packet, if_neg (by rw [hr.rxsize]; omega),
    if_neg (by rw [hr.rxsize, hr.pktsize]; omega), if_neg (by rw [hr.rxsize, hr.pktsize]; omega)]
  have htracks : Tracks destsz { s with bufCrc := s.bufCrc ||| c.setWidth 16 } t :=
    h.toTracks.of_frame (m := t.mode) rfl rfl rfl rfl (.inl rfl) rfl rfl
  refine check htracks hseq hinv hbufCrc hcrc ?_ hr.trychar ?_
  · rw [hpayload, hlength]
    exact hr.pktsize
  · rw [hpayload, hlength]
    exact hr.stored

/-- **One call** of `_inbyte`, with a byte or without, from each place where the code waits for one:
the code and the transfer go on together. -/
theorem step (h : Refines destsz s t) (ht : t.Sound) (e : Inbyte) :
    Refines destsz (s.step destsz e) (t.step e) := by
  have hm := h.mode
  cases hmode : t.mode with
  | idle =>
    have hpc : s.pc = .control := by rwa [At, hmode] at hm
    have htry : Refines destsz (if s.trychar ≠ 0#8 then s.outbyte s.trychar else s) t := by
      split_ifs
      · refine ⟨h.toTracks.of_frame (m := t.mode) rfl rfl rfl rfl (.inl rfl) rfl rfl, ?_⟩
        rw [At, hmode]
        exact hpc
      · exact h
    cases e with
    | none =>
      simp only [Xmodem.step, hpc, Transfer.step, hmode]
      exact htry
    | some c =>
      simp only [Xmodem.step, hpc, Transfer.step, hmode]
      exact htry.control c
  | cancelling =>
    have hpc : s.pc = .cancel := by rwa [At, hmode] at hm
    cases e with
    | none =>
      simp only [Xmodem.step, hpc, Transfer.step, hmode]
      exact ⟨h.toTracks.of_frame rfl rfl rfl rfl (.inl rfl) rfl rfl, rfl⟩
    | some c =>
      simp only [Xmodem.step, hpc, Transfer.step, hmode]
      by_cases hcan : c = xmodemCan
      · rw [if_pos hcan, if_pos hcan]
        exact ⟨h.toTracks.of_frame rfl rfl rfl rfl (.inl rfl) rfl rfl, .inl rfl⟩
      · rw [if_neg hcan, if_neg hcan]
        exact ⟨h.toTracks.of_frame rfl rfl rfl rfl (.inl rfl) rfl rfl, rfl⟩
  | receiving size bytes =>
    obtain ⟨hsize, hlength⟩ := ht.receiving size bytes hmode
    have hpc := (h.receiving hmode).pc
    cases e with
    | none =>
      simp only [Xmodem.step, hpc, Transfer.step, hmode]
      exact ⟨h.toTracks.of_frame rfl rfl rfl rfl (.inl rfl) rfl rfl, rfl⟩
    | some c =>
      simp only [Xmodem.step, hpc, Transfer.step, hmode]
      by_cases hmore : bytes.length + 1 < size + 4
      · rw [if_pos hmore]
        exact h.packet_more c hmode hsize hmore
      · rw [if_neg hmore]
        exact h.packet_last c hmode (by omega)
  | draining =>
    have hpc : s.pc = .flush none := by rwa [At, hmode] at hm
    cases e with
    | none =>
      simp only [Xmodem.step, hpc, Transfer.step, hmode]
      exact ⟨h.toTracks.of_frame rfl rfl rfl rfl (.inl rfl) rfl rfl, rfl⟩
    | some c =>
      simp only [Xmodem.step, hpc, Transfer.step, hmode]
      exact h
  | ended o =>
    have hpc : s.pc = .flush (some (t.ret o)) ∨ s.pc = .done (t.ret o) := by rwa [At, hmode] at hm
    have hdone : Refines destsz { s with pc := .done (t.ret o) } t := by
      refine ⟨h.toTracks.of_frame (m := t.mode) rfl rfl rfl rfl (.inl rfl) rfl rfl, ?_⟩
      rw [At, hmode]
      exact .inr rfl
    cases e with
    | none =>
      rcases hpc with hpc | hpc
      · simp only [Xmodem.step, hpc, Transfer.step, hmode]
        exact hdone
      · simp only [Xmodem.step, hpc, Transfer.step, hmode]
        exact h
    | some c =>
      rcases hpc with hpc | hpc
      · simp only [Xmodem.step, hpc, Transfer.step, hmode]
        exact h
      · simp only [Xmodem.step, hpc, Transfer.step, hmode]
        exact h

end Refines

/-- At the beginning. -/
theorem refines_start (destsz : U32) (s : Xmodem) : Refines destsz s.start Transfer.init where
  seqnum := rfl
  totalbytes := rfl
  buf := rfl
  retry := rfl
  trychar := fun hne => absurd rfl hne
  content := fun _ => .nil
  stores := nofun
  mode := rfl

/-- **The code follows the transfer** on any input. -/
theorem refines_xmodem (destsz : U32) (s : Xmodem) (l : List Inbyte) :
    Refines destsz (xmodemReceive destsz s l) (xmodemTransfer l) := by
  have hrun := Runs.run_sim (R := fun s t => Refines destsz s t ∧ t.Sound)
    (fun s t e hst => ⟨hst.1.step hst.2 e, hst.2.step e⟩)
    (l := l) ⟨refines_start destsz s, nofun, nofun⟩
  exact hrun.1

end ScBl
