import ScBl.Xmodem.Refine

/-!
# What `xmodem_receive` promises

The received content, the capacity of the buffer, and packets that are sent
again because their acknowledgement was lost.
-/

namespace ScBl

open XmodemPacket Transfer

variable {destsz : U32} {s : Xmodem} {l : List Inbyte} {n : ℤ}

theorem xmodemTransfer_append (l l' : List Inbyte) :
    xmodemTransfer (l ++ l') = Runs.run Transfer.step (xmodemTransfer l) l' :=
  Runs.run_append ..

theorem xmodemReceive_append (destsz : U32) (s : Xmodem) (l l' : List Inbyte) :
    xmodemReceive destsz s (l ++ l') =
      Runs.run (Xmodem.step destsz) (xmodemReceive destsz s l) l' :=
  Runs.run_append ..

/-! ## Results -/

/-- The function returns at the end of the transfer. -/
theorem ended_of_done (hdone : (xmodemReceive destsz s l).pc = .done n) :
    ∃ e, (xmodemTransfer l).mode = .ended e ∧ n = (xmodemTransfer l).ret e := by
  have hat := (refines_xmodem destsz s l).mode
  rw [At] at hat
  cases hmode : (xmodemTransfer l).mode with
  | idle => simp [hmode, hdone] at hat
  | cancelling => simp [hmode, hdone] at hat
  | receiving size bytes =>
    rw [hmode] at hat
    have hpc := hat.pc
    simp [hdone] at hpc
  | draining => simp [hmode, hdone] at hat
  | ended e =>
    refine ⟨e, rfl, ?_⟩
    simpa [hmode, hdone] using hat

/-- The function returns when nothing comes any more. -/
theorem done_of_ended {e : XmodemEnd} (hmode : (xmodemTransfer l).mode = .ended e) :
    (xmodemReceive destsz s (l ++ [none])).pc = .done ((xmodemTransfer l).ret e) := by
  have hat := (refines_xmodem destsz s l).mode
  rw [At, hmode] at hat
  rw [xmodemReceive_append, Runs.run, Runs.run]
  rcases hat with hpc | hpc
  · simp only [Xmodem.step, hpc]
  · simp only [Xmodem.step, hpc]

/-- The total as an `int`: a total that wraps to 0 is an error, and one past the largest `int` is
negative. -/
theorem ret_eot (t : Transfer) :
    t.ret .eot =
      if t.total % 2 ^ 32 = 0 then -2
      else if t.total % 2 ^ 32 < 2 ^ 31 then ((t.total % 2 ^ 32 : ℕ) : ℤ)
      else ((t.total % 2 ^ 32 : ℕ) : ℤ) - 2 ^ 32 := by
  have hzero : BitVec.ofNat 32 t.total = 0#32 ↔ t.total % 2 ^ 32 = 0 := by
    rw [← BitVec.toNat_inj, BitVec.toNat_ofNat]
    rfl
  rw [ret, BitVec.toInt_eq_toNat_cond, BitVec.toNat_ofNat]
  simp only [hzero]
  split_ifs with h0 h1 h2 h2
  · rfl
  · rfl
  · omega
  · omega
  · rfl

/-- A result that is no error is the total of a transfer that was ended by its sender. -/
theorem eot_of_nonneg (hdone : (xmodemReceive destsz s l).pc = .done n) (hn : 0 ≤ n) :
    (xmodemTransfer l).mode = .ended .eot ∧ (xmodemTransfer l).total % 2 ^ 32 ≠ 0 ∧
      (xmodemTransfer l).total % 2 ^ 32 < 2 ^ 31 ∧
      n = ((xmodemTransfer l).total % 2 ^ 32 : ℕ) := by
  obtain ⟨e, hmode, hret⟩ := ended_of_done hdone
  cases e with
  | eot =>
    rw [ret_eot] at hret
    split_ifs at hret with hzero hpositive
    · omega
    · exact ⟨hmode, hzero, hpositive, hret⟩
    · omega
  | cancelled =>
    rw [ret] at hret
    omega
  | tooManyRetries =>
    rw [ret] at hret
    omega
  | outOfSync =>
    rw [ret] at hret
    omega

/-! ## A transfer of zeros -/

/-- A packet of zeros. -/
def xmodemZeros (seq : U8) : XmodemPacket where
  seq := seq
  inv := ~~~ seq
  payload := List.replicate 128 0#8
  crc := 0#16

theorem crc16Ccitt_zeros (n : ℕ) : crc16Ccitt (List.replicate n 0#8) = 0#16 := by
  induction n with
  | zero => rfl
  | succ n ih =>
    have hzero : crc16CcittUpdate 0#16 0#8 = 0#16 := by decide
    rw [List.replicate_succ, crc16Ccitt, List.foldl_cons, hzero]
    exact ih

theorem intact_xmodemZeros (seq : U8) : (xmodemZeros seq).Intact :=
  ⟨(BitVec.not_not (b := seq)).symm, (crc16Ccitt_zeros 128).symm⟩

/-- The first `n` packets of a transfer of zeros. -/
def xmodemZerosLine (n : ℕ) : List Inbyte :=
  (List.range n).flatMap fun i => (xmodemZeros (BitVec.ofNat 8 (i + 1))).line

theorem xmodemTransfer_zerosLine (n : ℕ) :
    xmodemTransfer (xmodemZerosLine n) =
      { mode := .idle
        accepted := (List.range n).map fun i => xmodemZeros (BitVec.ofNat 8 (i + 1))
        duplicates := 0 } := by
  induction n with
  | zero => rfl
  | succ n ih =>
    have hseq : (xmodemZeros (BitVec.ofNat 8 (n + 1))).seq =
        (xmodemTransfer (xmodemZerosLine n)).expected := by
      rw [ih, expected, List.length_map, List.length_range]
      rfl
    have hidle : (xmodemTransfer (xmodemZerosLine n)).mode = .idle := by rw [ih]
    rw [xmodemZerosLine, List.range_succ, List.flatMap_append, ← xmodemZerosLine,
      xmodemTransfer_append, List.flatMap_singleton, run_line hidle (.inl List.length_replicate),
      judge, verdict_of_next (intact_xmodemZeros _) hseq, ih, List.map_append]
    rfl

/-! ## A transfer of one packet -/

/-- The packet, the end of the transfer, and then nothing for a while. -/
def xmodemOnly (p : XmodemPacket) : List Inbyte := p.line ++ [some xmodemEot] ++ [none]

section

variable {p : XmodemPacket} (hintact : p.Intact) (hseq : p.seq = 1#8)
  (hsize : PayloadSize p.payload.length)

include hintact hseq hsize

theorem xmodemTransfer_eot :
    xmodemTransfer (p.line ++ [some xmodemEot]) =
      { mode := .ended .eot, accepted := [p], duplicates := 0 } := by
  have hnext : Transfer.init.verdict p = .next := verdict_of_next hintact hseq
  rw [xmodemTransfer_append, xmodemTransfer, run_line rfl hsize, judge, hnext]
  rfl

/-- Its packet is the only one that is accepted. -/
theorem xmodemTransfer_only :
    xmodemTransfer (xmodemOnly p) =
      { mode := .ended .eot, accepted := [p], duplicates := 0 } := by
  rw [xmodemOnly, xmodemTransfer_append, xmodemTransfer_eot hintact hseq hsize]
  rfl

theorem total_only : (xmodemTransfer (xmodemOnly p)).total = p.payload.length := by
  rw [xmodemTransfer_only hintact hseq hsize]
  simp [total]

/-- Whatever the size of the buffer, the function returns the size of the packet. -/
theorem done_only (destsz : U32) (s : Xmodem) :
    (xmodemReceive destsz s (xmodemOnly p)).pc = .done p.payload.length := by
  have heot := xmodemTransfer_eot hintact hseq hsize
  rw [xmodemOnly, done_of_ended (congrArg Transfer.mode heot), heot, ret_eot]
  rcases hsize with hsize | hsize
  · simp [total, hsize]
  · simp [total, hsize]

end

/-- A transfer of 128 zeros. -/
def xmodemZerosOnly : List Inbyte := xmodemOnly (xmodemZeros 1#8)

theorem total_zerosOnly : (xmodemTransfer xmodemZerosOnly).total = 128 :=
  total_only (intact_xmodemZeros 1#8) rfl (.inl rfl)

theorem done_zerosOnly (destsz : U32) (s : Xmodem) :
    (xmodemReceive destsz s xmodemZerosOnly).pc = .done 128 :=
  done_only (intact_xmodemZeros 1#8) rfl (.inl rfl) destsz s

/-! ## Content -/

/-- **The received content.** A transfer that fits and is not reported as failed has put the
payloads of the accepted packets into the buffer, one after the other, and returns their size.
Packets are accepted intact and in order, a byte changes the count of a transfer only as the last
one of the next packet, and no store is outside the buffer. -/
theorem xmodem_content (destsz : U32) (s : Xmodem) (l : List Inbyte) :
    (destsz.toNat < 2 ^ 31 → (xmodemTransfer l).total ≤ destsz.toNat →
      ∀ n, (xmodemReceive destsz s l).pc = .done n → 0 ≤ n →
        n = (xmodemTransfer l).total ∧
          ∀ (i : ℕ) c, (xmodemTransfer l).content[i]? = some c →
            (xmodemReceive destsz s l).dest i = c) ∧
    (∀ i p, (xmodemTransfer l).accepted[i]? = some p →
      p.Intact ∧ p.seq = BitVec.ofNat 8 (i + 1) ∧
        (p.payload.length = 128 ∨ p.payload.length = 1024)) ∧
    (∀ e,
      (∃ size bytes c, (xmodemTransfer l).mode = .receiving size bytes ∧ e = some c ∧
        bytes.length + 1 = size + 4 ∧
        (xmodemTransfer l).verdict (.ofBytes size (bytes ++ [c])) = .next) ∨
      ((xmodemReceive destsz s (l ++ [e])).seqnum = (xmodemReceive destsz s l).seqnum ∧
        (xmodemReceive destsz s (l ++ [e])).totalbytes =
          (xmodemReceive destsz s l).totalbytes)) ∧
    ((xmodemTransfer l).total < 2 ^ 31 - 1024 →
      ∀ k ∈ (xmodemReceive destsz s l).stores, 0 ≤ k ∧ k < destsz.toNat) := by
  have h := refines_xmodem destsz s l
  have ht := sound_xmodemTransfer l
  refine ⟨fun hdestsz hfits n hdone hn => ?_, ht.accepted, fun e => ?_, h.stores⟩
  · obtain ⟨_, _, _, hret⟩ := eot_of_nonneg hdone hn
    refine ⟨?_, fun i c hc => ?_⟩
    · rwa [Nat.mod_eq_of_lt (by omega)] at hret
    · have hholds := h.content hfits i c hc
      rwa [zero_add] at hholds
  · have h' := refines_xmodem destsz s (l ++ [e])
    have hstep : xmodemTransfer (l ++ [e]) = (xmodemTransfer l).step e :=
      xmodemTransfer_append l [e]
    rw [hstep] at h'
    rcases accepted_step ht e with hsame | ⟨size, bytes, c, hmode, he, hlast, hnext, _⟩
    · right
      rw [h'.seqnum, h'.totalbytes, h.seqnum, h.totalbytes, expected, expected, total, total, hsame]
      exact ⟨rfl, rfl⟩
    · exact .inl ⟨size, bytes, c, hmode, he, hlast, hnext⟩

/-- The first packet of a transfer. -/
def xmodemFirst (payload : List U8) : XmodemPacket where
  seq := 1#8
  inv := ~~~ 1#8
  payload := payload
  crc := crc16Ccitt payload

theorem intact_xmodemFirst (payload : List U8) : (xmodemFirst payload).Intact :=
  ⟨(BitVec.not_not (b := 1#8)).symm, rfl⟩

/-- A packet of the bytes from 0 to 127. -/
def xmodemCount : XmodemPacket := xmodemFirst ((List.range 128).map (BitVec.ofNat 8))

/-- The packet fills the buffer, each byte in its place. -/
theorem xmodem_content_countOnly :
    (xmodemReceive 128#32 default (xmodemOnly xmodemCount)).pc = .done 128 ∧
      ∀ i < 128, (xmodemReceive 128#32 default (xmodemOnly xmodemCount)).dest (i : ℕ) =
        BitVec.ofNat 8 i := by
  have hintact : xmodemCount.Intact := intact_xmodemFirst _
  have hlength : xmodemCount.payload.length = 128 := by simp [xmodemCount, xmodemFirst]
  have hsize : PayloadSize xmodemCount.payload.length := .inl hlength
  have hdone := done_only hintact rfl hsize 128#32 default
  rw [hlength] at hdone
  have hfits : (xmodemTransfer (xmodemOnly xmodemCount)).total ≤ (128#32).toNat := by
    rw [total_only hintact rfl hsize, hlength]
    decide
  obtain ⟨-, hdest⟩ := (xmodem_content 128#32 default (xmodemOnly xmodemCount)).1 (by decide)
    hfits 128 hdone (by decide)
  refine ⟨hdone, fun i hi => hdest i _ ?_⟩
  have hcontent : (xmodemTransfer (xmodemOnly xmodemCount)).content =
      (List.range 128).map (BitVec.ofNat 8) := by
    rw [xmodemTransfer_only hintact rfl hsize, content, List.flatMap_singleton]
    rfl
  rw [hcontent, List.getElem?_map, List.getElem?_range hi]
  rfl

/-! ## Capacity -/

/-- What a result that is no error stands for: all that was accepted is in the
buffer. -/
def NotTruncated (destsz : U32) (s : Xmodem) (t : Transfer) (n : ℤ) : Prop :=
  0 ≤ n → n ≤ destsz.toNat ∧
    ∀ (i : ℕ) c, t.content[i]? = some c → i < destsz.toNat ∧ s.dest i = c

/-- **A truncated transfer** is not reported exactly when the accepted packets
fit, or when it does not end with `EOT` and a total that is positive as an
`int`. -/
theorem notTruncated_iff (hdone : (xmodemReceive destsz s l).pc = .done n) :
    NotTruncated destsz (xmodemReceive destsz s l) (xmodemTransfer l) n ↔
      (xmodemTransfer l).total ≤ destsz.toNat ∨ (xmodemTransfer l).mode ≠ .ended .eot ∨
        (xmodemTransfer l).total % 2 ^ 32 = 0 ∨ 2 ^ 31 ≤ (xmodemTransfer l).total % 2 ^ 32 := by
  have h := refines_xmodem destsz s l
  constructor
  · intro hnot
    by_contra hcond
    push Not at hcond
    obtain ⟨hbig, hmode, hzero, hpositive⟩ := hcond
    obtain ⟨e, hended, hret⟩ := ended_of_done hdone
    rw [hmode] at hended
    obtain rfl : XmodemEnd.eot = e := by simpa using hended
    rw [ret_eot, if_neg hzero, if_pos hpositive] at hret
    have hlast : destsz.toNat < (xmodemTransfer l).content.length := by
      rw [length_content]
      exact hbig
    have hin := (hnot (by omega)).2 destsz.toNat _ (List.getElem?_eq_getElem hlast)
    exact Nat.lt_irrefl _ hin.1
  · intro hcond hn
    obtain ⟨hmode, hzero, hpositive, hret⟩ := eot_of_nonneg hdone hn
    have hfits : (xmodemTransfer l).total ≤ destsz.toNat := by
      rcases hcond with hfits | hcond | hcond | hcond
      · exact hfits
      · exact absurd hmode hcond
      · exact absurd hcond hzero
      · omega
    refine ⟨?_, fun i c hc => ?_⟩
    · rw [hret]
      exact Int.ofNat_le.mpr ((Nat.mod_le _ _).trans hfits)
    · have hholds := h.content hfits i c hc
      obtain ⟨hi, _⟩ := List.getElem?_eq_some_iff.mp hc
      rw [zero_add] at hholds
      rw [length_content] at hi
      exact ⟨by omega, hholds⟩

/-- The packet is twice the size of the buffer. -/
theorem truncated_zerosOnly :
    (xmodemReceive 64#32 default xmodemZerosOnly).pc = .done 128 ∧
      ¬ NotTruncated 64#32 (xmodemReceive 64#32 default xmodemZerosOnly)
        (xmodemTransfer xmodemZerosOnly) 128 :=
  ⟨done_zerosOnly _ _, fun hnot => absurd (hnot (by decide)).1 (by decide)⟩

/-- The packet fills the buffer. -/
theorem notTruncated_zerosOnly :
    NotTruncated 128#32 (xmodemReceive 128#32 default xmodemZerosOnly)
      (xmodemTransfer xmodemZerosOnly) 128 := by
  refine (notTruncated_iff (done_zerosOnly _ _)).mpr (.inl ?_)
  rw [total_zerosOnly]
  decide

/-! ## Packets that are sent again -/

/-- The last accepted packet is sent again: it is acknowledged and discarded,
unless there were too many of it, and it is never out of sync. -/
def ToleratesAgain (destsz : U32) (s : Xmodem) (l : List Inbyte) (p : XmodemPacket) : Prop :=
  ((xmodemTransfer l).duplicates + 1 < maxretrans →
    (xmodemReceive destsz s (l ++ p.line)).pc = .control ∧
    (xmodemReceive destsz s (l ++ p.line)).out =
      (xmodemReceive destsz s l).out ++ [xmodemAck] ∧
    (xmodemReceive destsz s (l ++ p.line)).seqnum = (xmodemReceive destsz s l).seqnum ∧
    (xmodemReceive destsz s (l ++ p.line)).totalbytes = (xmodemReceive destsz s l).totalbytes ∧
    (xmodemReceive destsz s (l ++ p.line)).buf = (xmodemReceive destsz s l).buf ∧
    (xmodemTransfer (l ++ p.line)).accepted = (xmodemTransfer l).accepted) ∧
  (xmodemTransfer (l ++ p.line)).mode ≠ .ended .outOfSync

/-- Nothing is sent in the middle of a packet. By induction on the bytes that come, none of which is
the last of the packet. -/
theorem out_receiving (destsz : U32) (s : Xmodem) {size : ℕ} (rest : List U8) :
    ∀ {l : List Inbyte} {bytes : List U8}, (xmodemTransfer l).mode = .receiving size bytes →
      bytes.length + rest.length < size + 4 →
      (xmodemReceive destsz s (l ++ rest.map some)).out = (xmodemReceive destsz s l).out ∧
        xmodemTransfer (l ++ rest.map some) =
          { xmodemTransfer l with mode := .receiving size (bytes ++ rest) } := by
  induction rest with
  | nil =>
    intro l bytes hmode _
    rw [List.map_nil, List.append_nil, List.append_nil, ← hmode]
    exact ⟨rfl, rfl⟩
  | cons c rest ih =>
    intro l bytes hmode hlength
    rw [List.length_cons] at hlength
    have hr := (refines_xmodem destsz s l).receiving hmode
    have hmore : bytes.length + 1 < size + 4 := by omega
    have hstep : xmodemTransfer (l ++ [some c]) =
        { xmodemTransfer l with mode := .receiving size (bytes ++ [c]) } := by
      rw [xmodemTransfer_append, Runs.run, Runs.run, Transfer.step, hmode]
      simp only [if_pos hmore]
    have hout : (xmodemReceive destsz s (l ++ [some c])).out = (xmodemReceive destsz s l).out := by
      rw [xmodemReceive_append, Runs.run, Runs.run]
      simp only [Xmodem.step, hr.pc]
      refine Xmodem.out_packet ?_
      rw [hr.rxsize, hr.pktsize]
      omega
    rw [List.map_cons, ← List.singleton_append, ← List.append_assoc]
    obtain ⟨hrest, hend⟩ := ih (congrArg Transfer.mode hstep) (by simp; omega)
    rw [hrest, hend, hout, hstep, List.append_assoc]
    exact ⟨rfl, rfl⟩

/-- Up to the last byte of a packet, with what the code has then. -/
theorem last_byte (destsz : U32) (s : Xmodem) {size : ℕ} {front : List U8}
    (hmode : (xmodemTransfer l).mode = .receiving size []) (hlen : front.length + 1 = size + 4)
    (c : U8) : ∃ s',
    xmodemReceive destsz s (l ++ (front ++ [c]).map some) = s'.packet destsz c ∧
      s'.out = (xmodemReceive destsz s l).out ∧
      Refines destsz s' { xmodemTransfer l with mode := .receiving size front } := by
  obtain ⟨hout, hfront⟩ := out_receiving destsz s front hmode (by rw [List.length_nil]; omega)
  rw [List.nil_append] at hfront
  have hrefines := refines_xmodem destsz s (l ++ front.map some)
  rw [hfront] at hrefines
  refine ⟨_, ?_, hout, hrefines⟩
  rw [List.map_append, ← List.append_assoc, xmodemReceive_append, List.map_singleton, Runs.run,
    Runs.run]
  simp only [Xmodem.step, (hrefines.receiving rfl).pc]

/-- The last byte of a duplicate is acknowledged. -/
theorem out_packet_duplicate {t : Transfer} (h : Refines destsz s t) {size : ℕ} {bytes : List U8}
    {c : U8} {p : XmodemPacket} (hmode : t.mode = .receiving size bytes)
    (hlast : bytes.length + 1 = size + 4) (hp : p = .ofBytes size (bytes ++ [c]))
    (hdup : t.verdict p = .duplicate) (hleft : t.duplicates + 1 < maxretrans) :
    (s.packet destsz c).out = s.out ++ [xmodemAck] := by
  have hr := h.receiving hmode
  obtain ⟨hseq, hinv, hbufCrc, hcrc, _⟩ := hr.last hlast hp
  obtain ⟨hintact, hnumber⟩ := verdict_duplicate hdup
  rw [Xmodem.packet, if_neg (by rw [hr.rxsize]; omega),
    if_neg (by rw [hr.rxsize, hr.pktsize]; omega), if_neg (by rw [hr.rxsize, hr.pktsize]; omega),
    Xmodem.check]
  simp only [hseq, hinv, hbufCrc, hcrc]
  rw [if_neg (not_not.mpr hintact.1), if_neg (not_not.mpr hintact.2),
    if_pos (by rw [h.seqnum]; exact hnumber), if_neg (by rw [h.retry]; omega)]
  rfl

/-- A duplicate is acknowledged, and nothing else is sent for the whole packet, from its control
byte to its checksum. -/
theorem out_line {p : XmodemPacket} (hidle : (xmodemTransfer l).mode = .idle)
    (hsome : (xmodemTransfer l).accepted ≠ []) (hsize : PayloadSize p.payload.length)
    (hdup : (xmodemTransfer l).verdict p = .duplicate)
    (hleft : (xmodemTransfer l).duplicates + 1 < maxretrans) :
    (xmodemReceive destsz s (l ++ p.line)).out =
      (xmodemReceive destsz s l).out ++ [xmodemAck] := by
  have h := refines_xmodem destsz s l
  have hpc : (xmodemReceive destsz s l).pc = .control := by
    have hat := h.mode
    rwa [At, hidle] at hat
  -- the control byte
  have hstart : xmodemTransfer (l ++ [some p.controlByte]) =
      { xmodemTransfer l with mode := .receiving p.payload.length [] } := by
    rw [xmodemTransfer_append, Runs.run, Runs.run, Transfer.step, hidle]
    exact control_controlByte hsize
  have houtStart : (xmodemReceive destsz s (l ++ [some p.controlByte])).out =
      (xmodemReceive destsz s l).out := by
    rw [xmodemReceive_append, Runs.run, Runs.run]
    simp only [Xmodem.step, hpc]
    rw [if_neg (not_not.mpr (h.trychar hsome)), Xmodem.control, controlByte]
    rcases hsize with hsize | hsize
    · rw [hsize]
      rfl
    · rw [hsize]
      rfl
  -- the other bytes
  have hbytes : p.bytes =
      (p.seq :: p.inv :: p.payload ++ [p.crc.extractLsb' 8 8]) ++ [p.crc.extractLsb' 0 8] := by
    simp [bytes]
  have hlength : (p.seq :: p.inv :: p.payload ++ [p.crc.extractLsb' 8 8]).length + 1 =
      p.payload.length + 4 := by
    simp
  generalize p.seq :: p.inv :: p.payload ++ [p.crc.extractLsb' 8 8] = front at hbytes hlength
  obtain ⟨s', hlast, hout, hbefore⟩ := last_byte destsz s (congrArg Transfer.mode hstart) hlength
    (p.crc.extractLsb' 0 8)
  have hp : p = .ofBytes p.payload.length (front ++ [p.crc.extractLsb' 0 8]) := by
    rw [← hbytes, p.ofBytes_bytes]
  have hline : l ++ p.line =
      l ++ [some p.controlByte] ++ (front ++ [p.crc.extractLsb' 0 8]).map some := by
    simp [line, hbytes]
  rw [hstart] at hbefore
  rw [hline, hlast, ← houtStart, ← hout]
  exact out_packet_duplicate hbefore rfl hlength hp hdup hleft

/-- What the last accepted packet is taken for when it is sent again: a duplicate, unless its number
is 255, whose successor is compared with 256. -/
theorem verdict_again {t : Transfer} (ht : t.Sound) {p : XmodemPacket}
    (hlast : t.accepted.getLast? = some p) :
    t.verdict p = if t.accepted.length % 256 = 255 then .outOfSync else .duplicate := by
  obtain ⟨front, haccepted⟩ := List.getLast?_eq_some_iff.mp hlast
  have hlength : t.accepted.length = front.length + 1 := by
    rw [haccepted, List.length_append, List.length_singleton]
  obtain ⟨hintact, hseq, _⟩ := ht.accepted front.length p (by
    rw [haccepted, List.getElem?_concat_length])
  have hnumber : p.seq.toNat = t.accepted.length % 256 := by
    rw [hseq, hlength, BitVec.toNat_ofNat]
  have hexpected : t.expected.toNat = (t.accepted.length + 1) % 256 := by
    rw [expected, BitVec.toNat_ofNat]
  rw [verdict, if_neg (not_not.mpr hintact)]
  by_cases hwrap : t.accepted.length % 256 = 255
  · have hne : t.expected ≠ p.seq := by
      intro he
      rw [he, hnumber] at hexpected
      omega
    rw [if_pos hwrap, if_neg (by omega), if_neg hne]
  · rw [if_neg hwrap, if_pos (by omega)]

/-- The last accepted packet, sent again. -/
theorem run_again {p : XmodemPacket} (hidle : (xmodemTransfer l).mode = .idle)
    (hlast : (xmodemTransfer l).accepted.getLast? = some p) :
    PayloadSize p.payload.length ∧ xmodemTransfer (l ++ p.line) = (xmodemTransfer l).judge p := by
  obtain ⟨front, haccepted⟩ := List.getLast?_eq_some_iff.mp hlast
  have hget : (xmodemTransfer l).accepted[front.length]? = some p := by
    rw [haccepted, List.getElem?_concat_length]
  obtain ⟨_, _, hsize⟩ := (sound_xmodemTransfer l).accepted front.length p hget
  exact ⟨hsize, by rw [xmodemTransfer_append, run_line hidle hsize]⟩

/-- The packet with the number 255 is out of sync when it is sent again. -/
theorem outOfSync_again {p : XmodemPacket} (hidle : (xmodemTransfer l).mode = .idle)
    (hlast : (xmodemTransfer l).accepted.getLast? = some p)
    (hwrap : (xmodemTransfer l).accepted.length % 256 = 255) :
    (xmodemTransfer (l ++ p.line)).mode = .ended .outOfSync := by
  have hverdict := verdict_again (sound_xmodemTransfer l) hlast
  rw [if_pos hwrap] at hverdict
  rw [(run_again hidle hlast).2, judge, hverdict]

/-- **A retransmission** of the last accepted packet is tolerated exactly when
the number of accepted packets is not one below a multiple of 256. -/
theorem toleratesAgain_iff {p : XmodemPacket} (hidle : (xmodemTransfer l).mode = .idle)
    (hlast : (xmodemTransfer l).accepted.getLast? = some p) :
    ToleratesAgain destsz s l p ↔ (xmodemTransfer l).accepted.length % 256 ≠ 255 := by
  constructor
  · intro hagain hwrap
    exact hagain.2 (outOfSync_again hidle hlast hwrap)
  · intro hwrap
    have hverdict := verdict_again (sound_xmodemTransfer l) hlast
    rw [if_neg hwrap] at hverdict
    obtain ⟨hsize, hrun⟩ := run_again hidle hlast
    have hjudge : (xmodemTransfer l).judge p =
        { xmodemTransfer l with
          duplicates := (xmodemTransfer l).duplicates + 1
          mode := if maxretrans ≤ (xmodemTransfer l).duplicates + 1 then .ended .tooManyRetries
            else .idle } := by
      rw [judge, hverdict]
    rw [hjudge] at hrun
    have hbefore := refines_xmodem destsz s l
    have hafter := refines_xmodem destsz s (l ++ p.line)
    have hsome : (xmodemTransfer l).accepted ≠ [] := by
      intro hnil
      rw [hnil] at hlast
      cases hlast
    refine ⟨fun hleft => ?_, ?_⟩
    · rw [if_neg (by omega)] at hrun
      have hat := hafter.mode
      rw [hrun] at hat
      refine ⟨hat, out_line hidle hsome hsize hverdict hleft, ?_, ?_, ?_, ?_⟩
      · rw [hafter.seqnum, hbefore.seqnum, hrun]
        rfl
      · rw [hafter.totalbytes, hbefore.totalbytes, hrun]
        rfl
      · rw [hafter.buf, hbefore.buf, hrun]
        rfl
      · rw [hrun]
    · rw [hrun]
      split_ifs <;> simp

/-- The second packet of a transfer is awaited. -/
theorem toleratesAgain_second :
    ToleratesAgain 32768#32 default (xmodemZerosLine 1) (xmodemZeros 1#8) := by
  have htransfer := xmodemTransfer_zerosLine 1
  refine (toleratesAgain_iff ?_ ?_).mpr ?_
  · rw [htransfer]
  · rw [htransfer]
    rfl
  · rw [htransfer]
    decide

/-- The packet with the number 255 is accepted, and its acknowledgement is lost. -/
theorem outOfSync_255 :
    (xmodemTransfer (xmodemZerosLine 255)).mode = .idle ∧
      (xmodemTransfer (xmodemZerosLine 255)).accepted.getLast? = some (xmodemZeros 255#8) ∧
      ¬ ToleratesAgain 32768#32 default (xmodemZerosLine 255) (xmodemZeros 255#8) := by
  have htransfer := xmodemTransfer_zerosLine 255
  have hidle : (xmodemTransfer (xmodemZerosLine 255)).mode = .idle := by rw [htransfer]
  have hlast : (xmodemTransfer (xmodemZerosLine 255)).accepted.getLast? =
      some (xmodemZeros 255#8) := by
    rw [htransfer, List.getLast?_map, List.getLast?_range]
    rfl
  refine ⟨hidle, hlast, fun hagain => hagain.2 (outOfSync_again hidle hlast ?_)⟩
  rw [htransfer, List.length_map, List.length_range]

end ScBl
