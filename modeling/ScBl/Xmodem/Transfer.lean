import ScBl.Xmodem.Receive

/-!
# XMODEM transfers, packet by packet

What `xmodem_receive` does, seen from the line: which packets arrive whole,
which of them are accepted, and how the transfer ends. There is no buffer here
and no size of one. The numbers of packets are compared as the code compares
them.
-/

namespace ScBl

/-- A packet as it comes behind its control byte. -/
structure XmodemPacket where
  seq : U8
  /-- The complement of `seq`. -/
  inv : U8
  payload : List U8
  crc : U16
  deriving DecidableEq, Repr

namespace XmodemPacket

/-- The payload among the first bytes of a packet. -/
def payloadOf (size : ℕ) (bytes : List U8) : List U8 := (bytes.drop 2).take size

/-- The packet with these `size + 4` bytes. -/
def ofBytes (size : ℕ) (bytes : List U8) : XmodemPacket where
  seq := bytes.getD 0 0#8
  inv := bytes.getD 1 0#8
  payload := payloadOf size bytes
  crc := bytes.getD (size + 2) 0#8 ++ bytes.getD (size + 3) 0#8

/-- The bytes of a packet. -/
def bytes (p : XmodemPacket) : List U8 :=
  p.seq :: p.inv :: p.payload ++ [p.crc.extractLsb' 8 8, p.crc.extractLsb' 0 8]

/-- The control byte in front of a packet. -/
def controlByte (p : XmodemPacket) : U8 := if p.payload.length = 128 then xmodemSoh else xmodemStx

/-- A packet that is sent without a pause. -/
def line (p : XmodemPacket) : List Inbyte := some p.controlByte :: p.bytes.map some

/-- The complement and the checksum are right. -/
def Intact (p : XmodemPacket) : Prop := p.seq = ~~~ p.inv ∧ p.crc = crc16Ccitt p.payload

instance (p : XmodemPacket) : Decidable p.Intact :=
  inferInstanceAs (Decidable (_ ∧ _))

end XmodemPacket

/-- How a transfer ends. -/
inductive XmodemEnd
  | eot
  | cancelled
  | tooManyRetries
  | outOfSync
  deriving DecidableEq, Repr

/-- What the receiver is doing. -/
inductive TransferMode
  | idle
  /-- A first `CAN` was received. -/
  | cancelling
  /-- A packet with `size` bytes of payload, and its bytes so far. -/
  | receiving (size : ℕ) (bytes : List U8)
  /-- Drop all input until there is none for a while. -/
  | draining
  | ended (e : XmodemEnd)
  deriving DecidableEq, Repr

/-- What a whole packet is taken for. -/
inductive XmodemVerdict
  | damaged
  | duplicate
  | next
  | outOfSync
  deriving DecidableEq, Repr

/-- A transfer: what the receiver is doing, the packets it accepted, and how
many duplicates there were since the last of them. -/
structure Transfer where
  mode : TransferMode
  accepted : List XmodemPacket
  duplicates : ℕ
  deriving DecidableEq

namespace Transfer

/-- The accepted payloads, one after the other. -/
def content (t : Transfer) : List U8 := t.accepted.flatMap XmodemPacket.payload

/-- The sizes of the accepted packets, summed up. -/
def total (t : Transfer) : ℕ := (t.accepted.map fun p => p.payload.length).sum

/-- The number of the next packet. Packets are numbered from 1. -/
def expected (t : Transfer) : U8 := BitVec.ofNat 8 (t.accepted.length + 1)

def verdict (t : Transfer) (p : XmodemPacket) : XmodemVerdict :=
  if ¬ p.Intact then .damaged
  -- no number is one below 0 here
  else if t.expected.toNat = p.seq.toNat + 1 then .duplicate
  else if t.expected = p.seq then .next
  else .outOfSync

/-- A packet has arrived. -/
def judge (t : Transfer) (p : XmodemPacket) : Transfer :=
  match t.verdict p with
  | .damaged => { t with mode := .draining }
  | .duplicate =>
    { t with
      duplicates := t.duplicates + 1
      mode := if maxretrans ≤ t.duplicates + 1 then .ended .tooManyRetries else .idle }
  | .next => { mode := .idle, accepted := t.accepted ++ [p], duplicates := 0 }
  | .outOfSync => { t with mode := .ended .outOfSync }

/-- The control byte `c`. -/
def control (t : Transfer) (c : U8) : Transfer :=
  if c = xmodemSoh then { t with mode := .receiving 128 [] }
  else if c = xmodemStx then { t with mode := .receiving 1024 [] }
  else if c = xmodemEot then { t with mode := .ended .eot }
  else if c = xmodemCan then { t with mode := .cancelling }
  else t

/-- A byte, or none within its time. -/
def step (t : Transfer) : Inbyte → Transfer
  | some c =>
    match t.mode with
    | .idle => t.control c
    | .cancelling =>
      { t with mode := if c = xmodemCan then .ended .cancelled else .idle }
    | .receiving size bytes =>
      if bytes.length + 1 < size + 4 then { t with mode := .receiving size (bytes ++ [c]) }
      else t.judge (.ofBytes size (bytes ++ [c]))
    | .draining => t
    | .ended _ => t
  | none =>
    match t.mode with
    | .idle => t
    | .cancelling => { t with mode := .idle }
    | .receiving _ _ => { t with mode := .draining }
    | .draining => { t with mode := .idle }
    | .ended _ => t

def init : Transfer where
  mode := .idle
  accepted := []
  duplicates := 0

end Transfer

/-- The transfer after the receiver was given `l`. -/
def xmodemTransfer (l : List Inbyte) : Transfer := Runs.run Transfer.step Transfer.init l

/-! ## Whole packets -/

namespace XmodemPacket

theorem payloadOf_header {size : ℕ} {l : List U8} (h : l.length < 2) (c : U8) :
    payloadOf size (l ++ [c]) = [] := by
  rw [payloadOf, List.drop_eq_nil_of_le (by simpa using h), List.take_nil]

/-- A byte between the header and the checksum is one more byte of the payload. -/
theorem payloadOf_snoc {size : ℕ} {l : List U8} (hlow : 2 ≤ l.length) (hhigh : l.length < size + 2)
    (c : U8) : payloadOf size (l ++ [c]) = payloadOf size l ++ [c] := by
  rw [payloadOf, payloadOf, List.drop_append_of_le_length hlow, List.take_of_length_le,
    List.take_of_length_le]
  · rw [List.length_drop]
    omega
  · rw [List.length_append, List.length_drop, List.length_singleton]
    omega

theorem payloadOf_full {size : ℕ} {l : List U8} (h : size + 2 ≤ l.length) (c : U8) :
    payloadOf size (l ++ [c]) = payloadOf size l := by
  rw [payloadOf, payloadOf, List.drop_append_of_le_length (by omega),
    List.take_append_of_le_length (by rw [List.length_drop]; omega)]

theorem length_payloadOf {size : ℕ} {l : List U8} :
    (payloadOf size l).length = min size (l.length - 2) := by
  rw [payloadOf, List.length_take, List.length_drop]

theorem length_bytes (p : XmodemPacket) : p.bytes.length = p.payload.length + 4 := by
  simp [bytes]

/-- Sent and received. -/
theorem extractLsb'_append (crc : U16) : crc.extractLsb' 8 8 ++ crc.extractLsb' 0 8 = crc := by
  refine BitVec.eq_of_getLsbD_eq fun i hi => ?_
  rw [BitVec.getLsbD_append, BitVec.getLsbD_extractLsb', BitVec.getLsbD_extractLsb']
  by_cases hlow : i < 8
  · simp [hlow]
  · have hlt : i - 8 < 8 := by omega
    have heq : 8 + (i - 8) = i := by omega
    simp [hlow, hlt, heq]

/-- A packet that is sent and put together again is the same one. -/
theorem ofBytes_bytes (p : XmodemPacket) : ofBytes p.payload.length p.bytes = p := by
  obtain ⟨seq, inv, payload, crc⟩ := p
  have hcrc : crc.extractLsb' 8 8 ++ crc.extractLsb' 0 8 = crc := extractLsb'_append crc
  simp [ofBytes, bytes, payloadOf, hcrc]

end XmodemPacket

/-! ## Transfers -/

namespace Transfer

/-- The sizes of payloads. -/
def PayloadSize (size : ℕ) : Prop := size = 128 ∨ size = 1024

/-- **Accepted packets** are intact and numbered one after the other. -/
structure Sound (t : Transfer) : Prop where
  accepted : ∀ i p, t.accepted[i]? = some p →
    p.Intact ∧ p.seq = BitVec.ofNat 8 (i + 1) ∧ PayloadSize p.payload.length
  receiving : ∀ size bytes, t.mode = .receiving size bytes →
    PayloadSize size ∧ bytes.length < size + 4

variable {t : Transfer} {p : XmodemPacket}

theorem length_content : t.content.length = t.total := by
  rw [content, total, List.length_flatMap]

/-- Only an intact packet with the expected number is the next one. -/
theorem verdict_next (h : t.verdict p = .next) : p.Intact ∧ p.seq = t.expected := by
  rw [verdict] at h
  split_ifs at h with hintact hdup hnext
  exact ⟨hintact, hnext.symm⟩

/-- A transfer whose accepted packets are the same. -/
theorem Sound.of_mode (ht : t.Sound) {mode : TransferMode} {duplicates : ℕ}
    (hmode : ∀ size bytes, mode = .receiving size bytes →
      PayloadSize size ∧ bytes.length < size + 4) :
    Sound { mode := mode, accepted := t.accepted, duplicates := duplicates } :=
  ⟨ht.accepted, hmode⟩

/-- **A packet that is judged** keeps the transfer sound: if it is accepted, it is the next one, and
its payload is added. -/
theorem Sound.judge (ht : t.Sound) (hsize : PayloadSize p.payload.length) : (t.judge p).Sound := by
  rw [Transfer.judge]
  cases hverdict : t.verdict p with
  | damaged => exact ht.of_mode nofun
  | duplicate =>
    refine ht.of_mode fun size bytes h => ?_
    split_ifs at h
  | outOfSync => exact ht.of_mode nofun
  | next =>
    obtain ⟨hintact, hseq⟩ := verdict_next hverdict
    refine ⟨fun i q hq => ?_, nofun⟩
    rcases Nat.lt_trichotomy i t.accepted.length with hi | hi | hi
    · rw [List.getElem?_append_left hi] at hq
      exact ht.accepted i q hq
    · rw [hi, List.getElem?_concat_length, Option.some.injEq] at hq
      rw [← hq, hi]
      exact ⟨hintact, hseq, hsize⟩
    · rw [List.getElem?_eq_none (by simpa using hi)] at hq
      cases hq

theorem Sound.control (ht : t.Sound) (c : U8) : (t.control c).Sound := by
  rw [Transfer.control]
  split_ifs
  · refine ht.of_mode fun size bytes h => ?_
    obtain ⟨rfl, rfl⟩ := h
    exact ⟨.inl rfl, by decide⟩
  · refine ht.of_mode fun size bytes h => ?_
    obtain ⟨rfl, rfl⟩ := h
    exact ⟨.inr rfl, by decide⟩
  · exact ht.of_mode nofun
  · exact ht.of_mode nofun
  · exact ht

theorem Sound.step (ht : t.Sound) (e : Inbyte) : (t.step e).Sound := by
  cases e with
  | none =>
    rw [Transfer.step]
    cases t.mode with
    | idle => exact ht
    | cancelling => exact ht.of_mode nofun
    | receiving => exact ht.of_mode nofun
    | draining => exact ht.of_mode nofun
    | ended => exact ht
  | some c =>
    rw [Transfer.step]
    cases hmode : t.mode with
    | idle => exact ht.control c
    | cancelling =>
      refine ht.of_mode fun size bytes h => ?_
      split_ifs at h
    | draining => exact ht
    | ended => exact ht
    | receiving size bytes =>
      obtain ⟨hsize, hlength⟩ := ht.receiving size bytes hmode
      by_cases hmore : bytes.length + 1 < size + 4
      · simp only [if_pos hmore]
        refine ht.of_mode fun size' bytes' h => ?_
        obtain ⟨rfl, rfl⟩ := h
        exact ⟨hsize, by simpa using hmore⟩
      · simp only [if_neg hmore]
        refine ht.judge ?_
        have hpayload : (XmodemPacket.payloadOf size (bytes ++ [c])).length = size := by
          rw [XmodemPacket.length_payloadOf, List.length_append, List.length_singleton]
          omega
        rw [XmodemPacket.ofBytes, hpayload]
        exact hsize

/-- **Every transfer** is sound, whatever comes in, and in whatever order. -/
theorem sound_xmodemTransfer (l : List Inbyte) : (xmodemTransfer l).Sound := by
  refine Runs.run_inv Sound (fun t e ht => ht.step e) ⟨nofun, nofun⟩

theorem judge_withMode (mode : TransferMode) : judge { t with mode := mode } p = t.judge p := by
  have hverdict : verdict { t with mode := mode } p = t.verdict p := rfl
  rw [judge, hverdict, judge]

/-- A duplicate has the number before the expected one, both of them taken as an `int`. -/
theorem verdict_duplicate (h : t.verdict p = .duplicate) :
    p.Intact ∧ t.expected.toNat = p.seq.toNat + 1 := by
  rw [verdict] at h
  split_ifs at h with hintact hdup hnext
  exact ⟨hintact, hdup⟩

/-- A packet with the next number. -/
theorem verdict_of_next (hintact : p.Intact) (hseq : p.seq = t.expected) :
    t.verdict p = .next := by
  rw [verdict, if_neg (not_not.mpr hintact), hseq, if_neg (Nat.succ_ne_self _).symm, if_pos rfl]

/-- What becomes of the accepted packets. -/
theorem accepted_judge :
    (t.judge p).accepted = if t.verdict p = .next then t.accepted ++ [p] else t.accepted := by
  rw [judge]
  cases t.verdict p with
  | damaged => rfl
  | duplicate => rfl
  | next => rfl
  | outOfSync => rfl

/-- **Only a whole packet** that is intact and has the next number is accepted, with its last byte.
Everything else leaves the accepted packets as they are. -/
theorem accepted_step (ht : t.Sound) (e : Inbyte) :
    (t.step e).accepted = t.accepted ∨
      ∃ size bytes c, t.mode = .receiving size bytes ∧ e = some c ∧
        bytes.length + 1 = size + 4 ∧ t.verdict (.ofBytes size (bytes ++ [c])) = .next ∧
        (t.step e).accepted = t.accepted ++ [.ofBytes size (bytes ++ [c])] := by
  cases e with
  | none =>
    left
    rw [step]
    cases t.mode <;> rfl
  | some c =>
    rw [step]
    cases hmode : t.mode with
    | idle =>
      left
      simp only [control]
      split_ifs <;> rfl
    | cancelling => exact .inl rfl
    | draining => exact .inl rfl
    | ended => exact .inl rfl
    | receiving size bytes =>
      obtain ⟨_, hlength⟩ := ht.receiving size bytes hmode
      by_cases hmore : bytes.length + 1 < size + 4
      · simp only [if_pos hmore]
        exact .inl trivial
      · simp only [if_neg hmore, accepted_judge]
        by_cases hnext : t.verdict (.ofBytes size (bytes ++ [c])) = .next
        · rw [if_pos hnext]
          exact .inr ⟨size, bytes, c, rfl, rfl, by omega, hnext, rfl⟩
        · exact .inl (if_neg hnext)

/-- A packet whose last bytes come without a pause is judged. By induction on the bytes that are
left of it. -/
theorem run_receiving {size : ℕ} (rest : List U8) :
    ∀ {t : Transfer} {bytes : List U8}, t.mode = .receiving size bytes →
      bytes.length + rest.length = size + 4 → rest ≠ [] →
      Runs.run step t (rest.map some) = t.judge (.ofBytes size (bytes ++ rest)) := by
  induction rest with
  | nil =>
    intro t bytes _ _ hne
    exact absurd rfl hne
  | cons c rest ih =>
    intro t bytes hmode hlength _
    rw [List.map_cons, Runs.run, step, hmode]
    rw [List.length_cons] at hlength
    cases rest with
    | nil =>
      rw [List.length_nil] at hlength
      have hlast : ¬ bytes.length + 1 < size + 4 := by omega
      simp only [if_neg hlast]
      rfl
    | cons d rest =>
      rw [List.length_cons] at hlength
      have hmore : bytes.length + 1 < size + 4 := by omega
      simp only [if_pos hmore]
      rw [ih rfl (by simp; omega) (List.cons_ne_nil d rest), judge_withMode, List.append_assoc]
      rfl

theorem control_controlByte (hsize : PayloadSize p.payload.length) :
    t.control p.controlByte = { t with mode := .receiving p.payload.length [] } := by
  rw [control, XmodemPacket.controlByte]
  rcases hsize with h | h
  · rw [h]
    rfl
  · rw [h]
    rfl

/-- **A packet** that arrives while the receiver waits for one. -/
theorem run_line (hmode : t.mode = .idle) (hsize : PayloadSize p.payload.length) :
    Runs.run step t p.line = t.judge p := by
  have hstart : t.step (some p.controlByte) =
      { t with mode := .receiving p.payload.length [] } := by
    simp only [step, hmode]
    exact control_controlByte hsize
  rw [XmodemPacket.line, Runs.run, hstart,
    run_receiving p.bytes rfl (by rw [p.length_bytes]; exact Nat.zero_add _)
      (by simp [XmodemPacket.bytes]),
    List.nil_append, p.ofBytes_bytes, judge_withMode]

end Transfer

end ScBl
