import ScBl.Crc
import ScBl.Lib.Runs
import Mathlib.Logic.Function.Basic

/-!
# The XMODEM receiver (`xmodem.c`)

`xmodem_receive` is a machine that is fed with what its calls of `_inbyte`
return, one step a call. What is sent and where `dest` is written to is logged.
The arithmetic of `int totalbytes` wraps around.
-/

namespace ScBl

/-- What a call of `_inbyte` returns: a byte, or none within its time. -/
abbrev Inbyte : Type := Option U8

def xmodemSoh : U8 := 0x01#8
def xmodemStx : U8 := 0x02#8
def xmodemEot : U8 := 0x04#8
def xmodemAck : U8 := 0x06#8
def xmodemNak : U8 := 0x15#8
def xmodemCan : U8 := 0x18#8

/-- `MAXRETRANS` -/
def maxretrans : ℤ := 25

/-- Which call of `_inbyte` is made. -/
inductive XmodemPc
  /-- Wait for a control byte. -/
  | control
  /-- The byte after `CAN`. -/
  | cancel
  /-- A byte of a packet. -/
  | packet
  /-- `flushinput`, then the function returns `ret` or waits for a control byte. -/
  | flush (ret : Option ℤ)
  /-- The function has returned. -/
  | done (ret : ℤ)
  deriving DecidableEq, Inhabited, Repr

/-- The variables of `xmodem_receive`, the memory from `dest` on, and the logs. -/
structure Xmodem where
  pc : XmodemPc
  trychar : U8
  /-- `buf - dest` -/
  buf : ℤ
  partialCrc : U16
  seq : ℤ → U8
  seqnum : U8
  bufCrc : U16
  pktsize : ℤ
  rxsize : ℤ
  totalbytes : U32
  retry : ℤ
  dest : ℤ → U8
  /-- What was sent, the latest last. -/
  out : List U8
  /-- The `k` of the stores to `dest[k]`, the latest first. -/
  stores : List ℤ
  deriving Inhabited

namespace Xmodem

/-- `_outbyte` -/
def outbyte (s : Xmodem) (c : U8) : Xmodem := { s with out := s.out ++ [c] }

/-- `flushinput`, and what comes after it. -/
def flushinput (s : Xmodem) (ret : Option ℤ) : Xmodem := { s with pc := .flush ret }

/-- `xmodem_send_can`, and what comes after it. -/
def sendCan (s : Xmodem) (ret : ℤ) : Xmodem :=
  (((s.outbyte xmodemCan).outbyte xmodemCan).outbyte xmodemCan).flushinput (some ret)

/-- `dest[k] = c` -/
def store (s : Xmodem) (k : ℤ) (c : U8) : Xmodem :=
  { s with dest := Function.update s.dest k c, stores := k :: s.stores }

/-- The beginning of a packet, up to `start_recv` and after it. -/
def startRecv (s : Xmodem) (size : ℤ) : Xmodem :=
  { s with pktsize := size, partialCrc := 0#16, rxsize := -2, trychar := 0#8, pc := .packet }

/-- The control byte `c`. -/
def control (s : Xmodem) (c : U8) : Xmodem :=
  if c = xmodemSoh then s.startRecv 128
  else if c = xmodemStx then s.startRecv 1024
  else if c = xmodemEot then
    if s.totalbytes = 0#32 then { s with pc := .done (-2) }
    else (s.outbyte xmodemAck).flushinput (some s.totalbytes.toInt)
  else if c = xmodemCan then { s with pc := .cancel }
  else s

/-- The tests after the last byte of a packet. -/
def check (s : Xmodem) : Xmodem :=
  if s.seq 0 ≠ ~~~ s.seq 1 then (s.outbyte xmodemNak).flushinput none
  else if s.bufCrc ≠ s.partialCrc then (s.outbyte xmodemNak).flushinput none
  -- `seqnum == seq[0] + 1` compares values of type `int`
  else if s.seqnum.toNat = (s.seq 0).toNat + 1 then
    if s.retry - 1 ≤ 0 then { s with retry := s.retry - 1 }.sendCan (-3)
    else { s with retry := s.retry - 1, pc := .control }.outbyte xmodemAck
  else if s.seqnum = s.seq 0 then
    { s with
      seqnum := s.seqnum + 1#8
      buf := s.buf + s.pktsize
      totalbytes := s.totalbytes + BitVec.ofInt 32 s.pktsize
      retry := maxretrans
      pc := .control }.outbyte xmodemAck
  else s.sendCan (-2)

/-- `++rxsize` -/
def next (s : Xmodem) : Xmodem := { s with rxsize := s.rxsize + 1 }

/-- The byte `c` of a packet. -/
def packet (destsz : U32) (s : Xmodem) (c : U8) : Xmodem :=
  if s.rxsize < 0 then { s with seq := Function.update s.seq (2 + s.rxsize) c }.next
  else if s.rxsize < s.pktsize then
    let s :=
      -- the sum is converted to `unsigned`
      if (s.totalbytes + BitVec.ofInt 32 s.pktsize).toNat ≤ destsz.toNat then
        s.store (s.buf + s.rxsize) c
      else s
    { s with partialCrc := crc16CcittUpdate s.partialCrc c }.next
  else if s.rxsize = s.pktsize then { s with bufCrc := c.setWidth 16 <<< 8 }.next
  else { s with bufCrc := s.bufCrc ||| c.setWidth 16 }.check

/-- Nothing is sent before the last byte of a packet. -/
theorem out_packet {destsz : U32} {s : Xmodem} {c : U8} (h : s.rxsize ≤ s.pktsize) :
    (s.packet destsz c).out = s.out := by
  rw [packet]
  split_ifs with hheader hpayload hfits hcrc
  · rfl
  · rfl
  · rfl
  · rfl
  · omega

/-- What follows when a call of `_inbyte` returns. -/
def step (destsz : U32) (s : Xmodem) : Inbyte → Xmodem
  | some c =>
    match s.pc with
    | .control =>
      (if s.trychar ≠ 0#8 then s.outbyte s.trychar else s).control c
    | .cancel =>
      if c = xmodemCan then (s.outbyte xmodemAck).flushinput (some (-1))
      else { s with pc := .control }
    | .packet => s.packet destsz c
    | .flush _ => s
    | .done _ => s
  | none =>
    match s.pc with
    | .control => if s.trychar ≠ 0#8 then s.outbyte s.trychar else s
    | .cancel => { s with pc := .control }
    | .packet => (s.outbyte xmodemNak).flushinput none
    | .flush none => { s with pc := .control }
    | .flush (some ret) => { s with pc := .done ret }
    | .done _ => s

/-- The variables that are initialised; the others are what they were. -/
def start (s : Xmodem) : Xmodem :=
  { s with
    pc := .control
    trychar := 0x43#8
    buf := 0
    seqnum := 1#8
    bufCrc := 0#16
    totalbytes := 0#32
    retry := maxretrans
    out := []
    stores := [] }

end Xmodem

/-- `xmodem_receive(dest, destsz)` after its calls of `_inbyte` returned `l`. -/
def xmodemReceive (destsz : U32) (s : Xmodem) (l : List Inbyte) : Xmodem :=
  Runs.run (Xmodem.step destsz) s.start l

end ScBl
