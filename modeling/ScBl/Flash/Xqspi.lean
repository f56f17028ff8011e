import ScBl.Flash.Nor
import ScBl.Lib.Prog
import ScBl.Xlen

/-!
# The QSPI flash driver (`xqspi.c`)

The controller by its registers, and the functions that `xqspi_flash_write` is made of. Bytes
move from the transmit FIFO to the wires while the program runs: before each access to a
register the controller has sent as many as it likes, but it never stops for good.
-/

namespace ScBl

open Progs

/-! ## The controller -/

def xspTxFifoDepth : ℕ := 256
def xspFlashPageSize : ℕ := 256
def xspFlash4kPageSize : ℕ := 4 * 1024

def xspCrEnableMask : U32 := 0x2#32
def xspCrMasterModeMask : U32 := 0x4#32
def xspCrTxfifoResetMask : U32 := 0x20#32
def xspCrRxfifoResetMask : U32 := 0x40#32
def xspCrManualSsMask : U32 := 0x80#32
def xspCrTransInhibitMask : U32 := 0x100#32

def xspSrRxEmptyMask : U32 := 0x1#32
def xspSrErrMask : U32 := 0x7C0#32
def xspIntrTxEmptyMask : U32 := 0x4#32

def xspSrrResetMask : U32 := 0xA#32

/-- The build. -/
class NvramPlf where
  /-- `PLF_NVRAM_CHIPSELECT`, the flash among the slaves -/
  plfNvramChipselect : U32
  chipselect_ne_zero : plfNvramChipselect ≠ 0#32

export NvramPlf (plfNvramChipselect)

def xspSsrEna [NvramPlf] : U32 := ~~~plfNvramChipselect
def xspSsrDis : U32 := ~~~0#32

/-- The registers, by `XSP_…_OFFSET`. -/
inductive XspReg
  | srr | cr | sr | dtr | drr | ssr
  deriving DecidableEq, Repr

/-- The controller with the flash. -/
structure Xqspi where
  cr : U32
  ssr : U32
  /-- The FIFOs, the next byte first. -/
  tx : List U8
  rx : List U8
  flash : Flash
  /-- What comes in where the flash does not care, or is not selected. -/
  noise : ℕ → U8

namespace Xqspi

variable [NvramPlf] (s : Xqspi)

/-- The flash is selected. -/
def selected : Bool := s.ssr &&& plfNvramChipselect = 0#32

/-- Bytes are sent. -/
def running : Bool :=
  s.cr &&& (xspCrEnableMask ||| xspCrMasterModeMask ||| xspCrTransInhibitMask) =
    xspCrEnableMask ||| xspCrMasterModeMask

/-- A FIFO drops what it has no room for. -/
def push (fifo : List U8) (b : U8) : List U8 :=
  if fifo.length < xspTxFifoDepth then fifo ++ [b] else fifo

/-- The next byte goes out, and another comes in. -/
def sendByte : Xqspi :=
  match s.tx with
  | [] => s
  | b :: tx =>
    let noise := fun n => s.noise (n + 1)
    if s.selected then
      let (r, flash) := s.flash.clock b (s.noise 0)
      { s with tx := tx, rx := push s.rx r, flash := flash, noise := noise }
    else { s with tx := tx, rx := push s.rx (s.noise 0), noise := noise }

/-- The controller sends up to `n` bytes. -/
def send : ℕ → Xqspi → Xqspi
  | 0, s => s
  | n + 1, s => if s.running then send n s.sendByte else s

/-- `XSP_SR_OFFSET`: of its bits, those that are looked at. No error comes up. -/
def status : U32 :=
  (if s.rx = [] then xspSrRxEmptyMask else 0#32) |||
    (if s.tx = [] then xspIntrTxEmptyMask else 0#32)

def read : XspReg → U32 × Xqspi
  | .cr => (s.cr, s)
  | .sr => (s.status, s)
  | .ssr => (s.ssr, s)
  | .drr =>
    match s.rx with
    | [] => (0#32, s)
    | b :: rx => (b.setWidth 32, { s with rx := rx })
  | .srr | .dtr => (0#32, s)

/-- The slaves are selected anew. -/
def select (ssr : U32) : Xqspi :=
  { s with
    ssr := ssr
    flash :=
      if s.selected ∧ ¬ selected { s with ssr := ssr } then s.flash.deselect else s.flash }

/-- The bits of the control register that reset a FIFO are gone when that is done. -/
def control (v : U32) : Xqspi :=
  { s with
    cr := v &&& ~~~(xspCrTxfifoResetMask ||| xspCrRxfifoResetMask)
    tx := if v &&& xspCrTxfifoResetMask = 0#32 then s.tx else []
    rx := if v &&& xspCrRxfifoResetMask = 0#32 then s.rx else [] }

def write (v : U32) : XspReg → Xqspi
  | .cr => s.control v
  | .dtr => { s with tx := push s.tx (v.setWidth 8) }
  | .ssr => s.select v
  | .srr =>
    if v = xspSrrResetMask then
      { s.select xspSsrDis with
        cr := xspCrManualSsMask ||| xspCrTransInhibitMask
        tx := []
        rx := [] }
    else s
  | .sr | .drr => s

end Xqspi

/-- How many bytes the controller has sent at each access, never none for good. -/
structure Pace where
  sent : ℕ → ℕ
  goesOn : ∀ n, ∃ m, n ≤ m ∧ 0 < sent m

def Pace.tail (p : Pace) : Pace where
  sent n := p.sent (n + 1)
  goesOn n := by
    obtain ⟨m, hm, hsent⟩ := p.goesOn (n + 1)
    obtain ⟨k, rfl⟩ : ∃ k, m = k + 1 := ⟨m - 1, by omega⟩
    exact ⟨k, by omega, hsent⟩

/-- Programs that drive the controller. -/
abbrev Driver (α : Type) : Type := Prog (Xqspi × Pace) α

variable [NvramPlf]

/-- An access to a register. -/
def access {α : Type} (f : Xqspi → α × Xqspi) : Driver α :=
  act fun (s, p) => ((f (s.send (p.sent 0))).1, (f (s.send (p.sent 0))).2, p.tail)

/-! ## The driver -/

def xqspiReadReg32 (reg : XspReg) : Driver U32 := access (·.read reg)

def xqspiReadReg8 (reg : XspReg) : Driver U8 := do
  let v ← xqspiReadReg32 reg
  pure (v.setWidth 8)

def xqspiWriteReg32 (reg : XspReg) (v : U32) : Driver Unit := access fun s => ((), s.write v reg)

def xqspiGetStatusReg : Driver U32 := xqspiReadReg32 .sr

def xqspiTx32 (v : U32) : Driver Unit := xqspiWriteReg32 .dtr v

def xqspiGetCtrlReg : Driver U32 := xqspiReadReg32 .cr

def xqspiSetCtrlReg (v : U32) : Driver Unit := xqspiWriteReg32 .cr v

def xqspiStart : Driver Unit := do
  let ctrl := (← xqspiGetCtrlReg) &&& ~~~xspCrTransInhibitMask
  xqspiWriteReg32 .ssr xspSsrEna
  xqspiSetCtrlReg (ctrl ||| xspCrEnableMask)

def xqspiStop : Driver Unit := do
  let ctrl := (← xqspiGetCtrlReg) ||| xspCrTransInhibitMask
  xqspiWriteReg32 .ssr xspSsrDis
  xqspiSetCtrlReg (ctrl &&& ~~~xspCrEnableMask)

def xqspiWaitTxDone : Driver ℤ :=
  loop (fun _ : Unit => do
    let status ← xqspiGetStatusReg
    if status &&& xspSrErrMask ≠ 0#32 then pure (.inr (-1))
    else if status &&& xspIntrTxEmptyMask = 0#32 then pure (.inl ())
    else pure (.inr 0)) ()

def xqspiInit : Driver Unit := do
  let ctrl ← xqspiGetCtrlReg
  xqspiSetCtrlReg (ctrl ||| (xspCrTxfifoResetMask ||| xspCrRxfifoResetMask ||| xspCrManualSsMask |||
    xspCrEnableMask ||| xspCrTransInhibitMask ||| xspCrMasterModeMask))

def xqspiResetTxRxFifo : Driver Unit := do
  let ctrl ← xqspiGetCtrlReg
  xqspiSetCtrlReg (ctrl ||| (xspCrTxfifoResetMask ||| xspCrRxfifoResetMask))

def xqspiResetRxFifo : Driver Unit := do
  let ctrl ← xqspiGetCtrlReg
  xqspiSetCtrlReg (ctrl ||| xspCrRxfifoResetMask)

def xqspiReset : Driver Unit := do
  xqspiWriteReg32 .cr (xspCrMasterModeMask ||| xspCrManualSsMask ||| xspCrTxfifoResetMask |||
    xspCrRxfifoResetMask ||| xspCrTransInhibitMask)
  xqspiWriteReg32 .srr xspSrrResetMask
  xqspiWriteReg32 .ssr xspSsrDis
  xqspiWriteReg32 .cr (xspCrMasterModeMask ||| xspCrManualSsMask ||| xspCrTransInhibitMask |||
    xspCrEnableMask)

/-- The loop that reads all that has come in, with the status and the bytes so far. -/
def readRxFifo (status : U32) : Driver (List U8) :=
  loop (fun (status, bytes) =>
    if status &&& xspSrRxEmptyMask ≠ 0#32 then pure (.inr bytes)
    else do
      let b ← xqspiReadReg8 .drr
      let status ← xqspiGetStatusReg
      pure (.inl (status, bytes ++ [b]))) (status, [])

def xqspiFlashCmd (cmd : U8) : Driver Unit := do
  xqspiTx32 (cmd.setWidth 32)
  xqspiStart
  let _ ← xqspiWaitTxDone
  let status ← xqspiGetStatusReg
  let _ ← readRxFifo status

/-- `xqspi_flash_read_status(0)` -/
def xqspiFlashReadStatus : Driver U8 := do
  xqspiTx32 0x05#32
  xqspiTx32 0x00#32
  xqspiStart
  let _ ← xqspiWaitTxDone
  let status ← xqspiGetStatusReg
  let bytes ← readRxFifo status
  xqspiStop
  pure (bytes.getLastD 0#8)

/-- The length and the bytes of the id, of which there is room for `len`. -/
def xqspiFlashGetJedecId (len : ℕ) : Driver (ℤ × List U8) := do
  xqspiTx32 0x9F#32
  loop (fun opCnt =>
    if opCnt < 7 then do
      xqspiTx32 0x00#32
      pure (.inl (opCnt + 1))
    else pure (.inr ())) 0
  xqspiStart
  let _ ← xqspiWaitTxDone
  let status ← xqspiGetStatusReg
  if status &&& xspSrRxEmptyMask ≠ 0#32 then pure (0, [])
  else do
    let bytes ← readRxFifo status
    xqspiStop
    pure ((bytes.length : ℤ) - 1, (bytes.drop 1).take (len - 2))

def xqspiFlashWriteEnable : Driver Unit := do
  xqspiFlashCmd 0x06#8
  xqspiStop

variable {x : Xlen}

/-- The address after a command. -/
def txAddr (addr : x.Word) : Driver Unit := do
  xqspiTx32 ((addr >>> 24).setWidth 32 &&& 0xFF#32)
  xqspiTx32 ((addr >>> 16).setWidth 32 &&& 0xFF#32)
  xqspiTx32 ((addr >>> 8).setWidth 32 &&& 0xFF#32)
  xqspiTx32 (addr.setWidth 32 &&& 0xFF#32)

/-- The loops after an erase and after a page: wait for it to start, and to be done. -/
def waitFlashOp : Driver Unit := do
  loop (fun i => do
    let flashStatus ← xqspiFlashReadStatus
    if i > 100 then pure (.inr ())
    else if flashStatus &&& 0x1#8 = 0#8 then pure (.inl (i + 1))
    else pure (.inr ())) 0
  loop (fun _ : Unit => do
    let flashStatus ← xqspiFlashReadStatus
    if flashStatus &&& 0x1#8 ≠ 0#8 then pure (.inl ()) else pure (.inr ())) ()

def xqspiFlash4kSubsectorErase (startAddr : x.Word) : Driver Unit := do
  xqspiFlashWriteEnable
  xqspiResetTxRxFifo
  xqspiInit
  xqspiTx32 0x20#32
  txAddr startAddr
  xqspiStart
  let _ ← xqspiWaitTxDone
  xqspiWriteReg32 .ssr xspSsrDis
  xqspiResetTxRxFifo
  waitFlashOp
  xqspiStop

/-- The variables of `xqspi_flash_write` that go from one round to the next; `ptr` counts from
the start of the buffer. -/
structure FlashCursor (x : Xlen) where
  ptr : ℕ
  curAddr : x.Word
  size : ℕ

/-- A burst of the bytes from `ptr` on, until `i` is at `wrSize`. -/
def txBurst (buf : ℕ → U8) (wrSize i ptr : ℕ) : Driver (ℕ × ℕ) :=
  loop (fun (j, i, ptr) =>
    if j < xspTxFifoDepth then
      if i ≥ wrSize then pure (.inr (i, ptr))
      else do
        xqspiTx32 ((buf ptr).setWidth 32)
        pure (.inl (j + 1, i + 1, ptr + 1))
    else pure (.inr (i, ptr))) (0, i, ptr)

/-- The data of a page, with `ptr` after it. -/
def txPage (buf : ℕ → U8) (end_ wrSize ptr : ℕ) : Driver ℕ :=
  loop (fun (i, ptr) =>
    if i < wrSize then
      if ptr ≥ end_ then pure (.inr ptr)
      else do
        let (i, ptr) ← txBurst buf wrSize i ptr
        let _ ← xqspiWaitTxDone
        xqspiResetRxFifo
        pure (.inl (i, ptr))
    else pure (.inr ptr)) (0, ptr)

/-- A round of the inner `while`: one page. -/
def writePage (buf : ℕ → U8) (end_ : ℕ) (c : FlashCursor x) : Driver (FlashCursor x) := do
  xqspiFlashWriteEnable
  xqspiResetTxRxFifo
  xqspiTx32 0x02#32
  txAddr c.curAddr
  xqspiStart
  let _ ← xqspiWaitTxDone
  let curAddr := c.curAddr + BitVec.ofNat _ xspFlashPageSize
  let wrSize := if c.size > xspFlashPageSize then xspFlashPageSize else c.size
  let ptr ← txPage buf end_ wrSize c.ptr
  let size := if c.size > wrSize then c.size - wrSize else 0
  xqspiWriteReg32 .ssr xspSsrDis
  waitFlashOp
  pure ⟨ptr, curAddr, size⟩

/-- A round of the outer loop: one sector. -/
def writeSector (buf : ℕ → U8) (c : FlashCursor x) : Driver (FlashCursor x) := do
  xqspiFlash4kSubsectorErase c.curAddr
  let end_ := c.ptr + (if c.size > xspFlash4kPageSize then xspFlash4kPageSize else c.size)
  loop (fun c => do
    if c.ptr < end_ then
      let c ← writePage buf end_ c
      pure (.inl c)
    else pure (.inr c)) c

/-- The outer loop, over the sectors. -/
def writeSectors (buf : ℕ → U8) (numSectors : ℕ) (c : FlashCursor x) : Driver Unit :=
  loop (fun (sCnt, c) =>
    if sCnt < numSectors then do
      let c ← writeSector buf c
      pure (.inl (sCnt + 1, c))
    else pure (.inr ())) (0, c)

def xqspiFlashWrite (startAddr : x.Word) (buf : ℕ → U8) (size : U32) : Driver Unit := do
  xqspiReset
  xqspiInit
  let _ ← xqspiFlashGetJedecId 8
  let size := size.toNat
  let numSectors := size / xspFlash4kPageSize + if size % xspFlash4kPageSize ≠ 0 then 1 else 0
  writeSectors buf numSectors (⟨0, startAddr, size⟩ : FlashCursor x)
  xqspiStop

end ScBl
