import ScBl.Bitops

/-!
# IPI commands (`include/ipi_msg.h`)

A command travels in one word with its data: of 64 bits where the mailbox is behind CSRs, and of
32 bits in ICCM. Commands of running harts are signals, fences and messages; a message names a
slot of `ipi_msg_pool`.
-/

namespace ScBl

/-- `SCR_IPI_DATA_BITS` -/
def scrIpiDataBits : ℕ := 54
/-- `SCR_IPI_RECV_SRC_BITS` -/
def scrIpiRecvSrcBits : ℕ := 4
/-- `SCR_IPI_RECV_CSHIFT` -/
def scrIpiRecvCshift : ℕ := 58

/-- `SCR_IPI_CMD_SETUP` -/
def scrIpiCmdSetup : ℕ := 1
/-- `SCR_IPI_CMD_START` -/
def scrIpiCmdStart : ℕ := 2
/-- `SCR_IPI_CMD_RESET` -/
def scrIpiCmdReset : ℕ := 3
/-- `SCR_IPI_CMD_SIGNAL` -/
def scrIpiCmdSignal : ℕ := 4
/-- `SCR_IPI_CMD_FENCE_I` -/
def scrIpiCmdFenceI : ℕ := 5
/-- `SCR_IPI_CMD_MSG_BASE` -/
def scrIpiCmdMsgBase : ℕ := 8
/-- `SCIPI_MSG_POOL_SIZE` -/
abbrev scipiMsgPoolSize : ℕ := 4

instance : NeZero scipiMsgPoolSize := ⟨by decide⟩

/-- A slot of `ipi_msg_pool`. -/
abbrev MsgSlot : Type := Fin scipiMsgPoolSize

/-- `PACK_SCIPI_MSG(cmd, data)` -/
def packScipiMsg (cmd : ℕ) (data : U64) : U64 :=
  BitVec.ofNat 64 cmd <<< scrIpiDataBits ||| (data &&& BitVec.ofNat 64 (2 ^ scrIpiDataBits - 1))

/-- `EXTRACT_SCIPI_MSG_DATA(msg)` -/
def extractScipiMsgData (msg : U64) : U64 :=
  msg >>> scrIpiRecvSrcBits &&& BitVec.ofNat 64 (2 ^ scrIpiDataBits - 1)

/-- `PLF_SMP_ICCM_SUPPORT` -/
inductive IpiTransport
  | csr
  | iccm
  deriving DecidableEq, Repr

/-- `SCR_IPI_SEND_CSHIFT` -/
def IpiTransport.sendCshift : IpiTransport → ℕ
  | .csr => scrIpiDataBits
  | .iccm => 26

/-- A word in a mailbox. -/
inductive MailWord
  | csr (w : U64)
  | iccm (w : U32)
  deriving DecidableEq, Repr

/-- The command of a word, its topmost bits. -/
def MailWord.cmd : MailWord → ℕ
  | .csr w => (w >>> scrIpiRecvCshift).toNat
  | .iccm w => (w >>> 26).toNat

/-- What the receiver of a command does. -/
inductive IpiCmd
  | signal
  | fenceI
  | msg (n : MsgSlot)
  deriving DecidableEq, Repr

/-- The number of a command. -/
def IpiCmd.number : IpiCmd → ℕ
  | .signal => scrIpiCmdSignal
  | .fenceI => scrIpiCmdFenceI
  | .msg n => scrIpiCmdMsgBase + n

/-- The numbers of commands end with the message pool. -/
theorem IpiCmd.number_lt (c : IpiCmd) : c.number < 12 := by
  cases c with
  | signal => decide
  | fenceI => decide
  | msg n => exact Nat.add_lt_add_left n.isLt scrIpiCmdMsgBase

/-- The packed word of a command, as `ipi_send_signal` and `ipi_send_msg` build it. -/
def IpiCmd.packed : IpiCmd → U64
  | .signal => packScipiMsg scrIpiCmdSignal 0#64
  | .fenceI => packScipiMsg scrIpiCmdFenceI 0#64
  | .msg n => packScipiMsg (scrIpiCmdMsgBase + n) 0#64

/-- The slot of a message. -/
def IpiCmd.slot : IpiCmd → Option MsgSlot
  | .msg n => some n
  | _ => none

end ScBl
