import ScBl.Ipi.Msg
import ScBl.Lib.RefCount
import ScBl.Lib.Runs
import Mathlib.Data.List.FinRange

/-!
# The message pool (`ipi.c`, `interrupt_handler`)

Harts that allocate slots of `ipi_msg_pool`, write messages into them, send them
and free them, while they receive messages themselves: from `interrupt_handler`
when they are outside M-mode, and from `do_local_ipi_cmd` when they wait in
`ipi_alloc_msg` or `ipi_send_cmd`. A step of the system is one atomic action of
one hart. The mailboxes keep what was posted until it is read.
-/

namespace ScBl

open RefCount

/-- The words of a slot that its owner writes. -/
inductive MsgField
  | handlerMsg
  | payload (k : Fin 6)
  deriving DecidableEq, Repr

/-- The writes with which a caller of `ipi_alloc_msg` fills its slot. -/
abbrev MsgWrites : Type := List (MsgField × U64)

/-- Where a hart is. In the loops of `ipi_send_cmd`, `t` is the current target
and `todo` the list of those after it. -/
inductive PoolPc (n : ℕ)
  /-- Outside of the calls below; interrupts are taken here. -/
  | idle
  /-- `ipi_alloc_msg`, before `atomic_read(cnt)` -/
  | allocRead (i : MsgSlot) (writes : MsgWrites) (mask : Fin n → Bool)
  /-- `ipi_alloc_msg`, before `atomic_add(1, cnt)` -/
  | allocAdd (i : MsgSlot) (writes : MsgWrites) (mask : Fin n → Bool)
  /-- `ipi_alloc_msg`, allocation conflict, before `atomic_add(-1, cnt)` -/
  | allocUndo (i : MsgSlot) (writes : MsgWrites) (mask : Fin n → Bool)
  /-- `ipi_alloc_msg`, before `ipi_check_local_cmd` -/
  | allocPoll (writes : MsgWrites) (mask : Fin n → Bool)
  /-- The slot is allocated; these words remain to be written. -/
  | fill (i : MsgSlot) (writes : MsgWrites) (mask : Fin n → Bool)
  /-- `ipi_send_cmd`, before the test of the own bit -/
  | sendSelf (cmd : IpiCmd) (mask : Fin n → Bool)
  /-- `ipi_send_cmd`, before `do_local_ipi_cmd(packed_msg)` -/
  | sendRun (cmd : IpiCmd) (mask : Fin n → Bool)
  /-- `ipi_send_cmd`, before the read in the waiting loop -/
  | sendWait (cmd : IpiCmd) (t : Fin n) (todo : List (Fin n))
  /-- `ipi_send_cmd`, before `ipi_check_local_cmd` -/
  | sendPoll (cmd : IpiCmd) (t : Fin n) (todo : List (Fin n))
  /-- `ipi_send_cmd`, before the second read -/
  | sendCheck (cmd : IpiCmd) (t : Fin n) (todo : List (Fin n))
  /-- `ipi_send_cmd`, before `atomic_add(1, msg_cnt)` -/
  | sendCount (cmd : IpiCmd) (t : Fin n) (todo : List (Fin n))
  /-- `ipi_send_cmd`, before `ipi_send_data` -/
  | sendPost (cmd : IpiCmd) (t : Fin n) (todo : List (Fin n))
  /-- Before `ipi_free_msg` -/
  | free (i : MsgSlot)

/-- A hart: where it is, the slot whose handler it executes, and its mailbox. -/
structure PoolHart (n : ℕ) where
  pc : PoolPc n
  running : Option MsgSlot
  mailbox : List IpiCmd

/-- The pool and the harts. -/
structure Pool (n : ℕ) where
  /-- `shared_cnt` -/
  cnt : MsgSlot → ℤ
  /-- The handler and the payload. -/
  body : MsgSlot → MsgField → U64
  hart : Fin n → PoolHart n

/-- The next action of a hart, with what it depends on. -/
inductive PoolAction (n : ℕ)
  /-- A call that allocates a message, writes it and sends it to a mask. -/
  | call (writes : MsgWrites) (mask : Fin n → Bool)
  /-- `ipi_send_signal` -/
  | signal (cmd : IpiCmd) (mask : Fin n → Bool)
  /-- An IPI interrupt is taken. -/
  | interrupt
  /-- The hart goes on; `busy` is what `ipi_receiver_busy` answers in this
  step. -/
  | go (busy : Bool)

/-- A step of the system. -/
structure PoolEvent (n : ℕ) where
  hart : Fin n
  action : PoolAction n

variable {n : ℕ}

namespace Pool

/-! ## Updates -/

def setHart (s : Pool n) (h : Fin n) (l : PoolHart n) : Pool n :=
  { s with hart := Function.update s.hart h l }

/-- `atomic_add(d, &ipi_msg_pool[i].shared_cnt)` -/
def atomicAdd (s : Pool n) (d : ℤ) (i : MsgSlot) : Pool n :=
  { s with cnt := Function.update s.cnt i (s.cnt i + d) }

/-- Write a word of a slot. -/
def write (s : Pool n) (i : MsgSlot) (w : MsgField × U64) : Pool n :=
  { s with body := Function.update s.body i (Function.update (s.body i) w.1 w.2) }

/-- `ipi_send_data` -/
def post (s : Pool n) (t : Fin n) (cmd : IpiCmd) : Pool n :=
  s.setHart t { s.hart t with mailbox := (s.hart t).mailbox ++ [cmd] }

end Pool

/-! ## The code -/

/-- Where `ipi_alloc_msg` goes on after slot `i` was not to be had. -/
def allocNext (i : MsgSlot) (writes : MsgWrites) (mask : Fin n → Bool) : PoolPc n :=
  if i + 1 = 0 then .allocPoll writes mask else .allocRead (i + 1) writes mask

/-- What follows `ipi_send_cmd`. -/
def sendDone : IpiCmd → PoolPc n
  | .msg i => .free i
  | .signal => .idle
  | .fenceI => .idle

/-- The head of the loop of `ipi_send_cmd`. -/
def sendNext (cmd : IpiCmd) : List (Fin n) → PoolPc n
  | [] => sendDone cmd
  | t :: todo => .sendWait cmd t todo

/-- The harts of the mask in the order of the loop, the own one apart. -/
def sendTargets (h : Fin n) (mask : Fin n → Bool) : List (Fin n) :=
  (List.finRange n).filter fun t => mask t && decide (t ≠ h)

/-- Read the mailbox, and start what `do_local_ipi_cmd` or `interrupt_handler`
does with the command; `pc` is where the hart goes on. -/
def PoolHart.receive (l : PoolHart n) (pc : PoolPc n) : PoolHart n :=
  match l.mailbox with
  | [] => { l with pc := pc }
  | cmd :: mailbox => { pc := pc, running := cmd.slot, mailbox := mailbox }

/-- One atomic action of hart `h`, which is not executing a handler. -/
def Pool.go (s : Pool n) (h : Fin n) (busy : Bool) : Pool n :=
  let l := s.hart h
  match l.pc with
  | .idle => s
  | .allocRead i writes mask =>
    if s.cnt i = 0 then s.setHart h { l with pc := .allocAdd i writes mask }
    else s.setHart h { l with pc := allocNext i writes mask }
  | .allocAdd i writes mask =>
    if s.cnt i = 0 then (s.atomicAdd 1 i).setHart h { l with pc := .fill i writes mask }
    else (s.atomicAdd 1 i).setHart h { l with pc := .allocUndo i writes mask }
  | .allocUndo i writes mask =>
    (s.atomicAdd (-1) i).setHart h { l with pc := allocNext i writes mask }
  | .allocPoll writes mask => s.setHart h (l.receive (.allocRead 0 writes mask))
  | .fill i (w :: writes) mask => (s.write i w).setHart h { l with pc := .fill i writes mask }
  | .fill i [] mask => s.setHart h { l with pc := .sendSelf (.msg i) mask }
  | .sendSelf cmd mask =>
    if mask h then
      match cmd.slot with
      | some i => (s.atomicAdd 1 i).setHart h { l with pc := .sendRun cmd mask }
      | none => s.setHart h { l with pc := .sendRun cmd mask }
    else s.setHart h { l with pc := sendNext cmd (sendTargets h mask) }
  | .sendRun cmd mask =>
    s.setHart h { l with pc := sendNext cmd (sendTargets h mask), running := cmd.slot }
  | .sendWait cmd t todo =>
    if busy then s.setHart h { l with pc := .sendPoll cmd t todo }
    else s.setHart h { l with pc := .sendCheck cmd t todo }
  | .sendPoll cmd t todo => s.setHart h (l.receive (.sendWait cmd t todo))
  | .sendCheck cmd t todo =>
    if busy then s.setHart h { l with pc := sendNext cmd todo }
    else s.setHart h { l with pc := .sendCount cmd t todo }
  | .sendCount cmd t todo =>
    match cmd.slot with
    | some i => (s.atomicAdd 1 i).setHart h { l with pc := .sendPost cmd t todo }
    | none => s.setHart h { l with pc := .sendPost cmd t todo }
  | .sendPost cmd t todo => (s.setHart h { l with pc := sendNext cmd todo }).post t cmd
  | .free i => (s.atomicAdd (-1) i).setHart h { l with pc := .idle }

/-- A step. Actions that are not possible where the hart is change nothing. -/
def Pool.step (s : Pool n) (e : PoolEvent n) : Pool n :=
  let l := s.hart e.hart
  match l.running, e.action with
  -- the handler returns, and `ipi_free_msg` or the end of `interrupt_handler` follows
  | some i, _ => (s.atomicAdd (-1) i).setHart e.hart { l with running := none }
  | none, .go busy => s.go e.hart busy
  | none, .call writes mask =>
    match l.pc with
    | .idle =>
      s.setHart e.hart { l with pc := .allocRead (Fin.ofNat scipiMsgPoolSize e.hart) writes mask }
    | _ => s
  | none, .signal cmd mask =>
    match l.pc, cmd.slot with
    | .idle, none => s.setHart e.hart { l with pc := .sendSelf cmd mask }
    | _, _ => s
  | none, .interrupt =>
    match l.pc with
    | .idle => s.setHart e.hart (l.receive .idle)
    | _ => s

/-- The pool at boot: nothing is counted, the mailboxes are empty. -/
def Pool.init (body : MsgSlot → MsgField → U64) : Pool n where
  cnt := fun _ => 0
  body := body
  hart := fun _ => { pc := .idle, running := none, mailbox := [] }

end ScBl
