import ScBl.Flash.Xqspi
import Mathlib.Data.Prod.Lex

/-!
# Transfers to the flash

A transfer starts the controller, waits until all has been sent, and ends with the flash
deselected, whatever the pace of the controller: a command without an address
(`total_xqspiFlashWriteEnable`), a status read, the wait for an operation
(`total_waitFlashOp`).
-/

namespace ScBl

open Progs

/-! ## Accesses -/

namespace Xqspi

variable [NvramPlf] {s : Xqspi} {n : ℕ} {I : Xqspi → Prop}

/-- With nothing to send, nothing is sent. -/
theorem sendByte_of_nil (h : s.tx = []) : s.sendByte = s := by
  rw [sendByte, h]

/-- The byte goes to the flash if that is selected, and what the flash answers comes into the other
FIFO. -/
theorem sendByte_of_selected {b : U8} {tx : List U8} (hsel : s.selected = true)
    (htx : s.tx = b :: tx) : s.sendByte = { s with
      tx := tx
      rx := push s.rx (s.flash.clock b (s.noise 0)).1
      flash := (s.flash.clock b (s.noise 0)).2
      noise := fun n => s.noise (n + 1) } := by
  rw [sendByte, htx]
  exact if_pos hsel

/-- Nothing is to be sent, or may. -/
def Still (s : Xqspi) : Prop := s.tx = [] ∨ s.running = false

/-- A controller that has nothing to do stays as it is. -/
theorem Still.send (h : s.Still) : s.send n = s := by
  induction n with
  | zero => rfl
  | succ n ih =>
    rw [Xqspi.send]
    rcases h with h | h
    · rw [sendByte_of_nil h, ih, ite_self]
    · rw [h, if_neg Bool.false_ne_true]

/-- What the controller does on its own does not touch `I`. -/
def Steady (I : Xqspi → Prop) : Prop := ∀ s, I s → s.running = true → I s.sendByte

/-- What one byte leaves true, any number of them does. By induction on their number. -/
theorem Steady.send (hI : Steady I) (h : I s) : I (s.send n) := by
  induction n generalizing s with
  | zero => exact h
  | succ n ih =>
    rw [Xqspi.send]
    split_ifs with hrun
    · exact ih (hI s h hrun)
    · exact h

/-- Selected or not, the byte is gone. -/
theorem sendByte_tx : s.sendByte.tx = s.tx.tail := by
  rw [sendByte]
  cases htx : s.tx with
  | nil => exact htx
  | cons b tx =>
    dsimp only
    split_ifs <;> rfl

theorem length_send_le : (s.send n).tx.length ≤ s.tx.length := by
  induction n generalizing s with
  | zero => exact le_rfl
  | succ n ih =>
    rw [Xqspi.send]
    split_ifs
    · refine ih.trans ?_
      rw [sendByte_tx, List.length_tail]
      exact Nat.sub_le _ _
    · exact le_rfl

/-- A controller that runs makes progress. With the fairness of the pace, this ends the loops that
wait for it. -/
theorem length_send_lt (hn : 0 < n) (hrun : s.running = true) (htx : s.tx ≠ []) :
    (s.send n).tx.length < s.tx.length := by
  obtain ⟨k, rfl⟩ : ∃ k, n = k + 1 := ⟨n - 1, by omega⟩
  have hpos : 0 < s.tx.length := List.length_pos_iff.mpr htx
  rw [Xqspi.send, if_pos hrun]
  refine lt_of_le_of_lt length_send_le ?_
  rw [sendByte_tx, List.length_tail]
  omega

end Xqspi

open Xqspi

section

variable [NvramPlf] {α β : Type} {f : Xqspi → α × Xqspi} {g : α → Driver β} {s : Xqspi}
  {I : Xqspi → Prop}
  {Q : α → Xqspi → Prop} {R : β → Xqspi → Prop}

/-- An access, from a property that the controller does not touch on its own: it holds before the
access, however many bytes have been sent by then. -/
theorem total_access (hI : Steady I) (h : I s) (hQ : ∀ t, I t → Q (f t).1 (f t).2) :
    Total (access f) s Q := by
  intro p
  have hsent : I (s.send (p.sent 0)) := hI.send h
  exact ⟨_, _, _, Ends.act _ (s, p), hQ _ hsent⟩

/-- An access to a controller that is still finds it as it was. -/
theorem total_access_still (h : s.Still) (hQ : Q (f s).1 (f s).2) : Total (access f) s Q := by
  intro p
  refine ⟨_, _, _, Ends.act _ (s, p), ?_⟩
  change Q (f (s.send (p.sent 0))).1 (f (s.send (p.sent 0))).2
  rwa [h.send]

/-- An access, and what comes after it. -/
theorem total_access_bind (h : s.Still) (hg : Total (g (f s).1) (f s).2 R) :
    Total (access f >>= g) s R := by
  have haccess : Total (access f) s fun a t => a = (f s).1 ∧ t = (f s).2 :=
    total_access_still h ⟨rfl, rfl⟩
  refine haccess.bind ?_
  rintro a t ⟨rfl, rfl⟩
  exact hg

end

/-! ## Waiting for the FIFOs -/

/-- The accesses up to the next at which something is sent. -/
def Pace.wait (p : Pace) : ℕ :=
  Nat.find (p := fun m => 0 < p.sent m) ((p.goesOn 0).imp fun _ h => h.2)

/-- An access at which nothing is sent brings the next byte closer. This is the measure of the loops
that wait for one. -/
theorem Pace.wait_tail_lt {p : Pace} (h : p.sent 0 = 0) : p.tail.wait < p.wait := by
  have hsent : 0 < p.sent p.wait := Nat.find_spec (p := fun m => 0 < p.sent m) _
  obtain ⟨k, hk⟩ : ∃ k, p.wait = k + 1 := by
    refine ⟨p.wait - 1, ?_⟩
    have hpos : p.wait ≠ 0 := by
      intro hzero
      rw [hzero, h] at hsent
      exact absurd hsent (lt_irrefl 0)
    omega
  rw [hk] at hsent ⊢
  exact Nat.lt_succ_of_le (Nat.find_min' (p := fun m => 0 < p.tail.sent m) _ hsent)

namespace Xqspi

variable {s : Xqspi}

/-- In this model of the controller no error bit is ever set. -/
theorem status_err : s.status &&& xspSrErrMask = 0#32 := by
  rw [status]
  split_ifs <;> decide

/-- The bit that `xqspi_wait_tx_done` waits for. -/
theorem status_txEmpty : s.status &&& xspIntrTxEmptyMask = 0#32 ↔ s.tx ≠ [] := by
  rw [status]
  by_cases htx : s.tx = []
  · simp only [htx, if_true]
    split_ifs <;> decide
  · simp only [htx, if_false]
    split_ifs <;> simp [xspSrRxEmptyMask, xspIntrTxEmptyMask, htx]

/-- The bit that ends the reading of a FIFO. -/
theorem status_rxEmpty : s.status &&& xspSrRxEmptyMask ≠ 0#32 ↔ s.rx = [] := by
  rw [status]
  by_cases hrx : s.rx = []
  · simp only [hrx, if_true]
    split_ifs <;> decide
  · simp only [hrx, if_false]
    split_ifs <;> simp [xspSrRxEmptyMask, xspIntrTxEmptyMask]

end Xqspi

section

variable [NvramPlf] {s : Xqspi} {I : Xqspi → Prop}

/-- **Waiting** until all has been sent, which is a matter of time. The induction is on the bytes in
the FIFO and, with these the same, on the accesses until the next one is sent. -/
theorem total_xqspiWaitTxDone (hI : Steady I) (hrun : ∀ s, I s → s.running = true) (h : I s) :
    Total xqspiWaitTxDone s fun _ t => I t ∧ t.tx = [] := by
  refine Total.loop_env (fun _ s => I s) (fun _ s p => toLex (s.tx.length, p.wait)) ?_ h
  intro _ s p hs
  obtain ⟨t, ht⟩ : ∃ t, t = s.send (p.sent 0) := ⟨_, rfl⟩
  have htI : I t := ht ▸ hI.send hs
  have hread : Ends xqspiGetStatusReg (s, p) t.status (t, p.tail) := by
    rw [ht]
    exact Ends.act _ (s, p)
  by_cases htx : t.tx = []
  · refine ⟨.inr 0, t, p.tail, hread.bind ?_, htI, htx⟩
    rw [if_neg (not_not.mpr status_err), if_neg (mt status_txEmpty.mp (not_not.mpr htx))]
    exact Ends.pure _ _
  · refine ⟨.inl (), t, p.tail, hread.bind ?_, htI, ?_⟩
    · rw [if_neg (not_not.mpr status_err), if_pos (status_txEmpty.mpr htx)]
      exact Ends.pure _ _
    · rw [Prod.Lex.toLex_lt_toLex]
      by_cases hsent : p.sent 0 = 0
      · rw [hsent] at ht
        exact .inr ⟨by rw [ht]; rfl, Pace.wait_tail_lt hsent⟩
      · left
        have hne : s.tx ≠ [] := by
          intro hnil
          rw [Still.send (.inl hnil)] at ht
          exact htx (ht ▸ hnil)
        rw [ht]
        exact length_send_lt (Nat.pos_of_ne_zero hsent) (hrun s hs) hne

/-- The next byte that has come in. -/
theorem total_xqspiReadReg8_drr {b : U8} {rx : List U8} (htx : s.tx = []) (hrx : s.rx = b :: rx) :
    Total (xqspiReadReg8 .drr) s fun a t => a = b ∧ t = { s with rx := rx } := by
  refine total_access_bind (.inl htx) (Total.pure ?_)
  rw [Xqspi.read, hrx]
  exact ⟨by simp, rfl⟩

/-- **Reading** all that has come in, by induction on the FIFO. Nothing is left to be sent
meanwhile, so that nothing comes in either. -/
theorem total_readRxFifo (htx : s.tx = []) :
    Total (readRxFifo s.status) s fun bytes t => bytes = s.rx ∧ t = { s with rx := [] } := by
  refine Total.loop
    (fun i t => i.1 = t.status ∧ i.2 ++ t.rx = s.rx ∧ t = { s with rx := t.rx })
    (fun _ t => t.rx.length) ?_ ⟨rfl, List.nil_append _, rfl⟩
  rintro ⟨status, bytes⟩ t ⟨rfl, hbytes, ht⟩
  have httx : t.tx = [] := by rw [ht, htx]
  dsimp only at hbytes ⊢
  by_cases hrx : t.rx = []
  · rw [if_pos (status_rxEmpty.mpr hrx)]
    refine Total.pure ⟨?_, ?_⟩
    · rw [← hbytes, hrx, List.append_nil]
    · rw [ht, hrx]
  · rw [if_neg (mt status_rxEmpty.mp hrx)]
    obtain ⟨b, rx, hcons⟩ := List.exists_cons_of_ne_nil hrx
    refine (total_xqspiReadReg8_drr httx hcons).bind ?_
    rintro _ _ ⟨rfl, rfl⟩
    rw [xqspiGetStatusReg, xqspiReadReg32]
    refine total_access_bind (s := { t with rx := rx }) (.inl httx) ?_
    refine Total.pure ⟨⟨rfl, ?_, ?_⟩, ?_⟩
    · rw [← hbytes, hcons, List.append_assoc]
      rfl
    · rw [ht]
      rfl
    · rw [hcons]
      exact Nat.lt_succ_self _

end

/-! ## Accesses in a row -/

section

variable [NvramPlf] {β : Type} {s : Xqspi} {g : U32 → Driver β} {k : Unit → Driver β}
  {reg : XspReg} {v : U32}
  {Q : Unit → Xqspi → Prop} {R : β → Xqspi → Prop}

/-- A read from a controller that is still, with what comes after it. -/
theorem total_read_bind (h : s.Still) (hg : Total (g (s.read reg).1) (s.read reg).2 R) :
    Total (xqspiReadReg32 reg >>= g) s R :=
  total_access_bind h hg

/-- A write to a controller that is still. -/
theorem total_write (h : s.Still) (hQ : Q () (s.write v reg)) :
    Total (xqspiWriteReg32 reg v) s Q :=
  total_access_still h hQ

theorem total_write_bind (h : s.Still) (hk : Total (k ()) (s.write v reg) R) :
    Total (xqspiWriteReg32 reg v >>= k) s R :=
  total_access_bind h hk

end

/-! ## Commands -/

/-- The control register between commands, with the controller disabled or enabled, and while
bytes are sent. -/
def crStopped : U32 := 0x184#32
def crReady : U32 := 0x186#32
def crRunning : U32 := 0x86#32

namespace Xqspi

variable [NvramPlf] {s : Xqspi} {f : Flash} {bytes : List U8}

/-- No command is under way, and the FIFOs are empty. -/
structure Idle (f : Flash) (s : Xqspi) : Prop where
  cr : s.cr = crStopped
  ssr : s.ssr = xspSsrDis
  tx : s.tx = []
  rx : s.rx = []
  flash : s.flash = f

/-- The bytes of a command other than a status read are on their way to the flash. -/
structure Sending (f : Flash) (bytes : List U8) (s : Xqspi) : Prop where
  cr : s.cr = crRunning
  ssr : s.ssr = xspSsrEna
  stream : s.flash.received ++ s.tx = bytes
  flash : s.flash = { f with received := s.flash.received }

omit [NvramPlf] in
/-- The master is enabled and not inhibited. -/
theorem running_of_cr (h : s.cr = crRunning) : s.running = true := by
  rw [running, h]
  decide

/-- The bit of the flash is 0 in `XSP_SSR_ENA`: slaves are selected by zeros. -/
theorem selected_of_ssr (h : s.ssr = xspSsrEna) : s.selected = true := by
  rw [selected, h, xspSsrEna, BitVec.not_and_self]
  exact decide_eq_true rfl

/-- With all ones no slave is selected, whichever bit the flash has. -/
theorem not_selected_of_ssr (h : s.ssr = xspSsrDis) : s.selected = false := by
  rw [selected, h, xspSsrDis, BitVec.not_zero, BitVec.allOnes_and]
  exact decide_eq_false NvramPlf.chipselect_ne_zero

omit [NvramPlf] in
/-- The master is inhibited. -/
theorem not_running_of_cr (h : s.cr = crStopped ∨ s.cr = crReady) : s.running = false := by
  rw [running]
  rcases h with h | h
  · rw [h]
    decide
  · rw [h]
    decide

/-- A byte that goes out joins those that the flash has received. The first one is not the command
that reads the status, so that nothing else happens at the flash. -/
theorem steady_sending (hbytes : bytes.head? ≠ some 0x05#8) : Steady (Sending f bytes) := by
  intro s h _
  cases htx : s.tx with
  | nil => rwa [sendByte_of_nil htx]
  | cons b tx =>
    have hstream := h.stream
    rw [htx] at hstream
    have hhead : s.flash.received.head? ≠ some 0x05#8 := by
      intro hhead
      rw [← hstream, List.head?_append, hhead] at hbytes
      exact hbytes rfl
    have hclock : s.flash.clock b (s.noise 0) =
        (s.noise 0, { s.flash with received := s.flash.received ++ [b] }) := by
      rw [Flash.clock, if_neg hhead]
    rw [sendByte_of_selected (selected_of_ssr h.ssr) htx, hclock]
    refine ⟨h.cr, h.ssr, ?_, ?_⟩
    · rw [← hstream]
      exact List.append_assoc _ _ _
    · rw [h.flash]

end Xqspi

section

variable [NvramPlf] {s : Xqspi} {f : Flash} {bytes : List U8}

/-- `xqspi_start`, with the controller inhibited: no byte moves before the last write, so that the
flash sees the command from its first byte on. -/
theorem total_xqspiStart (hcr : s.cr = crStopped ∨ s.cr = crReady) (hssr : s.ssr = xspSsrDis) :
    Total xqspiStart s fun _ t => t = { s with cr := crRunning, ssr := xspSsrEna } := by
  have hstill : ∀ {t : Xqspi}, t.cr = s.cr → t.Still := by
    intro t ht
    exact .inr (not_running_of_cr (by rwa [ht]))
  simp only [xqspiStart, xqspiGetCtrlReg, xqspiSetCtrlReg]
  refine total_read_bind (hstill rfl) ?_
  refine total_write_bind (hstill rfl) ?_
  have hselect : s.write xspSsrEna .ssr = { s with ssr := xspSsrEna } := by
    simp [write, select, not_selected_of_ssr hssr]
  rw [Xqspi.read, hselect]
  refine total_write (hstill rfl) ?_
  have hctrl : (s.cr &&& ~~~xspCrTransInhibitMask) ||| xspCrEnableMask = crRunning := by
    rcases hcr with hcr | hcr
    · rw [hcr]
      decide
    · rw [hcr]
      decide
  rw [hctrl]
  rfl

/-- `xqspi_stop`, with all bytes sent. The flash is deselected, at which it carries out its command.
-/
theorem total_xqspiStop (htx : s.tx = []) (hcr : s.cr ∈ [crStopped, crReady, crRunning]) :
    Total xqspiStop s fun _ t => t = { s.select xspSsrDis with cr := crStopped } := by
  have hselect : (s.select xspSsrDis).tx = [] := htx
  simp only [xqspiStop, xqspiGetCtrlReg, xqspiSetCtrlReg]
  refine total_read_bind (.inl htx) ?_
  refine total_write_bind (.inl htx) ?_
  refine total_write (.inl hselect) ?_
  have hctrl : (s.cr ||| xspCrTransInhibitMask) &&& ~~~xspCrEnableMask = crStopped := by
    simp only [List.mem_cons, List.not_mem_nil, or_false] at hcr
    rcases hcr with hcr | hcr | hcr
    all_goals
      rw [hcr]
      decide
  rw [Xqspi.read, hctrl]
  rfl

/-- A flash that takes commands. -/
structure Flash.Ready (f : Flash) : Prop where
  busy : f.busy = 0
  received : f.received = []

/-- The end of a command. -/
theorem Xqspi.Sending.select_dis (h : Sending f bytes s) (htx : s.tx = []) (hf : f.Ready) :
    s.select xspSsrDis = { s with ssr := xspSsrDis, flash := f.execute bytes } := by
  have hreceived : s.flash.received = bytes := by
    rw [← h.stream, htx, List.append_nil]
  have hbusy : s.flash.busy = 0 := by
    rw [h.flash, hf.busy]
  have hflash : { s.flash with received := [] } = f := by
    rw [h.flash, ← hf.received]
  have hdeselect : s.flash.deselect = f.execute bytes := by
    rw [Flash.deselect, hreceived]
    exact (if_neg (by simp [hbusy])).trans (congrArg (Flash.execute · bytes) hflash)
  have hdis : selected { s with ssr := xspSsrDis } = false := not_selected_of_ssr rfl
  rw [select, hdeselect]
  simp [selected_of_ssr h.ssr, hdis]

/-- A byte for the flash, where there is room in the FIFO. -/
theorem write_dtr (v : U32) (htx : s.tx.length < xspTxFifoDepth) :
    s.write v .dtr = { s with tx := s.tx ++ [v.setWidth 8] } := by
  rw [write, push, if_pos htx]

/-- What is sent once the controller starts. -/
theorem sending_of_start (hf : s.flash.Ready) (htx : s.tx = bytes) :
    Sending s.flash bytes { s with cr := crRunning, ssr := xspSsrEna } where
  cr := rfl
  ssr := rfl
  stream := by
    change s.flash.received ++ s.tx = bytes
    rw [hf.received, htx, List.nil_append]
  flash := rfl

/-- A command without data is with the flash when `xqspi_flash_cmd` returns, and what came in for it
has been read. -/
theorem total_xqspiFlashCmd {cmd : U8} (h : Idle f s) (hf : f.Ready) (hcmd : cmd ≠ 0x05#8) :
    Total (xqspiFlashCmd cmd) s fun _ t => Sending f [cmd] t ∧ t.tx = [] ∧ t.rx = [] := by
  have hrun : s.running = false := not_running_of_cr (.inl h.cr)
  have hwrite : s.write (cmd.setWidth 32) .dtr = { s with tx := [cmd] } := by
    rw [write_dtr _ (by rw [h.tx]; decide), h.tx]
    simp
  have hstart : Total xqspiStart { s with tx := [cmd] } fun _ t => Sending f [cmd] t := by
    refine (total_xqspiStart (s := { s with tx := [cmd] }) (.inl h.cr) h.ssr).mono ?_
    rintro _ t rfl
    have hready : s.flash.Ready := by rwa [h.flash]
    exact h.flash ▸ sending_of_start (s := { s with tx := [cmd] }) hready rfl
  rw [xqspiFlashCmd, xqspiTx32]
  refine total_write_bind (.inr hrun) ?_
  rw [hwrite]
  refine hstart.bind fun _ t ht => ?_
  refine (total_xqspiWaitTxDone (steady_sending (by simpa using hcmd))
    (fun s hs => running_of_cr hs.cr) ht).bind ?_
  rintro _ t ⟨ht, htx⟩
  rw [xqspiGetStatusReg]
  refine total_read_bind (.inl htx) ?_
  refine (total_readRxFifo htx).bind ?_
  rintro _ u ⟨rfl, rfl⟩
  exact Total.pure ⟨⟨ht.cr, ht.ssr, ht.stream, ht.flash⟩, htx, rfl⟩

/-- **Write enable** sets the latch. -/
theorem total_xqspiFlashWriteEnable (h : Idle f s) (hf : f.Ready) :
    Total xqspiFlashWriteEnable s fun _ t => Idle { f with wel := true } t := by
  rw [xqspiFlashWriteEnable]
  refine (total_xqspiFlashCmd h hf (by decide)).bind ?_
  rintro _ t ⟨ht, htx, hrx⟩
  refine (total_xqspiStop htx (by simp [ht.cr])).mono ?_
  rintro _ u rfl
  rw [ht.select_dis htx hf]
  exact ⟨rfl, rfl, htx, hrx, rfl⟩

end

/-! ## Reading the status -/

namespace Xqspi

variable [NvramPlf] {s : Xqspi} {f : Flash} {v : U32}

/-- Some bytes of status reads are on their way, maybe to no one: the driver asks for the status
right after a command, while the controller runs and no slave is selected. -/
structure Loose (f : Flash) (s : Xqspi) : Prop where
  flash : s.flash = { f with received := s.flash.received, busy := s.flash.busy }
  bytes : ∀ b ∈ s.flash.received ++ s.tx, b = 0x00#8 ∨ b = 0x05#8

/-- A byte of a status read adds nothing, whether the flash gets it or not: the command changes
neither its memory nor its latch. -/
theorem Loose.sendByte (h : Loose f s) : Loose f s.sendByte := by
  cases htx : s.tx with
  | nil => rwa [sendByte_of_nil htx]
  | cons b tx =>
    have hbytes := h.bytes
    rw [htx] at hbytes
    by_cases hsel : s.selected = true
    · rw [sendByte_of_selected hsel htx, Flash.clock]
      split_ifs
      all_goals
        refine ⟨?_, ?_⟩
        · rw [h.flash]
        · simpa [List.append_assoc] using hbytes
    · rw [Xqspi.sendByte, htx]
      dsimp only
      rw [if_neg hsel]
      refine ⟨h.flash, fun c hc => hbytes c ?_⟩
      rw [List.mem_append] at hc ⊢
      exact hc.imp_right fun hc => List.mem_cons_of_mem b hc

/-- The driver asks again. -/
theorem Loose.write_dtr (h : Loose f s) (hv : v.setWidth 8 = 0x00#8 ∨ v.setWidth 8 = 0x05#8) :
    Loose f (s.write v .dtr) := by
  refine ⟨h.flash, fun b hb => ?_⟩
  rw [write, push, List.mem_append] at hb
  split_ifs at hb
  · rw [List.mem_append, List.mem_singleton] at hb
    rcases hb with hb | hb | rfl
    · exact h.bytes b (List.mem_append_left _ hb)
    · exact h.bytes b (List.mem_append_right _ hb)
    · exact hv
  · exact h.bytes b (List.mem_append.mpr hb)

omit [NvramPlf] in
/-- Such bytes are no command. -/
theorem execute_eq_self {bytes : List U8} (h : ∀ b ∈ bytes, b = 0x00#8 ∨ b = 0x05#8) :
    f.execute bytes = f := by
  cases bytes with
  | nil => rfl
  | cons b bytes =>
    rcases h b List.mem_cons_self with rfl | rfl <;> rfl

omit [NvramPlf] in
/-- Deselected after such bytes, the flash has got no command; at most its operation has got on. -/
theorem Loose.deselect (h : Loose f s) :
    s.flash.deselect = { f with received := [], busy := s.flash.busy } := by
  have hexecute : Flash.execute { s.flash with received := [] } s.flash.received =
      { s.flash with received := [] } :=
    execute_eq_self fun b hb => h.bytes b (List.mem_append_left _ hb)
  rw [Flash.deselect, hexecute, ite_self, h.flash]

/-- The status read of a flash that is ready for it, on its way. -/
structure StatusRead (f : Flash) (s : Xqspi) : Prop where
  cr : s.cr = crRunning
  ssr : s.ssr = xspSsrEna
  sent : s.flash = f ∧ s.tx = [0x05#8, 0x00#8] ∧ s.rx = [] ∨
    s.flash = { f with received := [0x05#8] } ∧ s.tx = [0x00#8] ∧ s.rx.length = 1 ∨
    s.flash = { f with received := [0x05#8, 0x00#8], busy := f.busy - 1 } ∧ s.tx = [] ∧
      s.rx.getLastD 0#8 = f.status

/-- While the two bytes of a status read go out, the flash counts down its operation at the second.
-/
theorem steady_statusRead (hf : f.received = []) : Steady (StatusRead f) := by
  intro s h _
  have hsel := selected_of_ssr h.ssr
  rcases h.sent with ⟨hflash, htx, hrx⟩ | ⟨hflash, htx, hrx⟩ | ⟨hflash, htx, hrx⟩
  · have hclock : s.flash.clock 0x05#8 (s.noise 0) =
        (s.noise 0, { f with received := [0x05#8] }) := by
      rw [hflash, Flash.clock, hf]
      rfl
    rw [sendByte_of_selected hsel htx, hclock, hrx]
    exact ⟨h.cr, h.ssr, .inr (.inl ⟨rfl, rfl, rfl⟩)⟩
  · have hclock : s.flash.clock 0x00#8 (s.noise 0) =
        (f.status, { f with received := [0x05#8, 0x00#8], busy := f.busy - 1 }) := by
      rw [hflash, Flash.clock]
      rfl
    rw [sendByte_of_selected hsel htx, hclock]
    refine ⟨h.cr, h.ssr, .inr (.inr ⟨rfl, rfl, ?_⟩)⟩
    have hroom : s.rx.length < xspTxFifoDepth := by
      rw [hrx]
      decide
    simp [push, hroom]
  · rw [sendByte_of_nil htx]
    exact h

/-- All bytes are out, so that the flash has answered. The answer is the last byte that came in. -/
theorem StatusRead.done (h : StatusRead f s) (htx : s.tx = []) :
    s.flash = { f with received := [0x05#8, 0x00#8], busy := f.busy - 1 } ∧
      s.rx.getLastD 0#8 = f.status := by
  rcases h.sent with ⟨_, htx', _⟩ | ⟨_, htx', _⟩ | ⟨hflash, _, hrx⟩
  · rw [htx] at htx'
    cases htx'
  · rw [htx] at htx'
    cases htx'
  · exact ⟨hflash, hrx⟩

end Xqspi

section

variable [NvramPlf] {s : Xqspi} {f : Flash} {I : Xqspi → Prop} {Q : U8 → Xqspi → Prop}

/-- A status read whose bytes go out under the invariant `I`. -/
theorem total_xqspiFlashReadStatus_of (hI : Steady I) (hrun : ∀ t, I t → t.cr = crRunning)
    (hstart : ∀ k : Driver U8, (∀ t, I t → Total k t Q) →
      Total (do xqspiTx32 0x05#32; xqspiTx32 0x00#32; xqspiStart; k) s Q)
    (hQ : ∀ t, I t → t.tx = [] →
      Q (t.rx.getLastD 0#8) { t.select xspSsrDis with cr := crStopped, rx := [] }) :
    Total xqspiFlashReadStatus s Q := by
  refine hstart _ fun t ht => ?_
  refine (total_xqspiWaitTxDone hI (fun u hu => running_of_cr (hrun u hu)) ht).bind ?_
  rintro _ u ⟨hu, htx⟩
  rw [xqspiGetStatusReg]
  refine total_read_bind (.inl htx) ?_
  refine (total_readRxFifo htx).bind ?_
  rintro _ v ⟨rfl, rfl⟩
  refine (total_xqspiStop (s := { u with rx := [] }) htx (by simp [hrun u hu])).bind ?_
  rintro _ v rfl
  refine Total.pure ?_
  exact hQ u hu htx

end

namespace Xqspi

variable [NvramPlf] {s : Xqspi} {f : Flash}

theorem sendByte_cr : s.sendByte.cr = s.cr := by
  rw [sendByte]
  cases s.tx with
  | nil => rfl
  | cons b tx =>
    dsimp only
    split_ifs <;> rfl

theorem sendByte_ssr : s.sendByte.ssr = s.ssr := by
  rw [sendByte]
  cases s.tx with
  | nil => rfl
  | cons b tx =>
    dsimp only
    split_ifs <;> rfl

/-- A status read is a case of bytes that do no harm. -/
theorem StatusRead.loose (h : StatusRead f s) (hf : f.received = []) : Loose f s := by
  rcases h.sent with ⟨hflash, htx, _⟩ | ⟨hflash, htx, _⟩ | ⟨hflash, htx, _⟩
  · exact ⟨by rw [hflash], by simp [hflash, htx, hf]⟩
  · exact ⟨by rw [hflash], by simp [hflash, htx]⟩
  · exact ⟨by rw [hflash], by simp [hflash, htx]⟩

/-- The end of a status read. -/
theorem Loose.select_dis (h : Loose f s) (hssr : s.ssr = xspSsrEna) :
    (s.select xspSsrDis).flash = { f with received := [], busy := s.flash.busy } := by
  have hdis : selected { s with ssr := xspSsrDis } = false := not_selected_of_ssr rfl
  have hgo : s.selected ∧ ¬ selected { s with ssr := xspSsrDis } := by
    rw [selected_of_ssr hssr, hdis]
    decide
  rw [select, if_pos hgo, h.deselect]

end Xqspi

section

variable [NvramPlf] {s : Xqspi} {f : Flash}

/-- **The status** of a flash that is busy or not. Each status read brings the end of the operation
one step closer. -/
theorem total_xqspiFlashReadStatus (h : Idle f s) (hf : f.received = []) :
    Total xqspiFlashReadStatus s fun v t =>
      v = f.status ∧ Idle { f with busy := f.busy - 1 } t := by
  have hrun : s.running = false := not_running_of_cr (.inl h.cr)
  have hwrite : s.write 0x05#32 .dtr = { s with tx := [0x05#8] } := by
    rw [write_dtr _ (by rw [h.tx]; decide), h.tx]
    rfl
  have hwrite' : write { s with tx := [0x05#8] } 0x00#32 .dtr =
      { s with tx := [0x05#8, 0x00#8] } := by
    have hroom : [0x05#8].length < xspTxFifoDepth := by decide
    rw [write_dtr _ hroom]
    rfl
  refine total_xqspiFlashReadStatus_of (steady_statusRead hf) (fun t ht => ht.cr) ?_ ?_
  · intro k hk
    rw [xqspiTx32, xqspiTx32]
    refine total_write_bind (.inr hrun) ?_
    rw [hwrite]
    refine total_write_bind (s := { s with tx := [0x05#8] }) (.inr hrun) ?_
    rw [hwrite']
    refine (total_xqspiStart (s := { s with tx := [0x05#8, 0x00#8] }) (.inl h.cr) h.ssr).bind ?_
    rintro _ t rfl
    exact hk _ ⟨rfl, rfl, .inl ⟨h.flash, rfl, h.rx⟩⟩
  · intro t ht htx
    obtain ⟨hflash, hrx⟩ := ht.done htx
    refine ⟨hrx, rfl, rfl, htx, rfl, ?_⟩
    have hselect := (ht.loose hf).select_dis ht.ssr
    rw [hflash] at hselect
    rw [← hf] at hselect
    exact hselect

/-- The controller is started while bytes of status reads may go out: here `xqspi_start` may find it
running, and select the flash in the middle of a byte stream. -/
theorem total_xqspiStart_loose (h : Loose f s) (hcr : s.cr = crStopped ∨ s.cr = crRunning) :
    Total xqspiStart s fun _ t => Loose f t ∧ t.cr = crRunning ∧ t.ssr = xspSsrEna := by
  have hsteady : ∀ ssr, Steady fun t => Loose f t ∧ t.cr = s.cr ∧ t.ssr = ssr := by
    intro ssr t ht _
    exact ⟨ht.1.sendByte, sendByte_cr.trans ht.2.1, sendByte_ssr.trans ht.2.2⟩
  have hctrl : (s.cr &&& ~~~xspCrTransInhibitMask) ||| xspCrEnableMask = crRunning := by
    rcases hcr with hcr | hcr
    · rw [hcr]
      decide
    · rw [hcr]
      decide
  have hread : Total (xqspiReadReg32 .cr) s fun v t =>
      v = s.cr ∧ Loose f t ∧ t.cr = s.cr ∧ t.ssr = s.ssr :=
    total_access (hsteady s.ssr) ⟨h, rfl, rfl⟩ fun t ht => ⟨ht.2.1, ht⟩
  simp only [xqspiStart, xqspiGetCtrlReg, xqspiSetCtrlReg]
  refine hread.bind ?_
  rintro _ t ⟨rfl, ht⟩
  have hselect : Total (xqspiWriteReg32 .ssr xspSsrEna) t fun _ u =>
      Loose f u ∧ u.cr = s.cr ∧ u.ssr = xspSsrEna := by
    refine total_access (hsteady s.ssr) ht fun u hu => ⟨?_, hu.2.1, rfl⟩
    have hflash : (u.select xspSsrEna).flash = u.flash := by
      have hena : selected { u with ssr := xspSsrEna } = true := selected_of_ssr rfl
      rw [select, hena]
      exact if_neg fun hgo => hgo.2 rfl
    exact ⟨by rw [write, hflash, ← hu.1.flash], by rw [write, hflash]; exact hu.1.bytes⟩
  refine hselect.bind fun _ u hu => ?_
  refine total_access (hsteady xspSsrEna) hu fun v hv => ?_
  rw [hctrl]
  exact ⟨⟨hv.1.flash, hv.1.bytes⟩, rfl, hv.2.2⟩

/-- A status read that may come to nothing, since the flash is not known to be selected. The loop
that waits for the flash asks again. -/
theorem total_xqspiFlashReadStatus_loose (h : Loose f s)
    (hcr : s.cr = crStopped ∨ s.cr = crRunning) :
    Total xqspiFlashReadStatus s fun _ t => ∃ b, Idle { f with received := [], busy := b } t := by
  have hsteady : Steady fun t => Loose f t ∧ t.cr = s.cr := by
    intro t ht _
    exact ⟨ht.1.sendByte, sendByte_cr.trans ht.2⟩
  have hsteady' : Steady fun t => Loose f t ∧ t.cr = crRunning ∧ t.ssr = xspSsrEna := by
    intro t ht _
    exact ⟨ht.1.sendByte, sendByte_cr.trans ht.2.1, sendByte_ssr.trans ht.2.2⟩
  have htx : ∀ v t, v.setWidth 8 = 0x00#8 ∨ v.setWidth 8 = 0x05#8 → Loose f t ∧ t.cr = s.cr →
      Total (xqspiTx32 v) t fun _ u => Loose f u ∧ u.cr = s.cr := by
    intro v t hv ht
    rw [xqspiTx32, xqspiWriteReg32]
    exact total_access hsteady ht fun u hu => ⟨hu.1.write_dtr hv, hu.2⟩
  refine total_xqspiFlashReadStatus_of hsteady' (fun t ht => ht.2.1) ?_ ?_
  · intro k hk
    refine (htx 0x05#32 s (.inr rfl) ⟨h, rfl⟩).bind fun _ t ht => ?_
    refine (htx 0x00#32 t (.inl rfl) ht).bind fun _ t ht => ?_
    refine (total_xqspiStart_loose ht.1 (by rwa [ht.2])).bind fun _ t ht => ?_
    exact hk t ht
  · intro t ht htx
    exact ⟨t.flash.busy, rfl, rfl, htx, rfl, ht.1.select_dis ht.2.2⟩

omit [NvramPlf] in
/-- The bit of the status that the driver looks at. -/
theorem Flash.status_busy (f : Flash) : f.status &&& 0x1#8 ≠ 0#8 ↔ 0 < f.busy := by
  rw [Flash.status]
  by_cases hbusy : 0 < f.busy
  · simp only [hbusy, if_true, iff_true]
    split_ifs <;> decide
  · simp only [hbusy, if_false, iff_false]
    split_ifs <;> decide

/-- **After a command** the driver waits until the flash is done with it. The first loop gives up
after a hundred reads, the second one ends since a flash is not busy for ever. -/
theorem total_waitFlashOp (h : Loose f s) (hcr : s.cr = crStopped ∨ s.cr = crRunning) :
    Total waitFlashOp s fun _ t => Idle { f with received := [], busy := 0 } t := by
  rw [waitFlashOp]
  have hstart : Total (loop (fun i => do
      let flashStatus ← xqspiFlashReadStatus
      if i > 100 then pure (.inr ())
      else if flashStatus &&& 0x1#8 = 0#8 then pure (.inl (i + 1))
      else pure (.inr ())) 0) s fun _ t => ∃ b, Idle { f with received := [], busy := b } t := by
    refine Total.loop (fun _ t => Loose f t ∧ (t.cr = crStopped ∨ t.cr = crRunning))
      (fun i _ => 101 - i) ?_ ⟨h, hcr⟩
    rintro i t ⟨ht, htcr⟩
    refine (total_xqspiFlashReadStatus_loose ht htcr).bind ?_
    rintro v u ⟨b, hu⟩
    have hloose : Loose f u := ⟨by rw [hu.flash], by simp [hu.flash, hu.tx]⟩
    split_ifs with hi hv
    · exact Total.pure ⟨b, hu⟩
    · refine Total.pure ⟨⟨hloose, .inl hu.cr⟩, ?_⟩
      omega
    · exact Total.pure ⟨b, hu⟩
  refine hstart.bind fun _ t ht => ?_
  refine Total.loop (fun _ t => ∃ b, Idle { f with received := [], busy := b } t)
    (fun _ t => t.flash.busy) ?_ ht
  rintro _ t ⟨b, ht⟩
  refine (total_xqspiFlashReadStatus ht rfl).bind ?_
  rintro _ u ⟨rfl, hu⟩
  by_cases hbusy : 0 < b
  · rw [if_pos ((Flash.status_busy _).mpr hbusy)]
    refine Total.pure ⟨⟨b - 1, hu⟩, ?_⟩
    rw [hu.flash, ht.flash]
    exact Nat.sub_lt hbusy Nat.one_pos
  · rw [if_neg (mt (Flash.status_busy _).mp hbusy)]
    refine Total.pure ?_
    have hzero : b - 1 = 0 := by omega
    simpa only [hzero] using hu

end

end ScBl
