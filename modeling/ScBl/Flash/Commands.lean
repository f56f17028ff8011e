import ScBl.Flash.Transfer
import ScBl.Lib.Words

/-!
# The commands of the flash driver

Each is one transfer or two, and leaves the flash ready with what the command has done to it
(`total_xqspiFlash4kSubsectorErase`, `total_writePage`).
-/

namespace ScBl

open Progs Xqspi

/-! ## Erase and program -/

/-- The bytes of an address, as they are sent. -/
def addrBytes (addr : U32) : List U8 :=
  [(addr >>> 24).setWidth 8, (addr >>> 16).setWidth 8, (addr >>> 8).setWidth 8, addr.setWidth 8]

theorem addrOfBytes_eq (addr : U32) :
    addrOfBytes ((addr >>> 24).setWidth 8) ((addr >>> 16).setWidth 8) ((addr >>> 8).setWidth 8)
      (addr.setWidth 8) = addr := by
  refine BitVec.eq_of_getLsbD_eq fun i hi => ?_
  simp only [addrOfBytes, BitVec.getLsbD_append, BitVec.getLsbD_setWidth,
    BitVec.getLsbD_ushiftRight]
  by_cases h0 : i < 8
  · simp [h0]
  · by_cases h1 : i - 8 < 8
    · have heq : 8 + (i - 8) = i := by omega
      simp [h0, h1, heq]
    · by_cases h2 : i - 8 - 8 < 8
      · have heq : 16 + (i - 8 - 8) = i := by omega
        simp [h0, h1, h2, heq]
      · have heq : 24 + (i - 8 - 8 - 8) = i := by omega
        have hlt : i - 8 - 8 - 8 < 8 := by omega
        simp [h0, h1, h2, heq, hlt]

section

variable [NvramPlf] {s : Xqspi} {f : Flash} {st : FlashStore} {x : Xlen} {addr : x.Word}
  {β : Type} {R : β → Xqspi → Prop}

theorem total_xqspiResetTxRxFifo (htx : s.tx = [])
    (hcr : s.cr ∈ [crStopped, crReady, crRunning]) :
    Total xqspiResetTxRxFifo s fun _ t => t = { s with rx := [] } := by
  simp only [xqspiResetTxRxFifo, xqspiGetCtrlReg, xqspiSetCtrlReg]
  refine total_read_bind (.inl htx) ?_
  refine total_write (.inl htx) ?_
  have hcontrol : s.control (s.cr ||| (xspCrTxfifoResetMask ||| xspCrRxfifoResetMask)) =
      { s with cr := s.cr, tx := [], rx := [] } := by
    simp only [List.mem_cons, List.not_mem_nil, or_false] at hcr
    rcases hcr with hcr | hcr | hcr
    all_goals
      rw [hcr]
      rfl
  rw [Xqspi.read, write, hcontrol, htx]

theorem total_xqspiResetRxFifo (htx : s.tx = []) (hcr : s.cr = crRunning) :
    Total xqspiResetRxFifo s fun _ t => t = { s with rx := [] } := by
  simp only [xqspiResetRxFifo, xqspiGetCtrlReg, xqspiSetCtrlReg]
  refine total_read_bind (.inl htx) ?_
  refine total_write (.inl htx) ?_
  have hcontrol : s.control (s.cr ||| xspCrRxfifoResetMask) = { s with cr := s.cr, rx := [] } := by
    rw [hcr]
    rfl
  rw [Xqspi.read, write, hcontrol]

theorem total_xqspiInit (htx : s.tx = []) (hcr : s.cr = crStopped ∨ s.cr = crReady) :
    Total xqspiInit s fun _ t => t = { s with cr := crReady, rx := [] } := by
  simp only [xqspiInit, xqspiGetCtrlReg, xqspiSetCtrlReg]
  refine total_read_bind (.inl htx) ?_
  refine total_write (.inl htx) ?_
  have hcontrol : s.control (s.cr ||| (xspCrTxfifoResetMask ||| xspCrRxfifoResetMask |||
      xspCrManualSsMask ||| xspCrEnableMask ||| xspCrTransInhibitMask ||| xspCrMasterModeMask)) =
      { s with cr := crReady, tx := [], rx := [] } := by
    rcases hcr with hcr | hcr
    · rw [hcr]
      rfl
    · rw [hcr]
      rfl
  rw [Xqspi.read, write, hcontrol, htx]

/-- A byte more in the FIFO of a controller that is not started. -/
theorem total_xqspiTx32_bind {k : Unit → Driver β} {v : U32} (hrun : s.running = false)
    (htx : s.tx.length < xspTxFifoDepth)
    (hk : Total (k ()) { s with tx := s.tx ++ [v.setWidth 8] } R) :
    Total (xqspiTx32 v >>= k) s R := by
  rw [xqspiTx32]
  refine total_write_bind (.inr hrun) ?_
  rwa [write_dtr v htx]

omit [NvramPlf] in
theorem setWidth_addr_byte (addr : x.Word) (n : ℕ) (hn : n ≤ 24) :
    ((addr >>> n).setWidth 32 &&& 0xFF#32).setWidth 8 = ((addr.setWidth 32) >>> n).setWidth 8 := by
  have hx : 32 ≤ 8 * x.hart8 := by cases x <;> decide
  refine BitVec.eq_of_getLsbD_eq fun i hi => ?_
  have hmask : (0xFF#32).getLsbD i = true := by
    have hlow := Words.getLsbD_lowMask (w := 32) 8 i
    have hlt : i < 32 := by omega
    rwa [decide_eq_true hi, decide_eq_true hlt] at hlow
  simp only [BitVec.getLsbD_setWidth, BitVec.getLsbD_and, BitVec.getLsbD_ushiftRight, hmask]
  have hlt : i < 32 := by omega
  have hlt' : n + i < 32 := by omega
  simp [hi, hlt, hlt']

theorem total_txAddr {cmd : U8} (hrun : s.running = false) (htx : s.tx = [cmd]) :
    Total (txAddr addr) s fun _ t =>
      t = { s with tx := cmd :: addrBytes (addr.setWidth 32) } := by
  have hlow := setWidth_addr_byte addr 0 (by decide)
  rw [BitVec.ushiftRight_zero, BitVec.ushiftRight_zero] at hlow
  have hroom : ∀ l : List U8, l.length ≤ 4 → l.length < xspTxFifoDepth := fun l hl => by
    rw [xspTxFifoDepth]
    omega
  rw [txAddr]
  refine total_xqspiTx32_bind hrun (hroom _ (by simp [htx])) ?_
  refine total_xqspiTx32_bind hrun (hroom _ (by simp [htx])) ?_
  refine total_xqspiTx32_bind hrun (hroom _ (by simp [htx])) ?_
  rw [xqspiTx32]
  refine total_write (.inr hrun) ?_
  rw [write_dtr _ (hroom _ (by simp [htx])), setWidth_addr_byte addr 24 (by decide),
    setWidth_addr_byte addr 16 (by decide), setWidth_addr_byte addr 8 (by decide), hlow, htx]
  rfl

/-- **A command** with an address, until the flash has it: five bytes go into the FIFO while the
controller is inhibited, and out of it once it is started. -/
theorem total_command_bind {k : Driver β} {cmd : U32} (hcr : s.cr = crStopped ∨ s.cr = crReady)
    (hssr : s.ssr = xspSsrDis) (htx : s.tx = []) (hf : s.flash.Ready)
    (hcmd : cmd.setWidth 8 ≠ 0x05#8)
    (hk : ∀ t, Sending s.flash (cmd.setWidth 8 :: addrBytes (addr.setWidth 32)) t → t.tx = [] →
      Total k t R) :
    Total (do xqspiTx32 cmd; txAddr addr; xqspiStart; let _ ← xqspiWaitTxDone; k) s R := by
  have hrun : s.running = false := not_running_of_cr hcr
  have hhead : (cmd.setWidth 8 :: addrBytes (addr.setWidth 32)).head? ≠ some 0x05#8 := by
    simpa using hcmd
  refine total_xqspiTx32_bind hrun (by rw [htx]; decide) ?_
  rw [htx]
  refine (total_txAddr (s := { s with tx := [cmd.setWidth 8] }) hrun rfl).bind ?_
  rintro _ t rfl
  refine (total_xqspiStart
    (s := { s with tx := cmd.setWidth 8 :: addrBytes (addr.setWidth 32) }) hcr hssr).bind ?_
  rintro _ t rfl
  have hsending := sending_of_start
    (s := { s with tx := cmd.setWidth 8 :: addrBytes (addr.setWidth 32) }) hf rfl
  refine (total_xqspiWaitTxDone (steady_sending hhead) (fun t ht => running_of_cr ht.cr)
    hsending).bind ?_
  rintro _ t ⟨ht, httx⟩
  exact hk t ht httx

/-- No command is under way, and the flash is ready and holds `st`. -/
def IdleWith (st : FlashStore) (s : Xqspi) : Prop :=
  ∃ f : Flash, f.Ready ∧ f.store = st ∧ Idle f s

omit [NvramPlf] in
theorem Flash.execute_erase (hwel : f.wel = true) (a : U32) :
    f.execute (0x20#8 :: addrBytes a) = f.started (f.store.eraseSector a) := by
  rw [addrBytes, Flash.execute, if_pos hwel, addrOfBytes_eq]

/-- The end of a command that starts an operation, and the wait for it. The flash answers as busy
until the operation is done. -/
theorem total_waitFlashOp_started (hf : f.Ready) (hstarted : f.started st = s.flash)
    (htx : s.tx = []) (hcr : s.cr = crRunning) :
    Total waitFlashOp s fun _ t => IdleWith st t := by
  have hreceived : s.flash.received = [] := by
    rw [← hstarted]
    exact hf.received
  have hloose : Loose s.flash s := ⟨rfl, by simp [hreceived, htx]⟩
  refine (total_waitFlashOp hloose (.inr hcr)).mono fun _ t ht => ?_
  exact ⟨_, ⟨rfl, rfl⟩, by rw [← hstarted]; rfl, ht⟩

theorem IdleWith.not_selected (h : IdleWith st s) : s.selected = false := by
  obtain ⟨f, -, -, hidle⟩ := h
  exact not_selected_of_ssr hidle.ssr

/-- There is nothing to stop. -/
theorem total_xqspiStop_idle (h : IdleWith st s) :
    Total xqspiStop s fun _ t => IdleWith st t := by
  have hnot : ¬ (s.selected = true ∧ ¬ selected { s with ssr := xspSsrDis } = true) := by
    rw [h.not_selected]
    exact fun hgo => Bool.false_ne_true hgo.1
  obtain ⟨f, hf, hst, hidle⟩ := h
  refine (total_xqspiStop hidle.tx (by simp [hidle.cr])).mono ?_
  rintro _ _ rfl
  rw [select, if_neg hnot]
  exact ⟨f, hf, hst, rfl, rfl, hidle.tx, hidle.rx, hidle.flash⟩

/-- **Erase**: the sector with the address. The flash carries the command out when it is deselected,
and the driver waits until its status says that it is done. -/
theorem total_xqspiFlash4kSubsectorErase (h : IdleWith st s) :
    Total (xqspiFlash4kSubsectorErase addr) s fun _ t =>
      IdleWith (st.eraseSector (addr.setWidth 32)) t := by
  obtain ⟨f, hf, rfl, hidle⟩ := h
  rw [xqspiFlash4kSubsectorErase]
  refine (total_xqspiFlashWriteEnable hidle hf).bind fun _ t ht => ?_
  refine (total_xqspiResetTxRxFifo ht.tx (by simp [ht.cr])).bind ?_
  rintro _ u rfl
  refine (total_xqspiInit (s := { t with rx := [] }) ht.tx (.inl ht.cr)).bind ?_
  rintro _ u rfl
  have hready : t.flash.Ready := by
    rw [ht.flash]
    exact ⟨hf.busy, hf.received⟩
  refine total_command_bind (s := { t with cr := crReady, rx := [] }) (.inr rfl) ht.ssr ht.tx
    hready (by decide) fun u hu hutx => ?_
  have hwel : t.flash.wel = true := by rw [ht.flash]
  have hstore : t.flash.store = f.store := by rw [ht.flash]
  have hexecute : t.flash.execute (BitVec.setWidth 8 0x20#32 :: addrBytes (addr.setWidth 32)) =
      t.flash.started (f.store.eraseSector (addr.setWidth 32)) := by
    rw [← hstore]
    exact Flash.execute_erase hwel _
  refine total_write_bind (.inl hutx) ?_
  rw [write, hu.select_dis hutx hready, hexecute]
  obtain ⟨v, hv⟩ : ∃ v, v = { u with
      ssr := xspSsrDis
      flash := t.flash.started (f.store.eraseSector (addr.setWidth 32)) } := ⟨_, rfl⟩
  have hvtx : v.tx = [] := by rw [hv, hutx]
  have hvcr : v.cr = crRunning := by rw [hv, hu.cr]
  rw [← hv]
  refine (total_xqspiResetTxRxFifo hvtx (by simp [hvcr])).bind ?_
  rintro _ _ rfl
  refine (total_waitFlashOp_started (s := { v with rx := [] }) hready (by rw [hv]) hvtx
    hvcr).bind ?_
  exact fun _ w hw => total_xqspiStop_idle hw

end

/-! ## A page -/

/-- `n` bytes of the buffer, from `ptr` on. -/
def bytesFrom (buf : ℕ → U8) (ptr n : ℕ) : List U8 := (List.range n).map fun i => buf (ptr + i)

section

variable {s : Xqspi} {f : Flash} {st : FlashStore} {x : Xlen} {buf : ℕ → U8} {bytes : List U8}
  {i ptr wrSize end_ n m : ℕ}

theorem bytesFrom_zero : bytesFrom buf ptr 0 = [] := rfl

theorem bytesFrom_add :
    bytesFrom buf ptr (n + m) = bytesFrom buf ptr n ++ bytesFrom buf (ptr + n) m := by
  rw [bytesFrom, List.range_add, List.map_append, List.map_map]
  simp only [bytesFrom, Function.comp_def, Nat.add_assoc]

theorem bytesFrom_succ : bytesFrom buf ptr (n + 1) = bytesFrom buf ptr n ++ [buf (ptr + n)] :=
  bytesFrom_add

/-- A byte more while others go out. -/
theorem total_xqspiTx32_sending [NvramPlf] {v : U32} (hbytes : bytes.head? ≠ some 0x05#8)
    (h : Sending f bytes s) (hn : s.tx.length ≤ n) (hroom : n < xspTxFifoDepth) :
    Total (xqspiTx32 v) s fun _ t =>
      Sending f (bytes ++ [v.setWidth 8]) t ∧ t.tx.length ≤ n + 1 := by
  have hsteady : Steady fun t => Sending f bytes t ∧ t.tx.length ≤ n := by
    intro t ht hrun
    refine ⟨steady_sending hbytes t ht.1 hrun, ?_⟩
    rw [sendByte_tx, List.length_tail]
    exact (Nat.sub_le _ _).trans ht.2
  rw [xqspiTx32, xqspiWriteReg32]
  refine total_access hsteady ⟨h, hn⟩ fun t ht => ?_
  rw [write_dtr v (lt_of_le_of_lt ht.2 hroom)]
  refine ⟨⟨ht.1.cr, ht.1.ssr, ?_, ht.1.flash⟩, by simpa using ht.2⟩
  rw [← ht.1.stream, List.append_assoc]

theorem head?_append_ne (hbytes : bytes.head? ≠ some 0x05#8) (hne : bytes ≠ []) (l : List U8) :
    (bytes ++ l).head? ≠ some 0x05#8 := by
  cases bytes with
  | nil => exact absurd rfl hne
  | cons b bytes => simpa using hbytes

/-- A burst fills the FIFO at most: it begins with the FIFO empty and puts in no more than that
holds, so that no byte is dropped. -/
theorem total_txBurst [NvramPlf] (hbytes : bytes.head? ≠ some 0x05#8) (hne : bytes ≠ [])
    (h : Sending f bytes s) (htx : s.tx = []) (hi : i ≤ wrSize) :
    Total (txBurst buf wrSize i ptr) s fun r t =>
      r = (i + min xspTxFifoDepth (wrSize - i), ptr + min xspTxFifoDepth (wrSize - i)) ∧
        Sending f (bytes ++ bytesFrom buf ptr (min xspTxFifoDepth (wrSize - i))) t := by
  refine Total.loop
    (fun r t => r.2.1 = i + r.1 ∧ r.2.2 = ptr + r.1 ∧ r.1 ≤ xspTxFifoDepth ∧ r.2.1 ≤ wrSize ∧
      Sending f (bytes ++ bytesFrom buf ptr r.1) t ∧ t.tx.length ≤ r.1)
    (fun r _ => xspTxFifoDepth - r.1) ?_ ⟨rfl, rfl, Nat.zero_le _, hi, ?_, ?_⟩
  · rintro ⟨j, i', ptr'⟩ t ⟨hij, hptr, hj, hi', ht, hlength⟩
    dsimp only at hij hptr hj hi' ht hlength ⊢
    subst hij hptr
    by_cases hroom : j < xspTxFifoDepth
    · rw [if_pos hroom]
      by_cases hend : i + j ≥ wrSize
      · rw [if_pos hend]
        refine Total.pure ?_
        have hmin : min xspTxFifoDepth (wrSize - i) = j := by omega
        rw [hmin]
        exact ⟨rfl, ht⟩
      · rw [if_neg hend]
        refine (total_xqspiTx32_sending (head?_append_ne hbytes hne _) ht hlength hroom).bind ?_
        rintro _ u ⟨hu, hulength⟩
        refine Total.pure ⟨⟨rfl, rfl, hroom, not_le.mp hend, ?_, hulength⟩, ?_⟩
        rotate_left
        · exact Nat.sub_lt_sub_left hroom (Nat.lt_succ_self j)
        rw [bytesFrom_succ, ← List.append_assoc]
        simpa using hu
    · rw [if_neg hroom]
      refine Total.pure ?_
      have hmin : min xspTxFifoDepth (wrSize - i) = j := by omega
      rw [hmin]
      exact ⟨rfl, ht⟩
  · rwa [bytesFrom_zero, List.append_nil]
  · rw [htx]
    rfl

/-- **The data of a page**, all of it: bursts, after each of which the driver waits until the FIFO
is empty. By induction on the bursts that are left. -/
theorem total_txPage [NvramPlf] (hbytes : bytes.head? ≠ some 0x05#8) (hne : bytes ≠ [])
    (h : Sending f bytes s) (htx : s.tx = []) (hend : ptr + wrSize ≤ end_) :
    Total (txPage buf end_ wrSize ptr) s fun ptr' t =>
      ptr' = ptr + wrSize ∧ Sending f (bytes ++ bytesFrom buf ptr wrSize) t ∧ t.tx = [] := by
  refine Total.loop
    (fun r t => r.2 = ptr + r.1 ∧ r.1 ≤ wrSize ∧ Sending f (bytes ++ bytesFrom buf ptr r.1) t ∧
      t.tx = [])
    (fun r _ => wrSize - r.1) ?_ ⟨rfl, Nat.zero_le _, ?_, htx⟩
  · rintro ⟨i, ptr'⟩ t ⟨hptr, hi, ht, httx⟩
    dsimp only at hptr hi ht ⊢
    subst hptr
    by_cases hmore : i < wrSize
    · rw [if_pos hmore, if_neg (by omega)]
      have hbytes' := head?_append_ne hbytes hne (bytesFrom buf ptr i)
      have hne' : bytes ++ bytesFrom buf ptr i ≠ [] := List.append_ne_nil_of_left_ne_nil hne _
      refine (total_txBurst hbytes' hne' ht httx hi).bind ?_
      rintro _ u ⟨rfl, hu⟩
      have hbytes'' := head?_append_ne hbytes' hne'
        (bytesFrom buf (ptr + i) (min xspTxFifoDepth (wrSize - i)))
      refine (total_xqspiWaitTxDone (steady_sending hbytes'') (fun v hv => running_of_cr hv.cr)
        hu).bind ?_
      rintro _ v ⟨hv, hvtx⟩
      refine (total_xqspiResetRxFifo hvtx hv.cr).bind ?_
      rintro _ _ rfl
      have hdepth : 0 < xspTxFifoDepth := by decide
      rw [List.append_assoc, ← bytesFrom_add] at hv
      refine Total.pure ⟨⟨Nat.add_assoc _ _ _, ?_, ⟨hv.cr, hv.ssr, hv.stream, hv.flash⟩,
        hvtx⟩, ?_⟩
      · dsimp only
        omega
      · dsimp only
        omega
    · rw [if_neg hmore]
      obtain rfl : i = wrSize := by omega
      exact Total.pure ⟨rfl, ht, httx⟩
  · rwa [bytesFrom_zero, List.append_nil]

theorem Flash.execute_program (hwel : f.wel = true) (a : U32) {data : List U8} (hdata : data ≠ []) :
    f.execute (0x02#8 :: addrBytes a ++ data) = f.started (f.store.programPage a data) := by
  rw [addrBytes]
  change (if _ then _ else _) = _
  rw [if_pos ⟨hwel, hdata⟩, addrOfBytes_eq]
  rfl

/-- **A page**, as much of it as there is to write: enable, command, address and data, in this
order, and the wait for the flash. The cursor is past the page afterwards. -/
theorem total_writePage [NvramPlf] {c : FlashCursor x} (h : IdleWith st s) (hsize : 0 < c.size)
    (hend : c.ptr + min xspFlashPageSize c.size ≤ end_) :
    Total (writePage buf end_ c) s fun c' t =>
      c' = ⟨c.ptr + min xspFlashPageSize c.size, c.curAddr + BitVec.ofNat _ xspFlashPageSize,
        c.size - min xspFlashPageSize c.size⟩ ∧
      IdleWith (st.programPage (c.curAddr.setWidth 32)
        (bytesFrom buf c.ptr (min xspFlashPageSize c.size))) t := by
  obtain ⟨f, hf, rfl, hidle⟩ := h
  have hwrSize : (if c.size > xspFlashPageSize then xspFlashPageSize else c.size) =
      min xspFlashPageSize c.size := by
    split_ifs with hlt
    · omega
    · omega
  simp only [writePage, hwrSize]
  refine (total_xqspiFlashWriteEnable hidle hf).bind fun _ t ht => ?_
  refine (total_xqspiResetTxRxFifo ht.tx (by simp [ht.cr])).bind ?_
  rintro _ _ rfl
  have hready : t.flash.Ready := by
    rw [ht.flash]
    exact ⟨hf.busy, hf.received⟩
  refine total_command_bind (s := { t with rx := [] }) (.inl ht.cr) ht.ssr ht.tx hready
    (by decide) fun u hu hutx => ?_
  refine (total_txPage (by simp) (by simp) hu hutx hend).bind ?_
  rintro _ v ⟨rfl, hv, hvtx⟩
  have hwel : t.flash.wel = true := by rw [ht.flash]
  have hstore : t.flash.store = f.store := by rw [ht.flash]
  have hdata : bytesFrom buf c.ptr (min xspFlashPageSize c.size) ≠ [] := by
    have hpage : 0 < xspFlashPageSize := by decide
    rw [bytesFrom, Ne, List.map_eq_nil_iff, List.range_eq_nil]
    omega
  have hexecute := Flash.execute_program hwel (c.curAddr.setWidth 32) hdata
  rw [hstore] at hexecute
  refine total_write_bind (.inl hvtx) ?_
  rw [write, hv.select_dis hvtx hready]
  refine Total.bind (total_waitFlashOp_started hready hexecute.symm hvtx hv.cr) ?_
  rintro _ w hw
  refine Total.pure ⟨?_, hw⟩
  have hrest : (if c.size > min xspFlashPageSize c.size then
      c.size - min xspFlashPageSize c.size else 0) = c.size - min xspFlashPageSize c.size := by
    split_ifs
    · rfl
    · omega
  rw [hrest]

end

/-! ## Before the first sector -/

section

variable [NvramPlf] {s : Xqspi} {f : Flash} {bytes : List U8}

/-- The flash is not selected. -/
structure Xqspi.Unselected (f : Flash) (s : Xqspi) : Prop where
  selected : s.selected = false
  flash : s.flash = f

theorem steady_unselected (f : Flash) : Steady (Unselected f) := by
  intro s h _
  cases htx : s.tx with
  | nil => rwa [sendByte_of_nil htx]
  | cons b tx =>
    rw [sendByte, htx]
    dsimp only
    rw [h.selected, if_neg Bool.false_ne_true]
    exact ⟨h.selected, h.flash⟩

theorem Xqspi.Unselected.select_dis (h : Unselected f s) :
    s.select xspSsrDis = { s with ssr := xspSsrDis } := by
  rw [select, h.selected, if_neg fun hgo => Bool.false_ne_true hgo.1]

/-- Reset, whatever state the controller is in. Bytes that are still in its FIFO go nowhere, since
no slave is selected. -/
theorem total_xqspiReset (h : Unselected f s) :
    Total xqspiReset s fun _ t =>
      t.cr = crReady ∧ t.ssr = xspSsrDis ∧ t.tx = [] ∧ t.rx = [] ∧ t.flash = f := by
  rw [xqspiReset]
  have hclear : Total (xqspiWriteReg32 .cr (xspCrMasterModeMask ||| xspCrManualSsMask |||
      xspCrTxfifoResetMask ||| xspCrRxfifoResetMask ||| xspCrTransInhibitMask)) s fun _ t =>
        Unselected f t ∧ t.tx = [] ∧ t.rx = [] :=
    total_access (steady_unselected f) h fun t ht => ⟨⟨ht.selected, ht.flash⟩, rfl, rfl⟩
  refine hclear.bind ?_
  rintro _ t ⟨ht, htx, hrx⟩
  refine total_write_bind (.inl htx) ?_
  have hreset : Unselected f (t.write xspSrrResetMask .srr) ∧
      (t.write xspSrrResetMask .srr).tx = [] ∧ (t.write xspSrrResetMask .srr).rx = [] := by
    rw [write, if_pos rfl, ht.select_dis]
    exact ⟨⟨not_selected_of_ssr rfl, ht.flash⟩, rfl, rfl⟩
  obtain ⟨u, hu⟩ : ∃ u, u = t.write xspSrrResetMask .srr := ⟨_, rfl⟩
  rw [← hu] at hreset ⊢
  obtain ⟨hunselected, hutx, hurx⟩ := hreset
  refine total_write_bind (.inl hutx) ?_
  rw [write, hunselected.select_dis]
  exact total_write (.inl hutx) ⟨rfl, rfl, hutx, hurx, hunselected.flash⟩

/-- A byte goes out for each that comes in. -/
theorem steady_sending_rx (hbytes : bytes.head? ≠ some 0x05#8) :
    Steady fun t => Sending f bytes t ∧ (t.rx = [] → t.flash.received = []) := by
  intro s h hrun
  refine ⟨steady_sending hbytes s h.1 hrun, ?_⟩
  cases htx : s.tx with
  | nil =>
    rw [sendByte_of_nil htx]
    exact h.2
  | cons b tx =>
    rw [sendByte_of_selected (selected_of_ssr h.1.ssr) htx]
    intro hrx
    dsimp only [push] at hrx
    split_ifs at hrx with hroom
    · simp at hrx
    · rw [hrx] at hroom
      exact absurd (by decide) hroom

/-- The bytes behind the command for the id. -/
theorem total_jedecZeros (hrun : s.running = false) :
    Total (loop (fun opCnt => if opCnt < 7 then do
        xqspiTx32 0x00#32
        pure (.inl (opCnt + 1))
      else pure (.inr ())) 0) { s with tx := [0x9F#8] } fun _ t =>
        t = { s with tx := 0x9F#8 :: List.replicate 7 0x00#8 } := by
  refine Total.loop
    (fun i t => i ≤ 7 ∧ t = { s with tx := 0x9F#8 :: List.replicate i 0x00#8 })
    (fun i _ => 7 - i) ?_ ⟨Nat.zero_le 7, rfl⟩
  rintro i _ ⟨hi, rfl⟩
  by_cases hmore : i < 7
  · rw [if_pos hmore]
    refine total_xqspiTx32_bind hrun ?_ ?_
    · simp only [List.length_cons, List.length_replicate, xspTxFifoDepth]
      omega
    · refine Total.pure ⟨⟨hmore, ?_⟩, by omega⟩
      rw [List.replicate_succ']
      rfl
  · rw [if_neg hmore]
    obtain rfl : i = 7 := by omega
    exact Total.pure rfl

/-- **The id** is read for its side effects on the controller. As a byte comes in for each that goes
out, the FIFO is not empty, and the branch that leaves early is not taken. -/
theorem total_xqspiFlashGetJedecId {len : ℕ} (hcr : s.cr = crReady) (hssr : s.ssr = xspSsrDis)
    (htx : s.tx = []) (hf : s.flash.Ready) :
    Total (xqspiFlashGetJedecId len) s fun _ t => IdleWith s.flash.store t := by
  have hrun : s.running = false := not_running_of_cr (.inr hcr)
  have hroom : s.tx.length < xspTxFifoDepth := by
    rw [htx]
    decide
  rw [xqspiFlashGetJedecId]
  refine total_xqspiTx32_bind hrun hroom ?_
  rw [htx]
  refine Total.bind (total_jedecZeros hrun) ?_
  rintro _ _ rfl
  refine Total.bind (total_xqspiStart
    (s := { s with tx := 0x9F#8 :: List.replicate 7 0x00#8 }) (.inr hcr) hssr) ?_
  rintro _ _ rfl
  have hsending : Sending s.flash (0x9F#8 :: List.replicate 7 0x00#8) { s with
      cr := crRunning, ssr := xspSsrEna, tx := 0x9F#8 :: List.replicate 7 0x00#8 } :=
    sending_of_start (s := { s with tx := 0x9F#8 :: List.replicate 7 0x00#8 }) hf rfl
  refine Total.bind (total_xqspiWaitTxDone (steady_sending_rx (by simp))
    (fun t ht => running_of_cr ht.1.cr) ⟨hsending, fun _ => hf.received⟩) ?_
  rintro _ t ⟨⟨ht, hrx⟩, httx⟩
  have hreceived : t.flash.received = 0x9F#8 :: List.replicate 7 0x00#8 := by
    rw [← ht.stream, httx, List.append_nil]
  have hne : t.rx ≠ [] := by
    intro hnil
    rw [hrx hnil] at hreceived
    cases hreceived
  rw [xqspiGetStatusReg]
  refine total_read_bind (.inl httx) ?_
  rw [Xqspi.read, if_neg (mt status_rxEmpty.mp hne)]
  refine Total.bind (total_readRxFifo httx) ?_
  rintro _ _ ⟨rfl, rfl⟩
  have ht' : Sending s.flash (0x9F#8 :: List.replicate 7 0x00#8) { t with rx := [] } :=
    ⟨ht.cr, ht.ssr, ht.stream, ht.flash⟩
  refine Total.bind (total_xqspiStop (s := { t with rx := [] }) httx (by simp [ht.cr])) ?_
  rintro _ _ rfl
  refine Total.pure ?_
  rw [ht'.select_dis httx hf]
  exact ⟨s.flash, hf, rfl, rfl, rfl, httx, rfl, rfl⟩

end

end ScBl
