import ScBl.Flash.Commands

/-!
# Writing the flash (`xqspi_flash_write`)

The sectors are erased one after the other, each before its pages are programmed, so that in
the end the flash holds the buffer (`xqspiFlashWrite_writes`).
-/

namespace ScBl

open Progs Xqspi

/-! ## The content -/

/-- How far an address is from the start. -/
def offset (start a : U32) : ℕ := (a - start).toNat

variable {start a : U32} {buf : ℕ → U8} {st st₀ : FlashStore} {ops : List FlashOp}
  {done erased n k i : ℕ}

theorem offset_add (hk : k < 2 ^ 32) : offset start (start + BitVec.ofNat 32 k) = k := by
  rw [offset, BitVec.add_comm, BitVec.add_sub_cancel, BitVec.toNat_ofNat, Nat.mod_eq_of_lt hk]

theorem add_offset (start a : U32) : start + BitVec.ofNat 32 (offset start a) = a := by
  rw [offset, BitVec.ofNat_toNat, BitVec.setWidth_eq, BitVec.add_comm, BitVec.sub_add_cancel]

theorem toNat_start_add (hk : start.toNat + k < 2 ^ 32) :
    (start + BitVec.ofNat 32 k).toNat = start.toNat + k := by
  rw [BitVec.toNat_add, BitVec.toNat_ofNat, Nat.add_mod_mod, Nat.mod_eq_of_lt hk]

/-- The sectors from the start on, by offsets. -/
theorem sectorOf_eq_iff (hstart : start.toNat % 4096 = 0) (hn : n % 4096 = 0)
    (hend : start.toNat + n + 4096 ≤ 2 ^ 32) :
    sectorOf a = sectorOf (start + BitVec.ofNat 32 n) ↔
      n ≤ offset start a ∧ offset start a < n + 4096 := by
  have ha := a.isLt
  rw [sectorOf, sectorOf, toNat_start_add (by omega), offset, BitVec.toNat_sub]
  omega

/-- What has been done in a call: each byte that has been programmed was erased before, and
not after. -/
structure OpsInOrder (ops : List FlashOp) : Prop where
  inOrder : ∀ before a after, ops = before ++ .program a :: after →
    .erase (sectorOf a) ∈ before ∧ .erase (sectorOf a) ∉ after

/-- The flash in the course of a call: `done` bytes have been programmed, and `erased` bytes
erased before. -/
structure InProgress (start : U32) (buf : ℕ → U8) (st₀ : FlashStore) (done erased : ℕ)
    (st : FlashStore) : Prop where
  mem : ∀ a, st.mem a =
    if offset start a < done then buf (offset start a)
    else if offset start a < erased then 0xFF#8 else st₀.mem a
  log : ∃ ops, st.log = st₀.log ++ ops ∧ OpsInOrder ops ∧
    (∀ a, .program a ∈ ops → offset start a < done) ∧
    ∀ a, offset start a < erased → .erase (sectorOf a) ∈ ops

/-- At the start of a call. -/
theorem InProgress.zero (start : U32) (buf : ℕ → U8) (st₀ : FlashStore) :
    InProgress start buf st₀ 0 0 st₀ := by
  refine ⟨fun a => ?_, [], (List.append_nil _).symm, ⟨fun before a after heq => ?_⟩, ?_, ?_⟩
  · rw [if_neg (Nat.not_lt_zero _), if_neg (Nat.not_lt_zero _)]
  · simp at heq
  · exact fun a ha => absurd ha List.not_mem_nil
  · exact fun a ha => absurd ha (Nat.not_lt_zero _)

/-- One operation more, which does not erase what has been programmed. -/
theorem OpsInOrder.append (h : OpsInOrder ops) {op : FlashOp}
    (herase : ∀ a, .program a ∈ ops → op ≠ .erase (sectorOf a))
    (hprogram : ∀ a, op = .program a → .erase (sectorOf a) ∈ ops) : OpsInOrder (ops ++ [op]) := by
  refine ⟨fun before a after heq => ?_⟩
  rcases List.eq_nil_or_concat after with rfl | ⟨after, op', rfl⟩
  · obtain ⟨rfl, hop⟩ := List.append_inj' heq rfl
    obtain rfl : op = .program a := by simpa using hop
    exact ⟨hprogram a rfl, List.not_mem_nil⟩
  · rw [List.concat_eq_append, ← List.cons_append, ← List.append_assoc] at heq
    obtain ⟨rfl, hop⟩ := List.append_inj' heq rfl
    obtain rfl : op = op' := by simpa using hop
    obtain ⟨hbefore, hafter⟩ := h.inOrder before a after rfl
    refine ⟨hbefore, fun hmem => ?_⟩
    rw [List.concat_eq_append, List.mem_append, List.mem_singleton] at hmem
    rcases hmem with hmem | hmem
    · exact hafter hmem
    · exact herase a (by simp) hmem.symm

/-- **A sector** is erased before its first byte is programmed: the data before it is in other
sectors, and stays. -/
theorem InProgress.eraseSector (h : InProgress start buf st₀ n n st)
    (hstart : start.toNat % 4096 = 0) (hn : n % 4096 = 0)
    (hend : start.toNat + n + 4096 ≤ 2 ^ 32) :
    InProgress start buf st₀ n (n + 4096) (st.eraseSector (start + BitVec.ofNat 32 n)) := by
  have hsector := fun a => sectorOf_eq_iff (a := a) hstart hn hend
  obtain ⟨ops, hlog, horder, hprogram, herase⟩ := h.log
  refine ⟨fun a => ?_, ops ++ [.erase (sectorOf (start + BitVec.ofNat 32 n))], ?_, ?_, ?_, ?_⟩
  · rw [FlashStore.eraseSector]
    dsimp only
    rw [h.mem a]
    simp only [hsector a]
    split_ifs <;> first | rfl | omega
  · rw [FlashStore.eraseSector, hlog, List.append_assoc]
  · refine horder.append (fun a ha heq => ?_) (fun a heq => by cases heq)
    have hsame : sectorOf a = sectorOf (start + BitVec.ofNat 32 n) := by
      simpa using heq.symm
    have hlt := hprogram a ha
    have hge := ((hsector a).mp hsame).1
    omega
  · intro a ha
    exact hprogram a (by simpa using ha)
  · intro a ha
    rw [List.mem_append, List.mem_singleton]
    by_cases hlt : offset start a < n
    · exact .inl (herase a hlt)
    · have hsame := (hsector a).mpr ⟨not_lt.mp hlt, ha⟩
      exact .inr (by rw [hsame])

/-- A byte is programmed where the flash has been erased. Programming can only clear bits, and all
bits are set there, so that the byte is the one of the buffer. -/
theorem InProgress.programByte (h : InProgress start buf st₀ done erased st)
    (hdone : done < erased) (herased : erased ≤ 2 ^ 32) :
    InProgress start buf st₀ (done + 1) erased
      (st.programByte (start + BitVec.ofNat 32 done) (buf done)) := by
  have hoffset : offset start (start + BitVec.ofNat 32 done) = done := offset_add (by omega)
  obtain ⟨ops, hlog, horder, hprogram, herase⟩ := h.log
  refine ⟨fun a => ?_, ops ++ [.program (start + BitVec.ofNat 32 done)], ?_, ?_, ?_, ?_⟩
  · rw [FlashStore.programByte]
    dsimp only
    by_cases ha : a = start + BitVec.ofNat 32 done
    · subst ha
      rw [Function.update_self, h.mem, hoffset, if_neg (lt_irrefl done), if_pos hdone,
        if_pos (Nat.lt_succ_self done)]
      exact BitVec.allOnes_and
    · have hne : offset start a ≠ done := by
        rintro rfl
        exact ha (add_offset start a).symm
      rw [Function.update_of_ne ha, h.mem]
      split_ifs <;> first | rfl | omega
  · rw [FlashStore.programByte, hlog, List.append_assoc]
  · refine horder.append (fun a _ heq => by cases heq) (fun a heq => ?_)
    obtain rfl : start + BitVec.ofNat 32 done = a := by simpa using heq
    exact herase _ (by rwa [hoffset])
  · intro a ha
    rw [List.mem_append, List.mem_singleton] at ha
    rcases ha with ha | ha
    · exact Nat.lt_succ_of_lt (hprogram a ha)
    · obtain rfl : a = start + BitVec.ofNat 32 done := by simpa using ha
      rw [hoffset]
      exact Nat.lt_succ_self done
  · intro a ha
    exact List.mem_append_left _ (herase a ha)

theorem toNat_and_page (a : U32) : (a &&& 0xFF#32).toNat = a.toNat % 256 := by
  rw [BitVec.toNat_and]
  exact Nat.and_two_pow_sub_one_eq_mod a.toNat 8

/-- From the first address of a page on nothing wraps: the page ends where the address is a multiple
of 256 again. -/
theorem inPage_eq {addr : U32} (haddr : addr.toNat % 256 = 0) (hi : i < 256) :
    FlashStore.inPage addr i = addr + BitVec.ofNat 32 i := by
  have hzero : addr &&& 0xFF#32 = 0#32 :=
    BitVec.eq_of_toNat_eq ((toNat_and_page addr).trans haddr)
  have hpage : addr &&& ~~~0xFF#32 = addr := by
    calc addr &&& ~~~0xFF#32 = (addr &&& 0xFF#32) ||| (addr &&& ~~~0xFF#32) := by
          rw [hzero, BitVec.zero_or]
      _ = addr := by
          rw [← BitVec.and_or_distrib_left, BitVec.or_not_self, BitVec.and_allOnes]
  have hbyte : (addr + BitVec.ofNat 32 i) &&& 0xFF#32 = BitVec.ofNat 32 i := by
    refine BitVec.eq_of_toNat_eq ((toNat_and_page _).trans ?_)
    rw [BitVec.toNat_add, BitVec.toNat_ofNat]
    omega
  have hdisjoint : addr &&& BitVec.ofNat 32 i = 0#32 := by
    rw [← hbyte, BitVec.and_comm _ 0xFF#32, ← BitVec.and_assoc, hzero, BitVec.zero_and]
  rw [FlashStore.inPage, hpage, hbyte, BitVec.add_eq_or_of_and_eq_zero addr _ hdisjoint]

/-- The bytes of a page, from the one with number `i` on. By induction on how many are left of it.
-/
theorem InProgress.programFrom (hpage : (start + BitVec.ofNat 32 n).toNat % 256 = 0)
    (herased : erased ≤ 2 ^ 32) (m : ℕ) :
    ∀ i st, InProgress start buf st₀ (n + i) erased st → i + m ≤ 256 → n + i + m ≤ erased →
      InProgress start buf st₀ (n + i + m) erased
        (FlashStore.programFrom (start + BitVec.ofNat 32 n) i (bytesFrom buf (n + i) m) st) := by
  induction m with
  | zero => exact fun i st h _ _ => h
  | succ m ih =>
    intro i st h hfits hend
    have hbytes : bytesFrom buf (n + i) (m + 1) = buf (n + i) :: bytesFrom buf (n + (i + 1)) m := by
      rw [Nat.add_comm m 1, bytesFrom_add]
      rfl
    have haddr : FlashStore.inPage (start + BitVec.ofNat 32 n) i =
        start + BitVec.ofNat 32 (n + i) := by
      rw [inPage_eq hpage (by omega), BitVec.add_assoc, BitVec.ofNat_add]
    have hbyte := h.programByte (by omega) herased
    have hcount : n + i + (m + 1) = n + (i + 1) + m := by omega
    rw [hbytes, FlashStore.programFrom, haddr, hcount]
    exact ih (i + 1) _ hbyte (by omega) (by omega)

/-- **A page** within what has been erased. -/
theorem InProgress.programPage (h : InProgress start buf st₀ n erased st)
    (hpage : (start + BitVec.ofNat 32 n).toNat % 256 = 0) (herased : erased ≤ 2 ^ 32) {m : ℕ}
    (hfits : m ≤ 256) (hend : n + m ≤ erased) :
    InProgress start buf st₀ (n + m) erased
      (st.programPage (start + BitVec.ofNat 32 n) (bytesFrom buf n m)) :=
  InProgress.programFrom hpage herased m 0 st h (by omega) hend

/-! ## The loops -/

section

variable {x : Xlen} {c : FlashCursor x} {s : Xqspi}

/-- The variables agree on how much of `n` bytes has been written. -/
structure AtCursor (start : U32) (n : ℕ) (c : FlashCursor x) : Prop where
  size : c.ptr + c.size = n
  page : 0 < c.size → c.ptr % 256 = 0
  curAddr : 0 < c.size → c.curAddr.setWidth 32 = start + BitVec.ofNat 32 c.ptr

theorem AtCursor.next (h : AtCursor start n c) (hsize : 0 < c.size) :
    AtCursor start n (⟨c.ptr + min xspFlashPageSize c.size,
      c.curAddr + BitVec.ofNat _ xspFlashPageSize,
      c.size - min xspFlashPageSize c.size⟩ : FlashCursor x) := by
  have hn := h.size
  have hpage := h.page hsize
  have hmin : 0 < c.size - min xspFlashPageSize c.size → min xspFlashPageSize c.size = 256 := by
    rw [xspFlashPageSize]
    omega
  refine ⟨by dsimp only; omega, fun hmore => ?_, fun hmore => ?_⟩
  · dsimp only
    rw [hmin hmore]
    omega
  · have hwidth : 32 ≤ 8 * x.hart8 := by cases x <;> decide
    dsimp only
    rw [hmin hmore, BitVec.setWidth_add _ _ hwidth, h.curAddr hsize,
      BitVec.setWidth_ofNat_of_le hwidth, BitVec.ofNat_add, BitVec.add_assoc, xspFlashPageSize]

/-- **A sector**, as much of it as there is to write: it is erased once, and then programmed by
pages, by induction on the bytes that are left in it. -/
theorem total_writeSector [NvramPlf] (hc : AtCursor start n c) (hsize : 0 < c.size)
    (hsector : c.ptr % 4096 = 0) (hstart : start.toNat % 4096 = 0)
    (hend : start.toNat + c.ptr + 4096 ≤ 2 ^ 32) (h : IdleWith st s)
    (hst : InProgress start buf st₀ c.ptr c.ptr st) :
    Total (writeSector buf c) s fun c' t => AtCursor start n c' ∧
      c'.ptr = c.ptr + min xspFlash4kPageSize c.size ∧
      ∃ st', IdleWith st' t ∧ InProgress start buf st₀ c'.ptr (c.ptr + 4096) st' := by
  have hpageSize : xspFlashPageSize = 256 := rfl
  have hsectorSize : xspFlash4kPageSize = 4096 := rfl
  have hrest : (if c.size > xspFlash4kPageSize then xspFlash4kPageSize else c.size) =
      min xspFlash4kPageSize c.size := by
    split_ifs
    · omega
    · omega
  have hn := hc.size
  simp only [writeSector, hrest]
  refine (total_xqspiFlash4kSubsectorErase h).bind fun _ t ht => ?_
  have herased := hst.eraseSector hstart hsector hend
  rw [← hc.curAddr hsize] at herased
  refine Total.loop
    (fun c' t => AtCursor start n c' ∧ c'.ptr ≤ c.ptr + min xspFlash4kPageSize c.size ∧
      ∃ st', IdleWith st' t ∧ InProgress start buf st₀ c'.ptr (c.ptr + 4096) st')
    (fun c' _ => c.ptr + min xspFlash4kPageSize c.size - c'.ptr) ?_
    ⟨hc, Nat.le_add_right _ _, _, ht, herased⟩
  rintro c' t ⟨hc', hle, st', hidle, hst'⟩
  by_cases hmore : c'.ptr < c.ptr + min xspFlash4kPageSize c.size
  · have hn' := hc'.size
    have hsize' : 0 < c'.size := by omega
    have hpage := hc'.page hsize'
    have hfits : c'.ptr + min xspFlashPageSize c'.size ≤ c.ptr + min xspFlash4kPageSize c.size := by
      omega
    rw [if_pos hmore]
    refine (total_writePage hidle hsize' hfits).bind ?_
    rintro _ u ⟨rfl, hu⟩
    refine Total.pure ⟨⟨hc'.next hsize', hfits, _, hu, ?_⟩, by dsimp only; omega⟩
    rw [hc'.curAddr hsize']
    have hpage' : (start + BitVec.ofNat 32 c'.ptr).toNat % 256 = 0 := by
      rw [toNat_start_add (by omega)]
      omega
    exact hst'.programPage hpage' (by omega) (by omega) (by omega)
  · rw [if_neg hmore]
    exact Total.pure ⟨hc', by omega, st', hidle, hst'⟩

/-- **All sectors**, the last one maybe in part, by induction on their number. The cursor comes to
the start of a sector each time. -/
theorem total_writeSectors [NvramPlf] (hc : AtCursor start n c) (hfirst : c.ptr = 0)
    (hstart : start.toNat % 4096 = 0) (hend : start.toNat + n ≤ 2 ^ 32) (h : IdleWith st s) :
    Total (writeSectors buf ((n + 4095) / 4096) c) s fun _ t =>
      ∃ st', IdleWith st' t ∧ InProgress start buf st n ((n + 4095) / 4096 * 4096) st' := by
  have hsectorSize : xspFlash4kPageSize = 4096 := rfl
  have hzero : InProgress start buf st c.ptr (0 * 4096) st := by
    rw [hfirst]
    exact .zero start buf st
  refine Total.loop
    (fun r t => r.1 ≤ (n + 4095) / 4096 ∧ AtCursor start n r.2 ∧ r.2.ptr = min (r.1 * 4096) n ∧
      ∃ st', IdleWith st' t ∧ InProgress start buf st r.2.ptr (r.1 * 4096) st')
    (fun r _ => (n + 4095) / 4096 - r.1) ?_
    ⟨Nat.zero_le _, hc, by simp [hfirst], st, h, hzero⟩
  rintro ⟨sCnt, c⟩ t ⟨hcnt, hc, hptr, st', hidle, hst⟩
  dsimp only at hcnt hc hptr hst ⊢
  by_cases hmore : sCnt < (n + 4095) / 4096
  · have hsize := hc.size
    have hdone : c.ptr = sCnt * 4096 := by omega
    rw [← hdone] at hst
    rw [if_pos hmore]
    refine (total_writeSector hc (by omega) (by omega) hstart (by omega) hidle hst).bind ?_
    rintro c' u ⟨hc', hptr', st'', hidle', hst'⟩
    have hnext : c'.ptr = min ((sCnt + 1) * 4096) n := by omega
    refine Total.pure ⟨⟨hmore, hc', hnext, st'', hidle', ?_⟩, by omega⟩
    rwa [Nat.succ_mul, ← hdone]
  · rw [if_neg hmore]
    obtain rfl : sCnt = (n + 4095) / 4096 := by omega
    have hdone : c.ptr = n := by omega
    rw [hdone] at hst
    exact Total.pure ⟨st', hidle, hst⟩

/-- `size` bytes of the buffer have been written from the start on, and nothing else but the
sectors they are in has been touched. -/
structure FlashWritten (start : U32) (buf : ℕ → U8) (size : ℕ) (st₀ st : FlashStore) : Prop where
  data : ∀ k < size, st.mem (start + BitVec.ofNat 32 k) = buf k
  rest : ∀ a, (∀ k < size, a ≠ start + BitVec.ofNat 32 k) →
    (∃ k < size, sectorOf a = sectorOf (start + BitVec.ofNat 32 k)) → st.mem a = 0xFF#8
  outside : ∀ a, (∀ k < size, sectorOf a ≠ sectorOf (start + BitVec.ofNat 32 k)) →
    st.mem a = st₀.mem a
  log : ∃ ops, st.log = st₀.log ++ ops ∧ OpsInOrder ops

theorem InProgress.written (h : InProgress start buf st₀ n erased st)
    (hstart : start.toNat % 4096 = 0) (hend : start.toNat + n ≤ 2 ^ 32)
    (herased : erased = (n + 4095) / 4096 * 4096) : FlashWritten start buf n st₀ st := by
  have hoffset : ∀ k < n, offset start (start + BitVec.ofNat 32 k) = k := fun k hk =>
    offset_add (by omega)
  have hoff : ∀ a, ∀ k < n, sectorOf a = sectorOf (start + BitVec.ofNat 32 k) ↔
      offset start a / 4096 = k / 4096 := by
    intro a k hk
    have ha := a.isLt
    rw [sectorOf, sectorOf, toNat_start_add (by omega), offset, BitVec.toNat_sub]
    omega
  refine ⟨fun k hk => ?_, fun a hdata => ?_, fun a hout => ?_, ?_⟩
  · rw [h.mem, hoffset k hk, if_pos hk]
  · rintro ⟨k, hk, hsector⟩
    have hnot : ¬ offset start a < n := fun hlt => hdata _ hlt (add_offset start a).symm
    have hin := (hoff a k hk).mp hsector
    rw [h.mem, if_neg hnot, if_pos (by omega)]
  · have hnot : ¬ offset start a < n := fun hlt => hout _ hlt (by rw [add_offset])
    have hnotErased : ¬ offset start a < erased := by
      intro hlt
      refine hout (n - 1) (by omega) ((hoff a (n - 1) (by omega)).mpr ?_)
      omega
    rw [h.mem, if_neg hnot, if_neg hnotErased]
  · obtain ⟨ops, hlog, horder, -⟩ := h.log
    exact ⟨ops, hlog, horder⟩

/-- **`xqspi_flash_write` writes the image.** From a state with the flash ready and not
selected, whatever the controller has in its registers and FIFOs, it ends with the data where
it belongs, in sectors that have been erased for it, and with the flash ready again. -/
theorem xqspiFlashWrite_writes [NvramPlf] (startAddr : x.Word) (buf : ℕ → U8) (size : U32)
    (s : Xqspi) (halign : startAddr.toNat % 4096 = 0)
    (hend : startAddr.toNat + size.toNat ≤ 2 ^ 32)
    (hselected : s.selected = false) (hready : s.flash.Ready) :
    Total (xqspiFlashWrite startAddr buf size) s fun _ t =>
      FlashWritten (startAddr.setWidth 32) buf size.toNat s.flash.store t.flash.store ∧
        t.flash.Ready ∧ t.selected = false := by
  obtain ⟨n, hn⟩ : ∃ n, n = size.toNat := ⟨_, rfl⟩
  obtain ⟨start, hstart⟩ : ∃ start, start = startAddr.setWidth 32 := ⟨_, rfl⟩
  have hstartAlign : start.toNat % 4096 = 0 := by
    rw [hstart, BitVec.toNat_setWidth]
    omega
  have hstartEnd : start.toNat + n ≤ 2 ^ 32 := by
    rw [hstart, BitVec.toNat_setWidth]
    omega
  have hnumSectors : (n / xspFlash4kPageSize + if n % xspFlash4kPageSize ≠ 0 then 1 else 0) =
      (n + 4095) / 4096 := by
    rw [xspFlash4kPageSize]
    split_ifs
    · omega
    · omega
  have hcursor : AtCursor start n (⟨0, startAddr, n⟩ : FlashCursor x) := by
    refine ⟨Nat.zero_add n, fun _ => rfl, fun _ => ?_⟩
    rw [← hstart, BitVec.add_zero]
  rw [xqspiFlashWrite]
  refine (total_xqspiReset ⟨hselected, rfl⟩).bind ?_
  rintro _ t ⟨hcr, hssr, htx, hrx, hflash⟩
  refine (total_xqspiInit htx (.inr hcr)).bind ?_
  rintro _ _ rfl
  have htflash : t.flash.Ready := by rwa [hflash]
  refine (total_xqspiFlashGetJedecId (s := { t with cr := crReady, rx := [] }) rfl hssr htx
    htflash).bind fun _ u hu => ?_
  rw [hflash] at hu
  simp only [← hn, hnumSectors, ← hstart]
  refine (total_writeSectors hcursor rfl hstartAlign hstartEnd hu).bind ?_
  rintro _ v ⟨st, hidle, hst⟩
  refine (total_xqspiStop_idle hidle).mono fun _ w hw => ?_
  have hunselected := hw.not_selected
  obtain ⟨f, hf, rfl, hw⟩ := hw
  rw [hw.flash]
  exact ⟨hst.written hstartAlign hstartEnd rfl, hf, hunselected⟩

end

/-- A flash that is the first of the slaves. -/
@[reducible]
def NvramPlf.first : NvramPlf where
  plfNvramChipselect := 0x1#32
  chipselect_ne_zero := by decide

/-- The controller after power on, with a flash of zeros that takes its time. -/
def Xqspi.afterPowerOn : Xqspi where
  cr := xspCrManualSsMask ||| xspCrTransInhibitMask
  ssr := xspSsrDis
  tx := []
  rx := []
  flash :=
    { store := ⟨fun _ => 0#8, []⟩
      wel := false
      busy := 0
      busyFor := fun n => n + 3
      received := [] }
  noise _ := 0xFF#8

/-- 300 bytes at `0x1000`, which end at `0x112B`. -/
theorem xqspiFlashWrite_writes_sample :
    letI := NvramPlf.first
    Total (xqspiFlashWrite (x := .rv64) 0x1000#64 (fun k => BitVec.ofNat 8 k) 300#32)
      Xqspi.afterPowerOn fun _ t =>
        t.flash.store.mem 0x112B#32 = 0x2B#8 ∧ t.flash.store.mem 0x1FFF#32 = 0xFF#8 ∧
          t.flash.store.mem 0x2000#32 = 0x00#8 := by
  let _ := NvramPlf.first
  refine (xqspiFlashWrite_writes (x := .rv64) 0x1000#64 (fun k => BitVec.ofNat 8 k) 300#32
    Xqspi.afterPowerOn (by decide) (by decide) (by decide) ⟨rfl, rfl⟩).mono ?_
  rintro _ t ⟨hwritten, -, -⟩
  refine ⟨hwritten.data 299 (by decide), hwritten.rest _ ?_ ⟨299, by decide, by decide⟩,
    hwritten.outside _ ?_⟩
  · decide +kernel
  · decide +kernel

end ScBl
