import ScBl.Lib.Sv39
import ScBl.Sbi.Agree

/-!
# The TLB miss handler (`mentry.S`, `tlb_miss_trap_handler`)

The page walk that `__trap_hander` branches to on a TLB miss, for Sv39: three levels by hand,
with the addresses of the entries from helper CSRs, and the entry found reported to the MMU.
-/

namespace ScBl

open Rv Sv39

/-- `CSR_MMU_UPDATE_MPAGE` -/
def csrMmuUpdateMpage : U64 := 1#64 <<< 2
/-- `CSR_MMU_UPDATE_GPAGE` -/
def csrMmuUpdateGpage : U64 := 2#64 <<< 2

/-- The helper CSRs on a TLB miss. -/
structure TlbCsrs where
  /-- `CSR_TLB_PTE2_ADDR` -/
  pte2Addr : U64
  /-- `CSR_TLB_PTE1_OFFS` -/
  pte1Offs : U64
  /-- `CSR_TLB_PTE0_OFFS` -/
  pte0Offs : U64

/-- A hart in the handler. -/
structure TlbHart where
  hart : SbiHart
  /-- The writes to (`CSR_MMU_PATTR`, `CSR_MMU_UPDATE`), the latest last. -/
  updates : List (U64 × U64)
  /-- The addresses of the entries that have been read, the latest last. -/
  reads : List U64

namespace TlbHart

variable (csrs : TlbCsrs) (s : TlbHart)

/-- Instructions on registers. -/
def exec (f : RegFile 64 → RegFile 64) : TlbHart := { s with hart := s.hart.exec f }

/-- `load_reg_offs a0, 0, a0` -/
def loadPte : TlbHart where
  hart := s.hart.exec fun x => x.set .a0 (s.hart.mem (x.get .a0))
  updates := s.updates
  reads := s.reads ++ [s.hart.x.get .a0]

/-- `csrw CSR_MMU_PATTR, a0` and `csrw CSR_MMU_UPDATE, update` -/
def writeMmu (update : U64) : TlbHart :=
  { s with updates := s.updates ++ [(s.hart.x.get .a0, update)] }

/-- The end of each label: the entry in `a0`, masked by its bit `V`, goes to the MMU, and the
registers are as they were. -/
def report (update : U64) : TlbHart :=
  let s := s.exec (·.slli .a1 .a0 (64 - 1))
  let s := s.exec (·.srai .a1 .a1 (64 - 1))
  let s := s.exec (·.and .a0 .a0 .a1)
  let s := s.exec (·.ori .a0 .a0 1#64)
  let s := s.writeMmu update
  { s with hart := ((s.hart.loadReg .a0).loadReg .a1).swapSp }

/-- The entry of the next level, in the table that the one in `a0` points to. -/
def nextPte (offs : U64) : TlbHart :=
  let s := s.exec (·.srli .a0 .a0 10)
  let s := s.exec (·.li .a1 offs)
  let s := s.exec (·.slli .a0 .a0 12)
  let s := s.exec (·.add .a0 .a0 .a1)
  s.loadPte

/-- The test for a pointer, with zero in `a1` for one. -/
def testPointer : TlbHart :=
  let s := s.exec (·.andi .a1 .a0 0xf#64)
  s.exec (·.addi .a1 .a1 (-1#64))

def tlbMissTrapGigaPage : TlbHart := s.report csrMmuUpdateGpage

def tlbMissTrapMegaPage : TlbHart := s.report csrMmuUpdateMpage

def tlbMissTrap4kPage : TlbHart := (s.nextPte csrs.pte0Offs).report 0#64

def tlbMissTrapHandler : TlbHart :=
  let s := s.exec (·.li .a0 csrs.pte2Addr)
  let s := s.loadPte.testPointer
  if s.hart.x.get .a1 ≠ 0#64 then s.tlbMissTrapGigaPage
  else
    let s := (s.nextPte csrs.pte1Offs).testPointer
    if s.hart.x.get .a1 = 0#64 then s.tlbMissTrap4kPage csrs
    else s.tlbMissTrapMegaPage

/-! ## Steps -/

variable {csrs s} {e : SbiHart}

/-- Inside the handler that has been entered with `e`, with `pte` in `a0`. -/
structure At (e : SbiHart) (pte : U64) (reads : List U64) (s : TlbHart) : Prop where
  frame : s.hart = { e with x := s.hart.x }
  regs : ∀ r ∉ [.a0, .a1], s.hart.x.get r = e.x.get r
  a0 : s.hart.x.get .a0 = pte
  updates : s.updates = []
  reads : s.reads = reads

variable {pte addr offs update : U64} {reads : List U64}

/-- The first entry. -/
theorem at_first (csrs : TlbCsrs) (e : SbiHart) :
    At e (e.mem csrs.pte2Addr) [csrs.pte2Addr]
      ((TlbHart.mk e [] []).exec (·.li .a0 csrs.pte2Addr)).loadPte := by
  refine ⟨rfl, fun r hr => ?_, ?_, rfl, ?_⟩
  · simp only [List.mem_cons, List.not_mem_nil, or_false, not_or] at hr
    simp [loadPte, exec, SbiHart.exec, RegFile.li, hr.1]
  · simp [loadPte, exec, SbiHart.exec, RegFile.li]
  · simp [loadPte, exec, SbiHart.exec, RegFile.li]

theorem At.testPointer (h : At e pte reads s) :
    At e pte reads s.testPointer ∧ (s.testPointer.hart.x.get .a1 = 0#64 ↔ isPointer pte) := by
  refine ⟨⟨?_, fun r hr => ?_, ?_, h.updates, h.reads⟩, ?_⟩
  · rw [TlbHart.testPointer, exec, exec, SbiHart.exec, SbiHart.exec, h.frame]
  · have hregs := h.regs r hr
    simp only [List.mem_cons, List.not_mem_nil, or_false, not_or] at hr
    simpa [TlbHart.testPointer, exec, SbiHart.exec, RegFile.andi, RegFile.addi, hr.2] using hregs
  · simpa [TlbHart.testPointer, exec, SbiHart.exec, RegFile.andi, RegFile.addi] using h.a0
  · have ha1 : s.testPointer.hart.x.get .a1 = (pte &&& 0xf#64) + -1#64 := by
      simp [TlbHart.testPointer, exec, SbiHart.exec, RegFile.andi, RegFile.addi, h.a0]
    rw [ha1, ← sub_eq_add_neg, ← and_nibble_eq_one]
    exact sub_eq_zero

/-- The entry of the next level. -/
theorem At.nextPte (h : At e pte reads s) (hhigh : pte >>> 54 = 0#64)
    (haddr : tableOf pte + offs = addr) :
    At e (e.mem addr) (reads ++ [addr]) (s.nextPte offs) := by
  have htable := shift_eq_tableOf hhigh
  have hmem : s.hart.mem = e.mem := by rw [h.frame]
  refine ⟨?_, fun r hr => ?_, ?_, h.updates, ?_⟩
  · simp only [TlbHart.nextPte, loadPte, exec, SbiHart.exec]
    rw [h.frame]
  · have hregs := h.regs r hr
    simp only [List.mem_cons, List.not_mem_nil, or_false, not_or] at hr
    simpa [TlbHart.nextPte, loadPte, exec, SbiHart.exec, RegFile.srli, RegFile.li, RegFile.slli,
      RegFile.add, hr.1, hr.2] using hregs
  · simp [TlbHart.nextPte, loadPte, exec, SbiHart.exec, RegFile.srli, RegFile.li, RegFile.slli,
      RegFile.add, h.a0, htable, haddr, hmem]
  · simp [TlbHart.nextPte, loadPte, exec, SbiHart.exec, RegFile.srli, RegFile.li, RegFile.slli,
      RegFile.add, h.a0, htable, haddr, h.reads]

/-- What a handler that has been entered with `e` leaves behind, once it has reported. -/
structure Reported (e : SbiHart) (r : Sv39.Result) (t : TlbHart) : Prop where
  updates : t.updates =
    [(if valid r.pte then r.pte else 1#64, BitVec.ofNat 64 r.level <<< 2)]
  reads : t.reads = r.path
  sp : t.hart.x.get .sp = e.mscratch
  mscratch : t.hart.mscratch = e.x.get .sp
  a0 : t.hart.x.get .a0 = e.xreg.get .a0
  a1 : t.hart.x.get .a1 = e.xreg.get .a1
  regs : ∀ r ∉ [.sp, .a0, .a1], t.hart.x.get r = e.x.get r

theorem At.report {level : ℕ} (h : At e pte reads s)
    (hupdate : update = BitVec.ofNat 64 level <<< 2) :
    Reported e ⟨pte, level, reads⟩ (s.report update) := by
  have hpattr := and_spread_or_one pte
  have hxreg : s.hart.xreg = e.xreg := by rw [h.frame]
  have hmscratch : s.hart.mscratch = e.mscratch := by rw [h.frame]
  have hsp := h.regs .sp (by decide)
  refine ⟨?_, h.reads, ?_, ?_, ?_, ?_, fun r hr => ?_⟩
  · simp [TlbHart.report, writeMmu, exec, SbiHart.exec, RegFile.slli, RegFile.srai, RegFile.and,
      RegFile.ori, h.a0, h.updates, hpattr, hupdate]
  · simp [TlbHart.report, writeMmu, exec, SbiHart.exec, SbiHart.loadReg, SbiHart.swapSp, hmscratch]
  · simp [TlbHart.report, writeMmu, exec, SbiHart.exec, SbiHart.loadReg, SbiHart.swapSp,
      RegFile.slli, RegFile.srai, RegFile.and, RegFile.ori, hsp]
  · simp [TlbHart.report, writeMmu, exec, SbiHart.exec, SbiHart.loadReg, SbiHart.swapSp, hxreg]
  · simp [TlbHart.report, writeMmu, exec, SbiHart.exec, SbiHart.loadReg, SbiHart.swapSp, hxreg]
  · simp only [List.mem_cons, List.not_mem_nil, or_false, not_or] at hr
    obtain ⟨hsp, h0, h1⟩ := hr
    have hregs := h.regs r (by simp [h0, h1])
    simpa [TlbHart.report, writeMmu, exec, SbiHart.exec, SbiHart.loadReg, SbiHart.swapSp,
      RegFile.slli, RegFile.srai, RegFile.and, RegFile.ori, hsp, h0, h1] using hregs

/-- What the hardware has in the helper CSRs on a miss of `va`, with the page table at `root`. -/
structure Helps (csrs : TlbCsrs) (root va : U64) : Prop where
  pte2Addr : csrs.pte2Addr = root + 8#64 * (vpn va 2).setWidth 64
  pte1Offs : csrs.pte1Offs = 8#64 * (vpn va 1).setWidth 64
  pte0Offs : csrs.pte0Offs = 8#64 * (vpn va 0).setWidth 64

/-- The last level. -/
theorem At.fourK {table root va : U64} (hcsrs : Helps csrs root va) (h : At e pte reads s)
    (hhigh : pte >>> 54 = 0#64) (htable : tableOf pte = table) :
    Reported e
      ⟨(walk e.mem va 0 table).pte, (walk e.mem va 0 table).level,
        reads ++ (walk e.mem va 0 table).path⟩ (s.tlbMissTrap4kPage csrs) := by
  have hnext : tableOf pte + csrs.pte0Offs = pteAddr table va 0 := by
    rw [htable, hcsrs.pte0Offs, pteAddr]
  exact (h.nextPte hhigh hnext).report rfl

/-- **The handler** walks the page table and reports where the walk ends: at a leaf of one of the
three levels, or at an entry that is neither a leaf nor a pointer. -/
theorem reported_tlbMissTrapHandler {root va : U64} (hcsrs : Helps csrs root va)
    (hpte : ∀ addr ∈ (walk e.mem va 2 root).path, e.mem addr >>> 54 = 0#64) :
    Reported e (walk e.mem va 2 root) (tlbMissTrapHandler csrs ⟨e, [], []⟩) := by
  obtain ⟨addr, haddr⟩ : ∃ addr, addr = pteAddr root va 2 := ⟨_, rfl⟩
  have hroot : csrs.pte2Addr = addr := hcsrs.pte2Addr.trans haddr.symm
  obtain ⟨hat, htest⟩ := (at_first csrs e).testPointer
  rw [hroot] at hat htest
  rw [tlbMissTrapHandler, hroot]
  by_cases hgiga : isPointer (e.mem addr)
  · rw [walk_pointer (haddr ▸ hgiga), ← haddr] at hpte ⊢
    obtain ⟨addr', haddr'⟩ : ∃ addr', addr' = pteAddr (tableOf (e.mem addr)) va 1 := ⟨_, rfl⟩
    have hnext : tableOf (e.mem addr) + csrs.pte1Offs = addr' := by
      rw [hcsrs.pte1Offs, haddr', pteAddr]
    obtain ⟨hat', htest'⟩ := (hat.nextPte (hpte _ (List.mem_cons_self ..)) hnext).testPointer
    rw [if_neg (not_not.mpr (htest.mpr hgiga))]
    by_cases hmega : isPointer (e.mem addr')
    · rw [walk_pointer (haddr' ▸ hmega), ← haddr'] at hpte ⊢
      rw [if_pos (htest'.mpr hmega)]
      have hhigh := hpte addr' (List.mem_cons_of_mem _ (List.mem_cons_self ..))
      exact hat'.fourK hcsrs hhigh rfl
    · rw [walk_leaf (haddr' ▸ hmega), ← haddr']
      rw [if_neg fun h => hmega (htest'.mp h)]
      exact hat'.report rfl
  · rw [walk_leaf (haddr ▸ hgiga), ← haddr, if_pos fun h => hgiga (htest.mp h)]
    exact hat.report rfl

/-- The trap handler goes to the TLB miss handler. -/
theorem trapHander_tlbMiss (plf : SbiPlf) {s : SbiHart} (hmiss : s.mcause = excTlbMiss) :
    s.trapHander plf = .tlbMissTrapHandler (s.atTest excTlbMiss) := by
  have hpos : ¬ excTlbMiss.slt 0#64 := by decide
  simp [SbiHart.trapHander, SbiHart.atTest, SbiHart.exec, SbiHart.saveReg, SbiHart.swapSp,
    RegFile.li, hmiss, hpos]

/-- **A TLB miss** is answered by the Sv39 walk: the MMU gets the entry where the walk ends and
its level, nothing else of the page table is read, and the program finds its registers again. -/
theorem tlb_miss_walk (plf : SbiPlf) (csrs : TlbCsrs) (s : SbiHart) (root va : U64)
    (hmiss : s.mcause = excTlbMiss) (hcsrs : Helps csrs root va)
    (hpte : ∀ addr ∈ (walk s.mem va 2 root).path, s.mem addr >>> 54 = 0#64) :
    ∃ e t, s.trapHander plf = .tlbMissTrapHandler e ∧ tlbMissTrapHandler csrs ⟨e, [], []⟩ = t ∧
      t.updates =
        [(if valid (walk s.mem va 2 root).pte then (walk s.mem va 2 root).pte else 1#64,
          BitVec.ofNat 64 (walk s.mem va 2 root).level <<< 2)] ∧
      t.reads = (walk s.mem va 2 root).path ∧
      (∀ r, t.hart.x.get r = s.x.get r) ∧ t.hart.mscratch = s.mscratch := by
  obtain ⟨e, he⟩ : ∃ e, e = s.atTest excTlbMiss := ⟨_, rfl⟩
  have hentered : SbiHart.Entered s e := he ▸ s.atTest_entered excTlbMiss
  have hmem : e.mem = s.mem := by rw [he]; rfl
  rw [← hmem] at hpte ⊢
  have hreported := reported_tlbMissTrapHandler hcsrs hpte
  refine ⟨e, _, he ▸ trapHander_tlbMiss plf hmiss, rfl, hreported.updates, hreported.reads,
    fun r => ?_, ?_⟩
  · by_cases hsp : r = .sp
    · rw [hsp, hreported.sp, he]
      rfl
    · by_cases h0 : r = .a0
      · rw [h0, hreported.a0, hentered.arg0]
      · by_cases h1 : r = .a1
        · rw [h1, hreported.a1, hentered.arg1]
        · rw [hreported.regs r (by simp [hsp, h0, h1]), he]
          simp [SbiHart.atTest, SbiHart.exec, SbiHart.saveReg, SbiHart.swapSp, RegFile.li, hsp,
            h0, h1]
  · rw [hreported.mscratch, hentered.sp]

/-- A miss with a page table that is a single page, all of whose entries point to itself. -/
def tlbMissLoop : SbiHart where
  x := ⟨fun _ => 7#64⟩
  mscratch := 0x9000#64
  mepc := 0#64
  mcause := excTlbMiss
  xreg := ⟨fun _ => 0#64⟩
  ipiN _ := 0#8
  mem _ := 0x401#64
  hartsOnline := 0#64
  numHarts := 0#32
  slotBitsShift := 0#32
  effects := []

theorem tlb_miss_walk_loop : ∃ t : TlbHart, t.updates = [(0x401#64, 0#64)] ∧
    t.reads = [0x1000#64, 0x1000#64, 0x1000#64] ∧ t.hart.x.get .a0 = 7#64 := by
  have hhigh : 0x401#64 >>> 54 = 0#64 := by decide
  obtain ⟨_, t, _, _, hupdates, hreads, hregs, _⟩ :=
    tlb_miss_walk ⟨.csr, 0, 0, 0, 0, 0, 0, false⟩ ⟨0x1000#64, 0#64, 0#64⟩ tlbMissLoop 0x1000#64
      0#64 rfl ⟨by decide, by decide, by decide⟩ fun _ _ => hhigh
  exact ⟨t, hupdates.trans (by decide), hreads.trans (by decide), hregs .a0⟩

end TlbHart

end ScBl
