import ScBl.Sbi.MaskLoop
import ScBl.Ipi.Msg
import Mathlib.Data.Set.BooleanAlgebra
import Mathlib.Order.CompletePartialOrder

/-!
# Where the storage of a hart is (`include/hls.h`)

The stack and the thread-local storage of a hart are in one piece of `HLSIZE` bytes, and
the pieces lie below `__C_STACK_TOP__` by the numbers of the harts. Five computations look
for them: in C from the top and from the piece of the running hart, a division of the stack
pointer, a page number in an IPI, and the mask loop in assembly, which comes from the far
end. They agree (`hartStorage_agree`). `XLEN = 64`, with the CSR mailbox.
-/

namespace ScBl

open Rv

/-! ## The code -/

/-- What the linker decides, for a platform. -/
structure HartLayout where
  plf : SbiPlf
  /-- `__C_STACK_TOP__` -/
  cStackTop : U64
  /-- `__TLS_SIZE__` -/
  tlsSize : U64
  /-- The offset of `hart_local_storage.hls` from `tp`. -/
  hlsOffset : U64
  aligned : 0x1000 ∣ cStackTop.toNat
  tls0Base_eq : plf.tls0Base = cStackTop - tlsSize
  tlsSize_pos : 0#64 < tlsSize
  tlsSize_lt : tlsSize < plf.hlsize

namespace HartLayout

variable (lay : HartLayout)

/-- `hart_stack_page_top(hartn)` -/
def hartStackPageTop (hartn : U32) : U64 := lay.cStackTop / lay.plf.hlsize - hartn.setWidth 64

/-- `hart_tls(hartn)` -/
def hartTls (hartn : U32) : U64 := lay.plf.tls0Base - hartn.setWidth 64 * lay.plf.hlsize

/-- `logical_hart()` -/
def logicalHart (sp : U64) : U64 := (lay.cStackTop - sp) / lay.plf.hlsize

/-- `HLS()` -/
def hls (tp : U64) : U64 := tp + lay.hlsOffset

/-- `hart_hls(hartn)` -/
def hartHls (tp sp : U64) (hartn : U32) : U64 :=
  lay.hls tp + (lay.logicalHart sp - hartn.setWidth 64) * lay.plf.hlsize

/-- The word of the `SETUP` command. -/
def setupMsg (hartn : U32) : U64 := packScipiMsg scrIpiCmdSetup (lay.hartStackPageTop hartn)

/-- `secondary_setup`, with the word that `ipi_wait_cmd` has left in `a1`. -/
def secondarySetup (x : RegFile 64) : RegFile 64 :=
  -- `ipi_get_hls_addr`
  let x := x.srli .a1 .a1 scrIpiRecvSrcBits
  let x := x.slli .a1 .a1 lay.plf.hlshift
  let x := x.lui .tp (hi20 lay.tlsSize)
  let x := x.addi .tp .tp ((lo12 lay.tlsSize).signExtend 64)
  let x := x.sub .sp .a1 .tp
  x.mv .tp .sp

end HartLayout

/-- The mailbox brings a word whose command and data are those that were packed. -/
structure Delivered (msg word : U64) : Prop where
  cmd : word >>> scrIpiRecvCshift = msg >>> scrIpiDataBits
  data : extractScipiMsgData word = msg &&& BitVec.ofNat 64 (2 ^ scrIpiDataBits - 1)

/-- `ipi_wait_cmd` takes the word. -/
def ipiWaitCmd (cmd : ℕ) (word : U64) : Bool := word >>> scrIpiRecvCshift == BitVec.ofNat 64 cmd

/-! ## The pieces of storage -/

variable {plf : SbiPlf}

theorem toNat_hlsize : plf.hlsize.toNat = 2 ^ plf.hlshift := by
  rw [SbiPlf.hlsize, SbiPlf.hlshift]
  cases plf.l2Stack8Core <;> rfl

theorem shiftLeft_hlshift (v : U64) : v <<< plf.hlshift = v * plf.hlsize := by
  rw [SbiPlf.hlsize, BitVec.shiftLeft_eq_mul_twoPow, BitVec.twoPow_eq]

theorem hlshift_bounds : 11 ≤ plf.hlshift ∧ plf.hlshift ≤ 12 := by
  rw [SbiPlf.hlshift]
  cases plf.l2Stack8Core <;> decide

theorem mul_hlsize_lt (plf : SbiPlf) (hartn : U32) : hartn.toNat * 2 ^ plf.hlshift < 2 ^ 44 := by
  have hle : 2 ^ plf.hlshift ≤ 2 ^ 12 := Nat.pow_le_pow_right (by decide) hlshift_bounds.2
  calc hartn.toNat * 2 ^ plf.hlshift ≤ hartn.toNat * 2 ^ 12 := Nat.mul_le_mul_left _ hle
    _ < 2 ^ 32 * 2 ^ 12 := Nat.mul_lt_mul_of_pos_right hartn.isLt (by decide)
    _ = 2 ^ 44 := by decide

/-- The distance of a piece from the first one. -/
theorem toNat_mul_hlsize (hartn : U32) :
    (hartn.setWidth 64 * plf.hlsize).toNat = hartn.toNat * 2 ^ plf.hlshift := by
  have hlt := mul_hlsize_lt plf hartn
  rw [BitVec.toNat_mul, toNat_hlsize, BitVec.toNat_setWidth,
    Nat.mod_eq_of_lt (a := hartn.toNat) (by omega), Nat.mod_eq_of_lt (by omega)]

/-- A distance within a piece does not change its number. -/
theorem toNat_mul_hlsize_add_div (hartn : U32) {depth : U64}
    (hdepth : depth.toNat < 2 ^ plf.hlshift) :
    (hartn.setWidth 64 * plf.hlsize + depth).toNat / 2 ^ plf.hlshift = hartn.toNat := by
  have hlt := mul_hlsize_lt plf hartn
  have hle : 2 ^ plf.hlshift ≤ 2 ^ 12 := Nat.pow_le_pow_right (by decide) hlshift_bounds.2
  rw [BitVec.toNat_add, toNat_mul_hlsize, Nat.mod_eq_of_lt (by omega), Nat.mul_comm,
    Nat.mul_add_div (Nat.two_pow_pos _), Nat.div_eq_of_lt hdepth, Nat.add_zero]

namespace HartLayout

variable {lay : HartLayout} {m n : U32}

theorem hartTls_eq :
    lay.hartTls n = lay.cStackTop - lay.tlsSize - n.setWidth 64 * lay.plf.hlsize := by
  rw [hartTls, lay.tls0Base_eq]

theorem tlsSize_bounds (lay : HartLayout) :
    0 < lay.tlsSize.toNat ∧ lay.tlsSize.toNat < 2 ^ lay.plf.hlshift :=
  ⟨lay.tlsSize_pos, toNat_hlsize ▸ lay.tlsSize_lt⟩

/-- **The stack pointer tells the hart.** The distance from the top of the stacks, shifted by the
size of one, is its number at any depth of its own stack. -/
theorem logicalHart_eq {depth : U64} (hdepth : depth < lay.plf.hlsize - lay.tlsSize) :
    lay.logicalHart (lay.hartTls m - depth) = m.setWidth 64 := by
  have hle : 2 ^ lay.plf.hlshift ≤ 2 ^ 12 := Nat.pow_le_pow_right (by decide) hlshift_bounds.2
  have hsum : (depth + lay.tlsSize).toNat < 2 ^ lay.plf.hlshift := by
    obtain ⟨-, htls⟩ := lay.tlsSize_bounds
    rw [BitVec.lt_def, BitVec.toNat_sub_of_le (BitVec.le_of_lt lay.tlsSize_lt), toNat_hlsize]
      at hdepth
    rw [BitVec.toNat_add, Nat.mod_eq_of_lt (by omega)]
    omega
  have hpos : lay.cStackTop - (lay.hartTls m - depth) =
      m.setWidth 64 * lay.plf.hlsize + (depth + lay.tlsSize) := by
    rw [hartTls_eq]
    ring
  refine BitVec.eq_of_toNat_eq ?_
  rw [logicalHart, hpos, BitVec.toNat_udiv, toNat_hlsize, toNat_mul_hlsize_add_div m hsum,
    BitVec.toNat_setWidth, Nat.mod_eq_of_lt (by omega)]

/-- **The piece of another hart**, found from that of hart `m`. -/
theorem hartHls_eq {depth : U64} (hdepth : depth < lay.plf.hlsize - lay.tlsSize) :
    lay.hartHls (lay.hartTls m) (lay.hartTls m - depth) n = lay.hartTls n + lay.hlsOffset := by
  rw [hartHls, hls, logicalHart_eq hdepth, hartTls, hartTls]
  ring

/-! ## The page in the `SETUP` command -/

/-- The page number of the top of the stack, and back. -/
theorem hartStackPageTop_shiftLeft :
    lay.hartStackPageTop n <<< lay.plf.hlshift =
      lay.cStackTop - n.setWidth 64 * lay.plf.hlsize := by
  have hdvd : 2 ^ lay.plf.hlshift ∣ lay.cStackTop.toNat :=
    Nat.dvd_trans (Nat.pow_dvd_pow 2 hlshift_bounds.2) lay.aligned
  have htop : lay.cStackTop / lay.plf.hlsize * lay.plf.hlsize = lay.cStackTop := by
    refine BitVec.eq_of_toNat_eq ?_
    rw [BitVec.toNat_mul, BitVec.toNat_udiv, toNat_hlsize, Nat.div_mul_cancel hdvd,
      Nat.mod_eq_of_lt lay.cStackTop.isLt]
  rw [shiftLeft_hlshift, hartStackPageTop, sub_mul, htop]

/-- What the shift to an address drops is not data. So the mask of the mailbox may be left out where
a page number becomes an address. -/
theorem and_dataMask_shiftLeft (v : U64) :
    (v &&& BitVec.ofNat 64 (2 ^ scrIpiDataBits - 1)) <<< plf.hlshift = v <<< plf.hlshift := by
  have hshift : 11 ≤ plf.hlshift := hlshift_bounds.1
  refine BitVec.eq_of_getLsbD_eq fun i hi => ?_
  rw [BitVec.getLsbD_shiftLeft, BitVec.getLsbD_shiftLeft, BitVec.getLsbD_and,
    Words.getLsbD_lowMask]
  have hdata : i - plf.hlshift < scrIpiDataBits := by
    rw [scrIpiDataBits]
    omega
  have hword : i - plf.hlshift < 64 := by omega
  rw [decide_eq_true hdata, decide_eq_true hword, Bool.and_self, Bool.and_true]

theorem packScipiMsg_cmd {cmd : ℕ} (hcmd : cmd < 2 ^ 10) (data : U64) :
    packScipiMsg cmd data >>> scrIpiDataBits = BitVec.ofNat 64 cmd := by
  refine BitVec.eq_of_getLsbD_eq fun i hi => ?_
  rw [packScipiMsg, BitVec.getLsbD_ushiftRight, BitVec.getLsbD_or, BitVec.getLsbD_and,
    Words.getLsbD_lowMask, BitVec.getLsbD_shiftLeft, Nat.add_sub_cancel_left]
  by_cases hi10 : i < 10
  · have hlt : 54 + i < 64 := by omega
    simp [scrIpiDataBits, hlt]
  · have hbit : (BitVec.ofNat 64 cmd).getLsbD i = false := by
      rw [BitVec.getLsbD_ofNat, Nat.testBit_lt_two_pow, Bool.and_false]
      exact hcmd.trans_le (Nat.pow_le_pow_right (by decide) (by omega))
    simp [scrIpiDataBits, hbit]

theorem packScipiMsg_data (cmd : ℕ) (data : U64) :
    packScipiMsg cmd data &&& BitVec.ofNat 64 (2 ^ scrIpiDataBits - 1) =
      data &&& BitVec.ofNat 64 (2 ^ scrIpiDataBits - 1) := by
  refine BitVec.eq_of_getLsbD_eq fun i hi => ?_
  rw [packScipiMsg, BitVec.getLsbD_and, BitVec.getLsbD_or, BitVec.getLsbD_and,
    Words.getLsbD_lowMask, BitVec.getLsbD_shiftLeft]
  by_cases hdata : i < scrIpiDataBits <;> simp [hdata]

/-- **A secondary hart finds its piece**, from the word it is set up with. The word may come with
other bits in its upper part, which the shift drops. -/
theorem secondarySetup_tp {word : U64} {x : RegFile 64} (hword : Delivered (lay.setupMsg n) word)
    (hx : x.get .a1 = word) :
    ipiWaitCmd scrIpiCmdSetup word = true ∧ (lay.secondarySetup x).get .tp = lay.hartTls n ∧
      (lay.secondarySetup x).get .sp = lay.hartTls n := by
  have hpage : word >>> scrIpiRecvSrcBits <<< lay.plf.hlshift =
      lay.cStackTop - n.setWidth 64 * lay.plf.hlsize := by
    have hdata := hword.data
    rw [setupMsg, packScipiMsg_data, extractScipiMsgData] at hdata
    rw [← and_dataMask_shiftLeft, hdata, and_dataMask_shiftLeft, hartStackPageTop_shiftLeft]
  have hsize : (hi20 lay.tlsSize ++ 0#12).signExtend 64 + (lo12 lay.tlsSize).signExtend 64 =
      lay.tlsSize := by
    have hle : 2 ^ lay.plf.hlshift ≤ 2 ^ 12 := Nat.pow_le_pow_right (by decide) hlshift_bounds.2
    obtain ⟨-, htls⟩ := lay.tlsSize_bounds
    exact hi20_add_lo12 (by omega)
  have htp : lay.cStackTop - n.setWidth 64 * lay.plf.hlsize - lay.tlsSize = lay.hartTls n := by
    rw [hartTls_eq]
    ring
  refine ⟨?_, ?_, ?_⟩
  · rw [ipiWaitCmd, hword.cmd, setupMsg, packScipiMsg_cmd (by decide)]
    exact beq_self_eq_true _
  · simp [secondarySetup, RegFile.srli, RegFile.slli, RegFile.lui, RegFile.addi, RegFile.sub,
      RegFile.mv, hx, hpage, hsize, htp]
  · simp [secondarySetup, RegFile.srli, RegFile.slli, RegFile.lui, RegFile.addi, RegFile.sub,
      RegFile.mv, hx, hpage, hsize, htp]

/-! ## The pieces of different harts -/

/-- The addresses of a piece: the stack below `hart_tls(hartn)`, and the thread-local
storage from there on. -/
def hartArea (lay : HartLayout) (hartn : U32) : Set U64 :=
  {addr | addr - (lay.hartTls hartn - (lay.plf.hlsize - lay.tlsSize)) < lay.plf.hlsize}

theorem mem_hartArea {addr : U64} (h : addr ∈ lay.hartArea n) :
    n.toNat = (lay.cStackTop - 1#64 - addr).toNat / 2 ^ lay.plf.hlshift := by
  obtain ⟨i, hi⟩ : ∃ i, i = addr - (lay.hartTls n - (lay.plf.hlsize - lay.tlsSize)) := ⟨_, rfl⟩
  have hlt : i < lay.plf.hlsize := hi ▸ h
  rw [BitVec.lt_def, toNat_hlsize] at hlt
  have hpos : lay.cStackTop - 1#64 - addr =
      n.setWidth 64 * lay.plf.hlsize + (lay.plf.hlsize - (i + 1#64)) := by
    rw [hi, hartTls_eq]
    ring
  have hle : 2 ^ lay.plf.hlshift ≤ 2 ^ 12 := Nat.pow_le_pow_right (by decide) hlshift_bounds.2
  have hsucc : (i + 1#64).toNat = i.toNat + 1 := by
    rw [BitVec.toNat_add, BitVec.toNat_ofNat]
    omega
  rw [hpos, toNat_mul_hlsize_add_div]
  rw [BitVec.toNat_sub_of_le (by rw [BitVec.le_def, hsucc, toNat_hlsize]; exact hlt), hsucc,
    toNat_hlsize]
  omega

theorem disjoint_hartArea (hne : m ≠ n) : Disjoint (lay.hartArea m) (lay.hartArea n) := by
  rw [Set.disjoint_left]
  intro addr hm hn
  exact hne (BitVec.eq_of_toNat_eq ((mem_hartArea hm).trans (mem_hartArea hn).symm))

end HartLayout

/-! ## The mask loop -/

namespace SbiHart

/-- What `.Lipi_mask_loop` has in `a2` where the mask has a bit. -/
def lipiVisits (plf : SbiPlf) : ℕ → SbiHart → List U64
  | 0, _ => []
  | n + 1, s =>
    let x := maskTestRegs plf s.x
    let s := s.lipiMaskRound plf
    (if (x.get .a3).msb then [x.get .a2] else []) ++
      if s.x.get .a3 = 0#64 then [] else lipiVisits plf n s

variable {s : SbiHart} {r : IntReg}

/-- The registers that an IPI may change. -/
theorem ipiSendWait_get_of_notMem (hr : r ∉ [.a0, .t0, .t1, .t2, .t3]) :
    (s.ipiSendWait plf).x.get r = s.x.get r := by
  simp only [List.mem_cons, List.not_mem_nil, or_false, not_or] at hr
  obtain ⟨h0, ht0, ht1, ht2, ht3⟩ := hr
  rw [ipiSendWait]
  cases plf.transport <;>
    simp [effect, exec, loadIpiN, RegFile.li, RegFile.slli, RegFile.add, RegFile.sll, h0, ht0, ht1,
      ht2, ht3]

/-- A round leaves in `a2` and `a3` what it has tested. -/
theorem lipiMaskRound_get (plf : SbiPlf) (s : SbiHart) (hr : r = .a2 ∨ r = .a3) :
    (s.lipiMaskRound plf).x.get r = (maskTestRegs plf s.x).get r := by
  have hsend : (SbiHart.ipiSendWait plf
      (loadIpiN { s with x := maskTestRegs plf s.x } .a0 .a2)).x.get r =
        (maskTestRegs plf s.x).get r := by
    rw [ipiSendWait_get_of_notMem (by rcases hr with rfl | rfl <;> decide), loadIpiN]
    rcases hr with rfl | rfl <;> simp
  rw [lipiMaskRound_of_regs rfl]
  split_ifs
  · rfl
  · exact hsend
  · rfl

/-- **The loop visits the harts of the mask**, the last first. By induction on the bits that are
left: the mask is shifted up by one in each round. -/
theorem lipiVisits_eq {mask : U64} : ∀ {fuel k : ℕ} {s : SbiHart}, k < 64 → k < fuel →
    s.x.get .a2 = plf.hartTls k → s.x.get .a3 = mask <<< (63 - k) →
    lipiVisits plf fuel s =
      (((List.range k).filter fun i => mask.getLsbD i).map plf.hartTls).reverse := by
  intro fuel
  induction fuel with
  | zero =>
    intro k s _ hfuel
    omega
  | succ fuel ih =>
    intro k s hk hfuel ha2 ha3
    have h2 := lipiMaskRound_get plf s (.inl rfl)
    have h3 := lipiMaskRound_get plf s (.inr rfl)
    rw [maskTestRegs_a2, ha2] at h2
    rw [maskTestRegs_a3, ha3] at h3
    rw [lipiVisits, maskTestRegs_a2, maskTestRegs_a3, ha2, ha3]
    cases k with
    | zero =>
      have hzero : mask <<< (63 - 0) <<< 1 = 0#64 := by
        rw [← BitVec.shiftLeft_add]
        exact BitVec.shiftLeft_eq_zero (by decide)
      rw [hzero] at h3 ⊢
      simp [h3]
    | succ k =>
      have hshift := Words.shiftLeft_sub_succ mask (k := k) (by omega)
      rw [hartTls_succ] at h2
      rw [hshift] at h3
      rw [hshift, hartTls_succ, Words.msb_shiftLeft_sub mask (by omega), List.range_succ,
        List.filter_append, List.map_append, List.reverse_append]
      have hhead : (((List.filter (fun i => mask.getLsbD i) [k]).map plf.hartTls).reverse) =
          if mask.getLsbD k then [plf.hartTls k] else [] := by
        cases hbit : mask.getLsbD k <;> simp [hbit]
      rw [hhead]
      refine congrArg₂ _ rfl ?_
      by_cases hzero : mask <<< (63 - k) = 0#64
      · rw [if_pos (h3.trans hzero), filter_range_eq_nil (by omega) hzero]
        rfl
      · rw [if_neg (h3 ▸ hzero)]
        exact ih (by omega) (by omega) h2 h3

end SbiHart

/-! ## Agreement -/

variable {lay : HartLayout} {m n : U32} {depth : U64}

/-- All look for the storage of hart `n` at `hart_tls(n)`, when hart `m` runs with a stack of
`depth` bytes. -/
structure StorageAgrees (lay : HartLayout) (m n : U32) (depth : U64) : Prop where
  logicalHart : lay.logicalHart (lay.hartTls m - depth) = m.setWidth 64
  hartHls : lay.hartHls (lay.hartTls m) (lay.hartTls m - depth) n = lay.hartTls n + lay.hlsOffset
  setup : ∀ (word : U64) (x : RegFile 64), Delivered (lay.setupMsg n) word → x.get .a1 = word →
    ipiWaitCmd scrIpiCmdSetup word = true ∧ (lay.secondarySetup x).get .tp = lay.hartTls n ∧
      (lay.secondarySetup x).get .sp = lay.hartTls n
  /-- The visits are for the bits of the mask in `a3`, the last one first. -/
  visits : ∀ s : SbiHart, s.numHarts.toNat < 64 →
    SbiHart.lipiVisits lay.plf 64 (s.lipiMaskStart lay.plf) =
      (((List.range s.numHarts.toNat).filter fun i => (s.x.get .a3).getLsbD i).map fun i =>
        lay.hartTls (BitVec.ofNat 32 i)).reverse
  disjoint : m ≠ n → Disjoint (lay.hartArea m) (lay.hartArea n)

theorem HartLayout.hartTls_ofNat {i : ℕ} (hi : i < 64) :
    lay.hartTls (BitVec.ofNat 32 i) = lay.plf.hartTls i := by
  rw [HartLayout.hartTls, SbiPlf.hartTls,
    BitVec.setWidth_ofNat_of_le_of_lt (by decide) (by omega)]

theorem visits_eq (s : SbiHart) (hn : s.numHarts.toNat < 64) :
    SbiHart.lipiVisits lay.plf 64 (s.lipiMaskStart lay.plf) =
      (((List.range s.numHarts.toNat).filter fun i => (s.x.get .a3).getLsbD i).map fun i =>
        lay.hartTls (BitVec.ofNat 32 i)).reverse := by
  obtain ⟨x, hstart, -, hx2, hx3, -⟩ := SbiHart.lipiMaskStart_spec lay.plf s
  rw [SbiHart.tls_end hn] at hx2
  rw [SbiHart.shift_amount, Nat.mod_eq_of_lt hn] at hx3
  rw [hstart, SbiHart.lipiVisits_eq hn hn hx2 hx3]
  refine congrArg List.reverse (List.map_congr_left fun i hmem => ?_)
  have hi : i < s.numHarts.toNat := List.mem_range.mp (List.mem_of_mem_filter hmem)
  exact (HartLayout.hartTls_ofNat (by omega)).symm

/-- **All ways to find the storage of a hart agree**: the set-up in assembly, the walk of the fast
path from the top down, the macros of C from the bottom up, and what the mailbox says. -/
theorem storage_agrees (lay : HartLayout) (m n : U32) (depth : U64)
    (hdepth : depth < lay.plf.hlsize - lay.tlsSize) : StorageAgrees lay m n depth where
  logicalHart := HartLayout.logicalHart_eq hdepth
  hartHls := HartLayout.hartHls_eq hdepth
  setup _ _ hword hx := HartLayout.secondarySetup_tp hword hx
  visits := visits_eq
  disjoint := HartLayout.disjoint_hartArea

/-- A stack area that ends at `0x80020000`. -/
def HartLayout.sample : HartLayout where
  plf := ⟨.csr, 0#64, 0#64, 0#64, 0#64, 0#64, 0x8001fe40#64, false⟩
  cStackTop := 0x80020000#64
  tlsSize := 0x1c0#64
  hlsOffset := 0x100#64
  aligned := by decide
  tls0Base_eq := by decide
  tlsSize_pos := by decide
  tlsSize_lt := by decide

theorem storage_agrees_sample : StorageAgrees .sample 1#32 3#32 0x80#64 :=
  storage_agrees .sample 1#32 3#32 0x80#64 (by decide)

end ScBl
