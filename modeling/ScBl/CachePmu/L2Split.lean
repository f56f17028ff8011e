import ScBl.CachePmu.L2Started
import ScBl.Pmu.Core

/-!
# The halves of the L2 counters

A counter of 64 bits lies in two registers, and goes on counting between the
accesses to them. `scr_l2_pmu_read` reads the high half twice, and the low half again
if it has changed: this gives a value that the counter had (`l2_split_read`).
`scr_l2_pmu_ctr_write_hw`, and `pmu_write_hw_ctr` on RV32, write the low half and then
the high half: this gives the initial value unless the low half overflows in between
(`half_init_iff`).
-/

namespace ScBl

open Loops Runs CachePmu SplitCounter

/-! ## Reading a counter -/

/-- `addr_low` -/
def L2Hw.lowAddr (hw : L2Hw) (cidx : U32) : U64 := getCidxAddr hw.l2CacheAddr scrL2CtrLow cidx

/-- `addr_high` -/
def L2Hw.highAddr (hw : L2Hw) (cidx : U32) : U64 := getCidxAddr hw.l2CacheAddr scrL2CtrHigh cidx

/-- A read of the low half. -/
def L2Hw.readLow (hw : L2Hw) (cidx : U32) : CacheAccess := .read (hw.lowAddr cidx)

/-- A read of the high half. -/
def L2Hw.readHigh (hw : L2Hw) (cidx : U32) : CacheAccess := .read (hw.highAddr cidx)

/-- The two registers of a counter show the halves of its value at the moment, that is,
after the accesses made so far. -/
structure L2Hw.Shows (hw : L2Hw) (cidx : U32) (value : List CacheAccess → ℕ) : Prop where
  low : ∀ log, (hw.dev log (hw.lowAddr cidx)).toNat % 2 ^ 32 = value log % 2 ^ 32
  high : ∀ log, (hw.dev log (hw.highAddr cidx)).toNat % 2 ^ 32 = value log / 2 ^ 32 % 2 ^ 32

/-- From one moment to another the counter only advances, by less than `2 ^ 32` in all,
and stays below `2 ^ 64`. -/
structure Advances (value : List CacheAccess → ℕ) (first last : List CacheAccess) : Prop where
  mono : ∀ m m', first <+: m → m <+: m' → m' <+: last → value m ≤ value m'
  slow : value last < value first + 2 ^ 32
  lt : value last < 2 ^ 64

/-- The moment of the last access of a read. -/
def L2Hw.lastRead (hw : L2Hw) (cidx : U64) (s : L2Pmu) : List CacheAccess :=
  (hw.next s (.hwCtrRead cidx)).log.dropLast

/-- The call succeeds with the value that the counter has at the moment of one of its
reads, which lies between those at the first and at the last one. -/
structure L2Hw.ReadsValue (hw : L2Hw) (value : List CacheAccess → ℕ) (cidx : U64) (s : L2Pmu) :
    Prop where
  success : (mcallExtL2Pmu hw s (.hwCtrRead cidx)).1 = sbiErrorSuccess
  moment : ∃ m addr, s.log <+: m ∧ m ++ [.read addr] <+: (hw.next s (.hwCtrRead cidx)).log ∧
    (mcallExtL2Pmu hw s (.hwCtrRead cidx)).2.1.toNat = value m
  first : value s.log ≤ (mcallExtL2Pmu hw s (.hwCtrRead cidx)).2.1.toNat
  last : (mcallExtL2Pmu hw s (.hwCtrRead cidx)).2.1.toNat ≤ value (hw.lastRead cidx s)

section Read

variable {hw : L2Hw} {s : L2Pmu} {value : List CacheAccess → ℕ}

theorem toNat_readl {dev : Device} {addr : U64} :
    (readl dev addr s).1.toNat = (dev s.log addr).toNat % 2 ^ 32 := by
  rw [readl, toNat_low]

/-- Two halves put together. -/
theorem toNat_shiftLeft_or {high low : U64} (hhigh : high.toNat < 2 ^ 32)
    (hlow : low.toNat < 2 ^ 32) :
    (high <<< 32 ||| low).toNat = high.toNat * 2 ^ 32 + low.toNat := by
  have hshift : (high <<< 32).toNat = high.toNat <<< 32 := by
    rw [BitVec.toNat_shiftLeft, Nat.shiftLeft_eq, Nat.mod_eq_of_lt (by omega)]
  rw [BitVec.toNat_or, hshift, ← Nat.shiftLeft_add_eq_or_of_lt hlow, Nat.shiftLeft_eq]

/-- A word with the high half of one value and the low half of another. -/
theorem toNat_halves {high low : U64} {v v' : ℕ} (hhigh : high.toNat = v / 2 ^ 32)
    (hlow : low.toNat = v' % 2 ^ 32) (hv : v < 2 ^ 64) :
    (high <<< 32 ||| low).toNat = v / 2 ^ 32 * 2 ^ 32 + v' % 2 ^ 32 := by
  rw [toNat_shiftLeft_or (by omega) (by omega), hhigh, hlow]

/-- **`scr_l2_pmu_read`** reads high, low, high, and low again if the high half has
changed. -/
theorem scrL2PmuRead_spec {cidx : U32} (hshows : hw.Shows cidx value) (s : L2Pmu)
    {v₁ v₂ v₃ v₄ : ℕ} (h₁ : v₁ = value s.log)
    (h₂ : v₂ = value (s.log ++ [hw.readHigh cidx]))
    (h₃ : v₃ = value (s.log ++ [hw.readHigh cidx, hw.readLow cidx]))
    (h₄ : v₄ = value (s.log ++ [hw.readHigh cidx, hw.readLow cidx, hw.readHigh cidx]))
    (hlt₁ : v₁ < 2 ^ 64) (hlt₃ : v₃ < 2 ^ 64) :
    (scrL2PmuRead hw cidx s).1.toNat = readHalves (2 ^ 32) v₁ v₂ v₃ v₄ ∧
      (scrL2PmuRead hw cidx s).2.log =
        s.log ++ [hw.readHigh cidx, hw.readLow cidx, hw.readHigh cidx] ++
          if v₃ / 2 ^ 32 ≠ v₁ / 2 ^ 32 then [hw.readLow cidx] else [] := by
  have hdiv : ∀ {v : ℕ}, v < 2 ^ 64 → v / 2 ^ 32 < 2 ^ 32 := fun hv => by omega
  -- what the four reads return
  let s₂ := (readl hw.dev (hw.highAddr cidx) s).2
  let s₃ := (readl hw.dev (hw.lowAddr cidx) s₂).2
  let s₄ := (readl hw.dev (hw.highAddr cidx) s₃).2
  have hprev : (readl hw.dev (hw.highAddr cidx) s).1.toNat = v₁ / 2 ^ 32 := by
    rw [toNat_readl, hshows.high, ← h₁, Nat.mod_eq_of_lt (hdiv hlt₁)]
  have hlow : (readl hw.dev (hw.lowAddr cidx) s₂).1.toNat = v₂ % 2 ^ 32 := by
    rw [toNat_readl, hshows.low, h₂]
    rfl
  have hlog₃ : s₃.log = s.log ++ [hw.readHigh cidx, hw.readLow cidx] := List.append_assoc ..
  have hhigh : (readl hw.dev (hw.highAddr cidx) s₃).1.toNat = v₃ / 2 ^ 32 := by
    rw [toNat_readl, hshows.high, hlog₃, ← h₃, Nat.mod_eq_of_lt (hdiv hlt₃)]
  have hlog₄ : s₄.log = s.log ++ [hw.readHigh cidx, hw.readLow cidx, hw.readHigh cidx] := by
    have happend : s₄.log = s₃.log ++ [hw.readHigh cidx] := rfl
    rw [happend, hlog₃, List.append_assoc]
    rfl
  have hlow' : (readl hw.dev (hw.lowAddr cidx) s₄).1.toNat = v₄ % 2 ^ 32 := by
    rw [toNat_readl, hshows.low, hlog₄, ← h₄]
  have hchanged : (readl hw.dev (hw.highAddr cidx) s₃).1 ≠
      (readl hw.dev (hw.highAddr cidx) s).1 ↔ v₃ / 2 ^ 32 ≠ v₁ / 2 ^ 32 := by
    rw [← hprev, ← hhigh, ne_eq, ne_eq, BitVec.toNat_inj]
  rw [readHalves]
  by_cases hne : v₃ / 2 ^ 32 ≠ v₁ / 2 ^ 32
  · have heq : scrL2PmuRead hw cidx s =
        ((readl hw.dev (hw.highAddr cidx) s₃).1 <<< 32 ||| (readl hw.dev (hw.lowAddr cidx) s₄).1,
          (readl hw.dev (hw.lowAddr cidx) s₄).2) := by
      have hif := hchanged.mpr hne
      simp only [s₃, s₂, L2Hw.highAddr, L2Hw.lowAddr] at hif
      simp only [scrL2PmuRead, if_pos hif]
      rfl
    rw [heq, if_pos hne, if_pos hne]
    refine ⟨toNat_halves hhigh hlow' hlt₃, ?_⟩
    rw [← hlog₄]
    rfl
  · have heq : scrL2PmuRead hw cidx s =
        ((readl hw.dev (hw.highAddr cidx) s₃).1 <<< 32 ||| (readl hw.dev (hw.lowAddr cidx) s₂).1,
          s₄) := by
      have hif := fun h => hne (hchanged.mp h)
      simp only [s₃, s₂, L2Hw.highAddr, L2Hw.lowAddr] at hif
      simp only [scrL2PmuRead, if_neg hif]
      rfl
    rw [heq, if_neg hne, if_neg hne]
    exact ⟨toNat_halves hhigh hlow hlt₃, hlog₄.trans (List.append_nil _).symm⟩

/-- It makes three or four reads, whatever they return. -/
theorem scrL2PmuRead_log (hw : L2Hw) (cidx : U32) (s : L2Pmu) :
    (scrL2PmuRead hw cidx s).2.log =
        s.log ++ [hw.readHigh cidx, hw.readLow cidx, hw.readHigh cidx] ∨
      (scrL2PmuRead hw cidx s).2.log =
        s.log ++ [hw.readHigh cidx, hw.readLow cidx, hw.readHigh cidx] ++ [hw.readLow cidx] := by
  have happend : ∀ (addr : U64) (t : L2Pmu), (readl hw.dev addr t).2.log = t.log ++ [.read addr] :=
    fun _ _ => rfl
  simp only [scrL2PmuRead]
  split_ifs
  · refine .inr ?_
    simp only [happend, List.append_assoc]
    rfl
  · refine .inl ?_
    simp only [happend, List.append_assoc]
    rfl

variable {cidx : U64}

/-- **One read.** The high half is read, then the low one, and then the high one again. If the two
high halves agree, the low one belongs to them; if not, the carry was in between, and the code reads
the low half once more, by then with the new high half. -/
theorem readsValue (hshows : hw.Shows (cidx.setWidth 32) value)
    (hadv : Advances value s.log (hw.lastRead cidx s)) : hw.ReadsValue value cidx s := by
  let high := hw.readHigh (cidx.setWidth 32)
  let low := hw.readLow (cidx.setWidth 32)
  have hcall : (hw.next s (.hwCtrRead cidx)).log = (scrL2PmuRead hw (cidx.setWidth 32) s).2.log :=
    rfl
  -- the moments of the first three reads come before that of the last one
  have hthird : s.log ++ [high, low] <+: hw.lastRead cidx s := by
    rw [L2Hw.lastRead, hcall]
    rcases scrL2PmuRead_log hw (cidx.setWidth 32) s with hlog | hlog
    · rw [hlog]
      refine ⟨[], ?_⟩
      simp [high, low, List.dropLast_append_of_ne_nil]
    · rw [hlog, List.dropLast_concat]
      exact ⟨[high], by simp [high, low]⟩
  have hsecond : s.log ++ [high] <+: s.log ++ [high, low] := ⟨[low], by simp⟩
  have hfirst : s.log <+: s.log ++ [high] := List.prefix_append ..
  have h₁₂ := hadv.mono _ _ (List.prefix_refl _) hfirst (hsecond.trans hthird)
  have h₂₃ := hadv.mono _ _ hfirst hsecond hthird
  have h₃ := hadv.mono _ _ (hfirst.trans hsecond) hthird (List.prefix_refl _)
  have hlt := hadv.lt
  obtain ⟨hval, hlog⟩ := scrL2PmuRead_spec hshows s rfl rfl rfl rfl (by omega)
    (Nat.lt_of_le_of_lt h₃ hlt)
  rw [← hcall] at hlog
  by_cases hchange : value (s.log ++ [high, low]) / 2 ^ 32 ≠ value s.log / 2 ^ 32
  · rw [if_pos hchange] at hlog
    have hlast : hw.lastRead cidx s = s.log ++ [high, low, high] := by
      rw [L2Hw.lastRead, hlog, List.dropLast_concat]
    have hslow := hadv.slow
    rw [hlast] at h₃ hslow
    have hout : (mcallExtL2Pmu hw s (.hwCtrRead cidx)).2.1.toNat =
        value (s.log ++ [high, low, high]) := by
      refine hval.trans ((readHalves_eq (by decide) h₁₂ h₂₃ fun _ => ⟨h₃, hslow⟩).trans ?_)
      exact if_pos hchange
    refine ⟨rfl, ⟨s.log ++ [high, low, high], hw.lowAddr (cidx.setWidth 32),
      List.prefix_append .., ?_, hout⟩, ?_, ?_⟩
    · rw [hlog]
      exact List.prefix_refl _
    · rw [hout]
      omega
    · rw [hout, hlast]
  · rw [if_neg hchange, List.append_nil] at hlog
    have hout : (mcallExtL2Pmu hw s (.hwCtrRead cidx)).2.1.toNat = value (s.log ++ [high]) := by
      refine hval.trans ((readHalves_eq (by decide) h₁₂ h₂₃ fun h => absurd h hchange).trans ?_)
      exact if_neg hchange
    refine ⟨rfl, ⟨s.log ++ [high], hw.lowAddr (cidx.setWidth 32), hfirst, ?_, hout⟩, ?_, ?_⟩
    · rw [hlog]
      exact ⟨[high], by simp [high, L2Hw.readLow]⟩
    · rw [hout]
      exact h₁₂
    · rw [hout]
      omega

end Read

/-- **The split read.** If the counter only advances, by less than `2 ^ 32` from the
first to the last read, a call returns the value at the moment of one of its reads; a
later call that begins when the counter is not behind the end of this one returns no
less. -/
theorem l2_split_read (hw : L2Hw) (value : List CacheAccess → ℕ) (cidx : U64)
    (hshows : hw.Shows (cidx.setWidth 32) value) (s : L2Pmu)
    (hadv : Advances value s.log (hw.lastRead cidx s)) :
    hw.ReadsValue value cidx s ∧
      ∀ s₂ : L2Pmu, value (hw.lastRead cidx s) ≤ value s₂.log →
        Advances value s₂.log (hw.lastRead cidx s₂) →
          (mcallExtL2Pmu hw s (.hwCtrRead cidx)).2.1.toNat ≤
            (mcallExtL2Pmu hw s₂ (.hwCtrRead cidx)).2.1.toNat := by
  have hread := readsValue hshows hadv
  refine ⟨hread, fun s₂ hlater hadv₂ => ?_⟩
  calc (mcallExtL2Pmu hw s (.hwCtrRead cidx)).2.1.toNat ≤ value (hw.lastRead cidx s) := hread.last
    _ ≤ value s₂.log := hlater
    _ ≤ (mcallExtL2Pmu hw s₂ (.hwCtrRead cidx)).2.1.toNat := (readsValue hshows hadv₂).first

/-- An L2 cache whose counters advance with every access, from just below a carry of
the low half on. -/
def L2Hw.carrying : L2Hw :=
  { L2Hw.sample with
    dev := fun log addr =>
      if addr = L2Hw.sample.lowAddr 0#32 then BitVec.ofNat 64 ((2 ^ 32 - 1 + log.length) % 2 ^ 32)
      else BitVec.ofNat 64 ((2 ^ 32 - 1 + log.length) / 2 ^ 32 % 2 ^ 32) }

theorem carrying_shows : L2Hw.carrying.Shows 0#32 fun log => 2 ^ 32 - 1 + log.length := by
  have hsmall : ∀ x : ℕ, (BitVec.ofNat 64 (x % 2 ^ 32)).toNat % 2 ^ 32 = x % 2 ^ 32 := by
    intro x
    rw [BitVec.toNat_ofNat]
    omega
  have hsame : L2Hw.carrying.lowAddr 0#32 = L2Hw.sample.lowAddr 0#32 := rfl
  have hne : L2Hw.sample.highAddr 0#32 ≠ L2Hw.sample.lowAddr 0#32 := by decide
  refine ⟨fun log => ?_, fun log => ?_⟩
  · have hdev : L2Hw.carrying.dev log (L2Hw.carrying.lowAddr 0#32) =
        BitVec.ofNat 64 ((2 ^ 32 - 1 + log.length) % 2 ^ 32) := by
      simp only [L2Hw.carrying]
      exact if_pos hsame
    rw [hdev, hsmall]
  · have hdev : L2Hw.carrying.dev log (L2Hw.carrying.highAddr 0#32) =
        BitVec.ofNat 64 ((2 ^ 32 - 1 + log.length) / 2 ^ 32 % 2 ^ 32) := by
      simp only [L2Hw.carrying]
      exact if_neg hne
    rw [hdev, hsmall]

/-- A read of counter 0 in which the low half carries. -/
theorem l2_split_read_carry :
    L2Hw.carrying.ReadsValue (fun log => 2 ^ 32 - 1 + log.length) 0#64 ⟨fun _ => 0#32, []⟩ := by
  refine (l2_split_read L2Hw.carrying _ 0#64 carrying_shows ⟨fun _ => 0#32, []⟩
    ⟨fun m m' _ hle _ => ?_, ?_, ?_⟩).1
  · exact Nat.add_le_add_left hle.length_le _
  · decide +kernel
  · decide +kernel

/-! ## Initialising a counter -/

/-- What the writes of a log are to counter `c`. -/
def L2Hw.halfWrites (hw : L2Hw) (c : ℕ) (log : List CacheAccess) : List HalfWrite :=
  log.filterMap fun
    | .write addr val =>
      if addr = hw.lowAddr (BitVec.ofNat 32 c) then some (.low val.toNat)
      else if addr = hw.highAddr (BitVec.ofNat 32 c) then some (.high val.toNat)
      else none
    | _ => none

/-- What the writes of a call are to counter `c`. -/
def L2Hw.callWrites (hw : L2Hw) (c : ℕ) (s : L2Pmu) (e : L2Call) : List HalfWrite :=
  (hw.halfWrites c (hw.next s e).log).drop (hw.halfWrites c s.log).length

section Start

variable {hw : L2Hw} {s : L2Pmu} {c i : ℕ} {cbase cmask flags v : U64}

@[simp] theorem halfWrites_readActive :
    hw.halfWrites c (s.readActive i).log = hw.halfWrites c s.log := by
  simp [readActive, CachePmu.access, L2Hw.halfWrites]

@[simp] theorem halfWrites_validate :
    hw.halfWrites c (pmuCtrValidate hw i s).2.log = hw.halfWrites c s.log := by
  rw [pmuCtrValidate]
  simp only
  split_ifs
  · rfl
  · exact halfWrites_readActive
  · exact halfWrites_readActive
  · exact halfWrites_readActive

/-- The counter registers of two counters are apart. -/
theorem counterAddr_ne_of_ne {off off' : U64} (hoff : off.toNat < 16) (hoff' : off'.toNat < 16)
    (hc : c < 4) (hi : i < 4) (hne : off.toNat ≠ off'.toNat ∨ i ≠ c) (x : U64) :
    getCidxAddr x off (BitVec.ofNat 32 i) ≠ getCidxAddr x off' (BitVec.ofNat 32 c) := by
  refine getCidxAddr_ne hoff hoff' (hne.imp_right fun hic => ?_) x
  rw [BitVec.toNat_ofNat, BitVec.toNat_ofNat]
  omega

/-- **`scr_l2_pmu_ctr_write_hw`** writes the low and then the high half of its counter, and nothing
to the halves of any other counter. -/
theorem halfWrites_ctrWriteHw (hc : c < 4) (hi : i < 4) :
    hw.halfWrites c (scrL2PmuCtrWriteHw hw (BitVec.ofNat 32 i) v s).log =
      hw.halfWrites c s.log ++
        if i = c then [.low (v.toNat % 2 ^ 32), .high (v.toNat / 2 ^ 32)] else [] := by
  have hhigh : v.toNat / 2 ^ 32 < 2 ^ 32 := by
    have hlt := v.isLt
    omega
  have hne : ∀ {off off' : U64}, off.toNat < 16 → off'.toNat < 16 →
      (off.toNat ≠ off'.toNat ∨ i ≠ c) → getCidxAddr hw.l2CacheAddr off (BitVec.ofNat 32 i) ≠
        getCidxAddr hw.l2CacheAddr off' (BitVec.ofNat 32 c) :=
    fun hoff hoff' h => counterAddr_ne_of_ne hoff hoff' hc hi h _
  have hcross : getCidxAddr hw.l2CacheAddr scrL2CtrHigh (BitVec.ofNat 32 i) ≠
      hw.lowAddr (BitVec.ofNat 32 c) := hne (by decide) (by decide) (.inl (by decide))
  simp only [scrL2PmuCtrWriteHw, writel, CachePmu.access, List.append_assoc, L2Hw.halfWrites,
    List.filterMap_append, List.filterMap_cons, List.filterMap_nil, List.singleton_append,
    if_neg hcross]
  by_cases hic : i = c
  · subst hic
    have hlow : getCidxAddr hw.l2CacheAddr scrL2CtrLow (BitVec.ofNat 32 i) =
        hw.lowAddr (BitVec.ofNat 32 i) := rfl
    have hup : getCidxAddr hw.l2CacheAddr scrL2CtrHigh (BitVec.ofNat 32 i) =
        hw.highAddr (BitVec.ofNat 32 i) := rfl
    simp only [if_pos hlow, if_pos hup, if_true, toNat_low, toNat_high, Nat.mod_mod,
      Nat.mod_eq_of_lt hhigh]
  · have hlow : getCidxAddr hw.l2CacheAddr scrL2CtrLow (BitVec.ofNat 32 i) ≠
        hw.lowAddr (BitVec.ofNat 32 c) := hne (by decide) (by decide) (.inr hic)
    have hlow' : getCidxAddr hw.l2CacheAddr scrL2CtrLow (BitVec.ofNat 32 i) ≠
        hw.highAddr (BitVec.ofNat 32 c) := hne (by decide) (by decide) (.inl (by decide))
    have hup : getCidxAddr hw.l2CacheAddr scrL2CtrHigh (BitVec.ofNat 32 i) ≠
        hw.highAddr (BitVec.ofNat 32 c) := hne (by decide) (by decide) (.inr hic)
    simp only [if_neg hlow, if_neg hlow', if_neg hup, if_neg hic, List.append_nil]

/-- What a start with the initial value `v` writes to a counter that it goes through. -/
def startWrites (s : L2Pmu) (flags v : U64) (c : ℕ) : List HalfWrite :=
  if hasFlag flags sbiPmuStartFlagSetInitValue ∧ ¬ L2Free s c then
    [.low (v.toNat % 2 ^ 32), .high (v.toNat / 2 ^ 32)]
  else []

theorem l2StartBody_halfWrites (hvalid : L2Valid hw s) {t : ℤ × L2Pmu}
    (ht : t.2.activeEvents = s.activeEvents) (hc : c < 4) (hi : i < 4) :
    hw.halfWrites c (l2StartBody hw flags v i t).2.2.log =
      if c = i then hw.halfWrites c t.2.log ++ startWrites s flags v c
      else hw.halfWrites c t.2.log := by
  have hvalid' : L2Valid hw t.2 := fun j hj => by
    rw [L2Free, ht]
    exact hvalid j hj
  have hneg : (pmuCtrValidate hw i t.2).1 < 0 ↔ L2Free s i := by
    rw [validate_neg_iff hvalid' hi, L2Free, ht, L2Free]
  simp only [l2StartBody]
  by_cases hfree : L2Free s i
  · have hnone : c = i → startWrites s flags v c = [] := by
      rintro rfl
      exact if_neg fun h => h.2 hfree
    rw [if_pos (hneg.mpr hfree), halfWrites_validate]
    split_ifs with hci
    · rw [hnone hci, List.append_nil]
    · rfl
  rw [if_neg fun h => hfree (hneg.mp h), scrL2PmuCtrStartHw]
  by_cases hflag : hasFlag flags sbiPmuStartFlagSetInitValue
  · rw [if_pos hflag, halfWrites_ctrWriteHw hc hi, halfWrites_validate]
    by_cases hci : c = i
    · subst hci
      rw [if_pos rfl, if_pos rfl, startWrites, if_pos ⟨hflag, hfree⟩]
    · rw [if_neg fun h => hci h.symm, if_neg hci, List.append_nil]
  · have hnone : startWrites s flags v c = [] := if_neg fun h => hflag h.1
    rw [if_neg hflag, halfWrites_validate, hnone, List.append_nil, ite_self]

/-- The start goes through counter `c` and writes it. -/
def StartInitialises (s : L2Pmu) (cbase cmask flags : U64) (c : ℕ) : Prop :=
  sbiFls (shl cmask cbase) < 4 ∧ hasFlag flags sbiPmuStartFlagSetInitValue ∧ c < 4 ∧
    Requested cbase cmask c ∧ ¬ L2Free s c

instance : Decidable (StartInitialises s cbase cmask flags c) :=
  inferInstanceAs (Decidable (_ ∧ _))

theorem callWrites_start (hvalid : L2Valid hw s) (hinit : StartInitialises s cbase cmask flags c) :
    hw.callWrites c s (.start cbase cmask flags v) =
      [.low (v.toNat % 2 ^ 32), .high (v.toNat / 2 ^ 32)] := by
  obtain ⟨hfls, hflag, hc, hreq, hbusy⟩ := hinit
  have hlog : hw.halfWrites c (hw.next s (.start cbase cmask flags v)).log =
      hw.halfWrites c s.log ++ [.low (v.toNat % 2 ^ 32), .high (v.toNat / 2 ^ 32)] := by
    simp only [L2Hw.next, mcallExtL2Pmu, sbiL2PmuCtrStart_eq, if_pos hfls]
    obtain ⟨_, _, hview⟩ := runUntil_view
      (fun t : ℤ × L2Pmu => t.2.activeEvents = s.activeEvents)
      (fun b t => hw.halfWrites b t.2.log) (fun b ws => ws ++ startWrites s flags v b)
      (nodup_namedL2 cbase (shl cmask cbase)) (fun a ha t ht => by
        obtain ⟨hnone, hact⟩ := l2StartBody_keeps hw flags v a t
        exact ⟨hnone, hact.trans ht, fun b (hb : b < 4) =>
          l2StartBody_halfWrites hvalid ht hb (mem_namedL2.mp ha).2.1⟩)
      (Eq.refl (sbiErrorInvalidParam, s).2.activeEvents)
    refine (hview c hc).trans ?_
    rw [if_pos (mem_namedL2_iff.mpr ⟨hc, hreq⟩), startWrites, if_pos ⟨hflag, hbusy⟩]
  rw [L2Hw.callWrites, hlog, List.drop_left]

/-- **The initial value** is exact if the low half does not overflow before the high
half is written. -/
theorem initExact_start (hvalid : L2Valid hw s) (hinit : StartInitialises s cbase cmask flags c)
    {gap : ℕ → ℕ} (hgap : ∀ i, gap i < 2 ^ 32) (old : ℕ) :
    InitExact (2 ^ 32) v.toNat (hw.callWrites c s (.start cbase cmask flags v)) gap old ↔
      v.toNat % 2 ^ 32 + gap 1 < 2 ^ 32 := by
  have h := initExact_iff [] (v.toNat / 2 ^ 32)
    (Nat.mod_lt v.toNat (by decide)) hgap (by decide) old
  rw [Nat.div_add_mod'] at h
  rw [callWrites_start hvalid hinit]
  exact h

end Start

/-- **Initialising a running counter by halves.** After `scr_fdt_l2_pmu_init` and any
calls, a start with `SET_INIT_VALUE`, and on RV32 `pmu_write_hw_ctr`, leaves the counter
at the initial value plus the events since, exactly if those between the last two
writes do not carry out of the low half. -/
theorem half_init_iff (hw : L2Hw) (s₀ : L2Pmu) (calls : List L2Call)
    (cbase cmask flags v : U64) (c : ℕ)
    (hinit : StartInitialises (run hw.next (scrFdtL2PmuInit s₀) calls) cbase cmask flags c)
    (avail cidx : ℕ) (hcidx : cidx ≠ 1 ∧ cidx ≤ avail) (old : ℕ) (gap : ℕ → ℕ)
    (hgap : ∀ i, gap i < 2 ^ 32) :
    (InitExact (2 ^ 32) v.toNat
        (hw.callWrites c (run hw.next (scrFdtL2PmuInit s₀) calls) (.start cbase cmask flags v))
        gap old ↔
      v.toNat % 2 ^ 32 + gap 1 < 2 ^ 32) ∧
    (InitExact (2 ^ 32) v.toNat (csrHalfWrites cidx (pmuWriteHwCtr32 avail cidx v)) gap old ↔
      v.toNat % 2 ^ 32 + gap 2 < 2 ^ 32) :=
  ⟨initExact_start (valid_run hw s₀ calls) hinit hgap old,
    initExact_pmuWriteHwCtr32 hcidx v hgap old⟩

/-- Counter 3 of the L2 PMU and counter 0 of a hart, with one event in each gap. -/
theorem half_init_counter_three :
    (InitExact (2 ^ 32) (0xFFFFFFFFFFFFFFF0#64).toNat
        (L2Hw.sample.callWrites 3
          (run L2Hw.sample.next (scrFdtL2PmuInit ⟨fun _ => 0#32, []⟩)
            [.cfgMatch 3#64 1#64 0#64 5#64 0x10000#64])
          (.start 3#64 1#64 sbiPmuStartFlagSetInitValue 0xFFFFFFFFFFFFFFF0#64))
        (fun _ => 1) 7 ↔
      (0xFFFFFFFFFFFFFFF0#64).toNat % 2 ^ 32 + 1 < 2 ^ 32) ∧
    (InitExact (2 ^ 32) (0xFFFFFFFFFFFFFFF0#64).toNat
        (csrHalfWrites 0 (pmuWriteHwCtr32 3 0 0xFFFFFFFFFFFFFFF0#64)) (fun _ => 1) 7 ↔
      (0xFFFFFFFFFFFFFFF0#64).toNat % 2 ^ 32 + 1 < 2 ^ 32) :=
  half_init_iff L2Hw.sample ⟨fun _ => 0#32, []⟩ [.cfgMatch 3#64 1#64 0#64 5#64 0x10000#64]
    3#64 1#64 sbiPmuStartFlagSetInitValue 0xFFFFFFFFFFFFFFF0#64 3 (by decide +kernel)
    3 0 (by decide) 7 (fun _ => 1) fun _ => by decide

/-- One event between the halves of `2 ^ 32 - 1` is enough to lose `2 ^ 32` of them. -/
theorem half_init_loses_carry :
    ¬ InitExact (2 ^ 32) (0xFFFFFFFF#64).toNat
        (L2Hw.sample.callWrites 3
          (run L2Hw.sample.next (scrFdtL2PmuInit ⟨fun _ => 0#32, []⟩)
            [.cfgMatch 3#64 1#64 0#64 5#64 0x10000#64])
          (.start 3#64 1#64 sbiPmuStartFlagSetInitValue 0xFFFFFFFF#64))
        (fun _ => 1) 0 ∧
    ¬ InitExact (2 ^ 32) (0xFFFFFFFF#64).toNat
        (csrHalfWrites 0 (pmuWriteHwCtr32 3 0 0xFFFFFFFF#64)) (fun _ => 1) 0 := by
  constructor
  · rw [initExact_start (valid_run _ _ _) (by decide +kernel) fun _ => by decide]
    decide
  · rw [initExact_pmuWriteHwCtr32 (by decide) _ fun _ => by decide]
    decide

end ScBl
