import ScBl.Emu.Contract
import ScBl.Lib.Runs

/-!
# Faults inside the emulator

An access of the emulator may trap at the instruction fetch or at any byte of
the operand. This module says what such an attempt leaves behind, for loads and
stores alike (`MemOp`): the hart is back at the instruction, no register has
changed, and of a store only the bytes in front of the faulting one are in
memory (`MemOp.emulate_of_fault`).

So attempts can be repeated: however many were cut short, the one that goes
through ends like a single one (`MemOp.run_retry`). For a store this needs that
it does not write over its own instruction. The emulator reads the instruction
again at every attempt, and what the attempt before it left there need not be
the same store (`selfStore_not_restartable`).
-/

namespace ScBl

open Bytes Runs

/-! ## Loads and stores alike -/

/-- An emulated instruction. -/
inductive MemOp
  | load (op : LoadOp)
  | store (op : StoreOp)
  deriving DecidableEq, Repr

namespace MemOp

/-- The entry point that the trap cause selects. -/
def emulate (m : Mmu) (h : Hart) : MemOp → U64 × Hart
  | .load _ => emuMisalignedLoad m h
  | .store _ => emuMisalignedStore m h

def format : MemOp → Format
  | .load op => op.format
  | .store op => op.format

def Encodes (ins : U64) : MemOp → Prop
  | .load op => op.Encodes ins
  | .store op => op.Encodes ins

def bytes : MemOp → ℕ
  | .load op => op.bytes
  | .store op => op.bytes

/-- The byte accesses of the operation. -/
def access (m : Mmu) : MemOp → U64 → Option U64
  | .load _ => m.lbu
  | .store _ => m.sb

/-- The hart once the first `k` bytes went through: for a store they are in
memory. -/
def written (h : Hart) (k : ℕ) : MemOp → Hart
  | .load _ => h
  | .store op => h.stored h.mtval (h.slot (op.rs2 (instrAt h.mem h.mepc))) k

/-- Byte `i` is the first access to trap after the fetch. -/
def FaultsAt (m : Mmu) (h : Hart) (i : ℕ) (cause : U64) (op : MemOp) : Prop :=
  m.fetchFault h.mem h.mepc = none ∧ i < op.bytes ∧
    (∀ j < i, op.access m (h.mtval + BitVec.ofNat 64 j) = none) ∧
    op.access m (h.mtval + BitVec.ofNat 64 i) = some cause

/-- No access traps. -/
def Completes (m : Mmu) (h : Hart) (op : MemOp) : Prop :=
  m.fetchFault h.mem h.mepc = none ∧
    ∀ j < op.bytes, op.access m (h.mtval + BitVec.ofNat 64 j) = none

/-- The first access to trap, fetch or byte, traps with this cause. -/
def AbortsWith (m : Mmu) (h : Hart) (cause : U64) (op : MemOp) : Prop :=
  (∃ addr, m.fetchFault h.mem h.mepc = some (addr, cause)) ∨ ∃ i, op.FaultsAt m h i cause

/-- The bytes written are not bytes of the instruction; for loads there is
nothing to ask. -/
def Apart (h : Hart) : MemOp → Prop
  | .load _ => True
  | .store op => ∀ i < op.bytes, ∀ j < op.format.length.toNat,
      h.mtval + BitVec.ofNat 64 i ≠ h.mepc + BitVec.ofNat 64 j

variable {m : Mmu} {h : Hart} {op : MemOp}

/-! ## One attempt -/

theorem emulate_of_fetchFault {addr cause : U64}
    (hf : m.fetchFault h.mem h.mepc = some (addr, cause)) :
    op.emulate m h =
      (abortRet cause, h.aborted h.mepc (fetchCause cause) (fetchTval cause h.mepc addr)) := by
  cases op with
  | load op => exact emuMisalignedLoad_of_fetchFault hf
  | store op => exact emuMisalignedStore_of_fetchFault hf

/-- **A trap at byte `i`**, for loads and stores alike: what a store has written up to there stays
in memory. -/
theorem emulate_of_fault {i : ℕ} {cause : U64} (hop : op.Encodes (instrAt h.mem h.mepc))
    (hfault : op.FaultsAt m h i cause) :
    op.emulate m h =
      (abortRet cause,
        (op.written h i).aborted h.mepc cause (h.mtval + BitVec.ofNat 64 i)) := by
  obtain ⟨hf, hi, hok, htrap⟩ := hfault
  cases op with
  | load op => exact emuMisalignedLoad_of_fault hf hop hi hok htrap
  | store op => exact emuMisalignedStore_of_fault hf hop hi hok htrap

/-- The hart after all bytes went through. -/
def completed (h : Hart) : MemOp → Hart
  | .load op =>
    { h.setReg (op.rd (instrAt h.mem h.mepc)) (op.value (bytesAt h.mem h.mtval)) with
      mepc := h.mepc + op.format.length }
  | .store op =>
    { h.stored h.mtval (h.slot (op.rs2 (instrAt h.mem h.mepc))) op.bytes with
      mepc := h.mepc + op.format.length }

theorem emulate_of_complete (hop : op.Encodes (instrAt h.mem h.mepc)) (hc : op.Completes m h) :
    op.emulate m h = (0#64, op.completed h) := by
  cases op with
  | load op => exact emuMisalignedLoad_of_complete hc.1 hop hc.2
  | store op => exact emuMisalignedStore_of_complete hc.1 hop hc.2

theorem written_zero : op.written h 0 = h := by
  cases op with
  | load op => rfl
  | store op => rfl

/-! ## Repeated attempts -/

/-- The next attempt: the instruction traps again, with the same cause and the
same operand address, since the registers are the same. -/
def retry (op : MemOp) (h₀ : Hart) (h : Hart) (m : Mmu) : Hart :=
  (op.emulate m { h with mcause := h₀.mcause, mtval := h₀.mtval }).2

/-- What aborted attempts leave: some bytes written, and the CSRs of the last
trap. -/
def Attempted (op : MemOp) (h₀ h : Hart) : Prop :=
  ∃ k cause tval, k ≤ op.bytes ∧ h = (op.written h₀ k).aborted h₀.mepc cause tval

theorem halfAt_written {k : ℕ} {addr : U64} (hk : k ≤ op.bytes)
    (hapart : ∀ i < op.bytes, ∀ j < 2, h.mtval + BitVec.ofNat 64 i ≠ addr + BitVec.ofNat 64 j) :
    halfAt (op.written h k).mem addr = halfAt h.mem addr := by
  cases op with
  | load op => rfl
  | store op =>
    rw [halfAt, halfAt, leWord_congr (g := bytesAt h.mem addr)]
    intro j hj
    exact writeBytes_of_ne fun i hi => hapart i (lt_of_lt_of_le hi hk) j hj

/-- **The instruction survives its own attempts.** The bytes that a store has written before its
trap are apart from those of the instruction, so that the next attempt decodes the same word. -/
theorem fetch_written {k : ℕ} (hop : op.Encodes (instrAt h.mem h.mepc)) (hapart : op.Apart h)
    (hk : k ≤ op.bytes) :
    instrAt (op.written h k).mem h.mepc = instrAt h.mem h.mepc ∧
      ∀ m : Mmu, m.fetchFault (op.written h k).mem h.mepc = m.fetchFault h.mem h.mepc := by
  cases op with
  | load op => exact ⟨rfl, fun _ => rfl⟩
  | store op =>
    have hlen : 2 ≤ op.format.length.toNat := by cases op <;> decide
    have hlow : halfAt (written h k (.store op)).mem h.mepc = halfAt h.mem h.mepc :=
      halfAt_written hk fun i hi j hj => hapart i hi j (by omega)
    by_cases hword : halfAt h.mem h.mepc &&& 3#64 = 3#64
    · -- a 32-bit instruction: the second half is apart from the operand too
      have hlen4 : op.format.length.toNat = 4 := by
        have hins := insLen_of_matches (show op.format.Matches _ from hop)
        rw [insLen, if_pos (instrAt_and_three.mpr hword)] at hins
        rw [← hins]
        rfl
      have hhigh : halfAt (written h k (.store op)).mem (h.mepc + 2#64) =
          halfAt h.mem (h.mepc + 2#64) := by
        refine halfAt_written hk fun i hi j hj => ?_
        have hij := hapart i hi (2 + j) (by omega)
        rwa [BitVec.ofNat_add, ← BitVec.add_assoc] at hij
      exact ⟨by rw [instrAt, instrAt, hlow, hhigh],
        fun m => by rw [Mmu.fetchFault, Mmu.fetchFault, hlow]⟩
    · exact ⟨by rw [instrAt, instrAt, hlow, if_neg hword, if_neg hword],
        fun m => by rw [Mmu.fetchFault, Mmu.fetchFault, hlow]⟩

/-- Writing on after an attempt that wrote `k` bytes. A new attempt begins with the first byte again
and writes the same values. -/
theorem written_written {k j : ℕ}
    (hins : instrAt (op.written h k).mem h.mepc = instrAt h.mem h.mepc) :
    op.written (op.written h k) j = op.written h (max k j) := by
  cases op with
  | load op => rfl
  | store op =>
    have hins' : instrAt (h.stored h.mtval (h.slot (op.rs2 (instrAt h.mem h.mepc))) k).mem h.mepc =
        instrAt h.mem h.mepc := hins
    simp only [written, Hart.stored] at hins' ⊢
    rw [hins', ← writeBytes_writeBytes]
    rfl

/-- The hart at the next attempt is the first one's, with the bytes written so
far in memory. -/
theorem Attempted.reenter {s : Hart} (hs : op.Attempted h s) :
    ∃ k ≤ op.bytes, { s with mcause := h.mcause, mtval := h.mtval } = op.written h k := by
  obtain ⟨k, cause, tval, hk, rfl⟩ := hs
  refine ⟨k, hk, ?_⟩
  cases op with
  | load op => rfl
  | store op => rfl

theorem written_mepc (k : ℕ) : (op.written h k).mepc = h.mepc := by
  cases op with
  | load op => rfl
  | store op => rfl

theorem written_mtval (k : ℕ) : (op.written h k).mtval = h.mtval := by
  cases op with
  | load op => rfl
  | store op => rfl

/-- **One more aborted attempt** leaves a hart from which the instruction can be tried again. What
it has written by then are bytes that the next attempt writes again. -/
theorem Attempted.retry {s : Hart} {cause : U64} (hop : op.Encodes (instrAt h.mem h.mepc))
    (hapart : op.Apart h) (hs : op.Attempted h s) (ha : op.AbortsWith m h cause) :
    op.Attempted h (op.retry h s m) := by
  obtain ⟨k, hk, hre⟩ := hs.reenter
  obtain ⟨hins, hfetch⟩ := fetch_written hop hapart hk
  rw [MemOp.retry, hre]
  rcases ha with ⟨addr, hf⟩ | ⟨i, hf, hi, hok, htrap⟩
  · have hf' : m.fetchFault (op.written h k).mem (op.written h k).mepc = some (addr, cause) := by
      rw [written_mepc, hfetch, hf]
    rw [emulate_of_fetchFault hf', written_mepc]
    exact ⟨k, _, _, hk, rfl⟩
  · have hop' : op.Encodes (instrAt (op.written h k).mem (op.written h k).mepc) := by
      rwa [written_mepc, hins]
    have hfault : op.FaultsAt m (op.written h k) i cause := by
      rw [FaultsAt, written_mepc, written_mtval, hfetch]
      exact ⟨hf, hi, hok, htrap⟩
    rw [emulate_of_fault hop' hfault, written_mepc, written_written hins]
    exact ⟨max k i, _, _, max_le hk hi.le, rfl⟩

/-- **The attempt that goes through** ends as if there had been none before it: all bytes are
written again, and the registers are those of the first attempt. -/
theorem Attempted.retry_complete {s : Hart} (hop : op.Encodes (instrAt h.mem h.mepc))
    (hapart : op.Apart h) (hs : op.Attempted h s) (hc : op.Completes m h) :
    op.retry h s m = (op.emulate m h).2 := by
  obtain ⟨k, hk, hre⟩ := hs.reenter
  obtain ⟨hins, hfetch⟩ := fetch_written hop hapart hk
  have hop' : op.Encodes (instrAt (op.written h k).mem (op.written h k).mepc) := by
    rwa [written_mepc, hins]
  have hc' : op.Completes m (op.written h k) := by
    rw [Completes, written_mepc, written_mtval, hfetch]
    exact hc
  rw [MemOp.retry, hre, emulate_of_complete hop' hc', emulate_of_complete hop hc]
  cases op with
  | load op => rfl
  | store op =>
    have hwhole := written_written (j := (store op).bytes) hins
    rw [max_eq_right hk] at hwhole
    exact congrArg (fun s : Hart => { s with mepc := h.mepc + op.format.length }) hwhole

/-- **Any number of aborted attempts** before the last one come to the same as the last one alone.
By induction on the attempts. -/
theorem run_retry {attempts : List Mmu} (hop : op.Encodes (instrAt h.mem h.mepc))
    (hapart : op.Apart h) (ha : ∀ a ∈ attempts, ∃ cause, op.AbortsWith a h cause)
    (hc : op.Completes m h) :
    run (op.retry h) h (attempts ++ [m]) = (op.emulate m h).2 := by
  have hstart : op.Attempted h h := by
    refine ⟨0, h.mcause, h.mtval, Nat.zero_le _, ?_⟩
    rw [written_zero]
    rfl
  have hstep : ∀ (s : Hart) (a : Mmu), op.Attempted h s → (∃ cause, op.AbortsWith a h cause) →
      True ∧ op.Attempted h (op.retry h s a) := by
    rintro s a hs ⟨cause, ha⟩
    exact ⟨trivial, hs.retry hop hapart ha⟩
  have hattempts := (EachStep.of_inv _ (P := fun _ _ => True) hstep hstart (EachStep.of_mem ha)).2
  rw [run_append]
  exact hattempts.retry_complete hop hapart hc

end MemOp

/-! ## Precise and restartable -/

/-- **Faults are precise, and attempts can be repeated.** For a word that the
emulator accepts: a fault at byte `i`, a fault at the fetch, a TLB miss anywhere,
and any number of aborted attempts before one that goes through. -/
theorem emulate_precise_and_restartable (op : MemOp) (h : Hart)
    (hop : op.Encodes (instrAt h.mem h.mepc)) :
    (∀ m i cause, op.FaultsAt m h i cause → cause ≠ excTlbMiss →
      op.emulate m h =
        (1#64, { op.written h i with mcause := cause, mtval := h.mtval + BitVec.ofNat 64 i })) ∧
    (∀ m addr cause, m.fetchFault h.mem h.mepc = some (addr, cause) → cause ≠ excTlbMiss →
      op.emulate m h = (1#64, { h with mcause := fetchCause cause, mtval := h.mepc })) ∧
    (∀ m, op.AbortsWith m h excTlbMiss → ∃ k < op.bytes, ∃ tval,
      op.emulate m h = (0#64, { op.written h k with mcause := excTlbMiss, mtval := tval })) ∧
    (op.Apart h → ∀ attempts m, (∀ a ∈ attempts, ∃ cause, op.AbortsWith a h cause) →
      op.Completes m h → run (op.retry h) h (attempts ++ [m]) = (op.emulate m h).2) := by
  have hret : ∀ cause, cause ≠ excTlbMiss → abortRet cause = 1#64 := fun _ h => if_neg h
  refine ⟨?_, ?_, ?_, ?_⟩
  · intro m i cause hfault hcause
    rw [MemOp.emulate_of_fault hop hfault, hret cause hcause]
    cases op <;> rfl
  · intro m addr cause hf hcause
    rw [MemOp.emulate_of_fetchFault hf, hret cause hcause, fetchTval, if_neg hcause]
    rfl
  · rintro m (⟨addr, hf⟩ | ⟨i, hfault⟩)
    · have hpos : 0 < op.bytes := by cases op with | load op | store op => cases op <;> decide
      refine ⟨0, hpos, addr, ?_⟩
      rw [MemOp.emulate_of_fetchFault hf, MemOp.written_zero]
      rfl
    · refine ⟨i, hfault.2.1, h.mtval + BitVec.ofNat 64 i, ?_⟩
      rw [MemOp.emulate_of_fault hop hfault]
      cases op <;> rfl
  · intro hapart attempts m ha hc
    exact MemOp.run_retry hop hapart ha hc

/-- A memory system that misses the TLB on stores to one address. -/
def Mmu.missAt (addr : U64) : Mmu :=
  { Mmu.allOk with sb := fun a => if a = addr then some excTlbMiss else none }

theorem Mmu.fetchFault_missAt (addr : U64) (mem : U64 → U8) (pc : U64) :
    (Mmu.missAt addr).fetchFault mem pc = none := by
  simp [Mmu.fetchFault, Mmu.missAt, Mmu.allOk]

/-- `sw x5, 0(x6)` across a page boundary: the miss on the second page is
repaired by the second attempt. -/
theorem emulate_precise_and_restartable_sw :
    run ((MemOp.store .sw).retry (Hart.sample 0x100#64 0x00532023#32 0xffd#64 0#8 fun _ => 7#64))
        (Hart.sample 0x100#64 0x00532023#32 0xffd#64 0#8 fun _ => 7#64)
        ([Mmu.missAt 0x1000#64] ++ [Mmu.allOk]) =
      ((MemOp.store .sw).emulate Mmu.allOk
        (Hart.sample 0x100#64 0x00532023#32 0xffd#64 0#8 fun _ => 7#64)).2 := by
  refine (emulate_precise_and_restartable (.store .sw)
    (Hart.sample 0x100#64 0x00532023#32 0xffd#64 0#8 fun _ => 7#64)
    (show StoreOp.sw.Encodes _ by decide)).2.2.2 ?_ _ _ ?_ ?_
  · show ∀ i < 4, ∀ j < 4, (0xffd#64 + BitVec.ofNat 64 i : U64) ≠ 0x100#64 + BitVec.ofNat 64 j
    decide
  · intro a ha
    obtain rfl := List.mem_singleton.mp ha
    exact ⟨excTlbMiss, .inr ⟨3, Mmu.fetchFault_missAt _ _ _, by decide, by decide, by decide⟩⟩
  · exact ⟨Mmu.fetchFault_allOk _ _, fun _ _ => rfl⟩

/-- A store over its own instruction, at the end of a page: the first three
bytes turn `sw` into `sh`. -/
def Hart.selfStore : Hart :=
  Hart.sample 0xffc#64 0x00532023#32 0xffd#64 0#8 fun _ => 0xaa005310#64

/-- Repeating such a store loses its last byte, although every attempt but the
last only missed the TLB. -/
theorem selfStore_not_restartable :
    ¬ ∀ (op : MemOp) (h : Hart) (attempts : List Mmu) (m : Mmu),
      op.Encodes (instrAt h.mem h.mepc) → (∀ a ∈ attempts, op.AbortsWith a h excTlbMiss) →
      op.Completes m h → (run (op.retry h) h (attempts ++ [m])).mem = (op.emulate m h).2.mem := by
  intro hall
  have hop : (MemOp.store .sw).Encodes (instrAt Hart.selfStore.mem Hart.selfStore.mepc) := by
    show StoreOp.sw.Encodes _
    decide
  have hmiss : (MemOp.store .sw).FaultsAt (Mmu.missAt 0x1000#64) Hart.selfStore 3 excTlbMiss :=
    ⟨Mmu.fetchFault_missAt _ _ _, by decide, by decide, by decide⟩
  have hok : (MemOp.store .sw).Completes Mmu.allOk Hart.selfStore :=
    ⟨Mmu.fetchFault_allOk _ _, fun _ _ => rfl⟩
  have hmem := hall (.store .sw) Hart.selfStore [Mmu.missAt 0x1000#64] Mmu.allOk hop
    (fun a ha => by rw [List.mem_singleton.mp ha]; exact .inr ⟨3, hmiss⟩) hok
  -- the second attempt finds `sh` in memory
  have hsecond : (MemOp.store .sh).emulate Mmu.allOk ((MemOp.store .sw).written Hart.selfStore 3) =
      (0#64, (MemOp.store .sh).completed ((MemOp.store .sw).written Hart.selfStore 3)) :=
    MemOp.emulate_of_complete (show StoreOp.sh.Encodes _ by decide)
      ⟨Mmu.fetchFault_allOk _ _, fun _ _ => rfl⟩
  have hrun : run ((MemOp.store .sw).retry Hart.selfStore) Hart.selfStore
      ([Mmu.missAt 0x1000#64] ++ [Mmu.allOk]) =
      ((MemOp.store .sh).emulate Mmu.allOk ((MemOp.store .sw).written Hart.selfStore 3)).2 := by
    have hfirst := MemOp.emulate_of_fault hop hmiss
    show ((MemOp.store .sw).emulate Mmu.allOk
      { ((MemOp.store .sw).emulate (Mmu.missAt 0x1000#64) Hart.selfStore).2 with
        mcause := Hart.selfStore.mcause, mtval := Hart.selfStore.mtval }).2 = _
    rw [hfirst]
    rfl
  rw [hrun, hsecond, MemOp.emulate_of_complete hop hok] at hmem
  have hbyte := congrFun hmem 0x1000#64
  exact absurd hbyte (by decide)

end ScBl
