import ScBl.Sbi
import Mathlib.Logic.Function.Basic

/-!
# The machine under the cache PMUs

`l2_pmu.c` and `l3_pmu.c` keep a table `active_events` and drive registers. Both
are used through the operations here, which log every table index and every
register address. The table is the flat memory it lies in: an index beyond it is
a value of the model.
-/

namespace ScBl

universe u

/-- A table access or a register access. -/
inductive CacheAccess
  | activeEvents (index : ℕ)
  | read (addr : U64)
  | write (addr val : U64)
  deriving DecidableEq, Repr

/-- The state of a cache PMU with table entries in `ε`. -/
structure CachePmu (ε : Type u) where
  /-- The memory from `&active_events[0]` on, by entries. -/
  activeEvents : ℕ → ε
  log : List CacheAccess

/-- What the registers answer to a read of an address, after the accesses made
so far. -/
abbrev Device : Type := List CacheAccess → U64 → U64

namespace CachePmu

variable {ε : Type u}

def access (s : CachePmu ε) (a : CacheAccess) : CachePmu ε := { s with log := s.log ++ [a] }

/-- Read `active_events[i]`; the value is `s.activeEvents i`. -/
def readActive (s : CachePmu ε) (i : ℕ) : CachePmu ε := s.access (.activeEvents i)

/-- `active_events[i] = event` -/
def writeActive (s : CachePmu ε) (i : ℕ) (event : ε) : CachePmu ε :=
  { s.access (.activeEvents i) with activeEvents := Function.update s.activeEvents i event }

/-- `readq` -/
def readq (dev : Device) (addr : U64) (s : CachePmu ε) : U64 × CachePmu ε :=
  (dev s.log addr, s.access (.read addr))

/-- `readl`, as its callers see it: zero-extended. -/
def readl (dev : Device) (addr : U64) (s : CachePmu ε) : U64 × CachePmu ε :=
  (dev s.log addr &&& 0xFFFFFFFF#64, s.access (.read addr))

/-- `writeq` -/
def writeq (val addr : U64) (s : CachePmu ε) : CachePmu ε := s.access (.write addr val)

/-- `writel` -/
def writel (val addr : U64) (s : CachePmu ε) : CachePmu ε :=
  s.access (.write addr (val &&& 0xFFFFFFFF#64))

/-- All entries of the log satisfy `P`. -/
def LogAll (P : CacheAccess → Prop) (s : CachePmu ε) : Prop := ∀ a ∈ s.log, P a

variable {P : CacheAccess → Prop} {s : CachePmu ε} {a : CacheAccess} {i : ℕ} {event : ε}
  {dev : Device} {addr val : U64}

/-- One access more. -/
@[simp] theorem logAll_access : (s.access a).LogAll P ↔ s.LogAll P ∧ P a := by
  simp only [LogAll, access, List.mem_append, List.mem_singleton]
  constructor
  · intro h
    exact ⟨fun b hb => h b (.inl hb), h a (.inr rfl)⟩
  · rintro ⟨hs, ha⟩ b (hb | rfl)
    · exact hs b hb
    · exact ha

@[simp] theorem logAll_readActive :
    (s.readActive i).LogAll P ↔ s.LogAll P ∧ P (.activeEvents i) :=
  logAll_access

@[simp] theorem logAll_writeActive :
    (s.writeActive i event).LogAll P ↔ s.LogAll P ∧ P (.activeEvents i) :=
  logAll_access

@[simp] theorem logAll_readl :
    (readl dev addr s).2.LogAll P ↔ s.LogAll P ∧ P (.read addr) :=
  logAll_access

/-- The value that is logged is the one on the bus, 32 bits wide. -/
@[simp] theorem logAll_writel :
    (writel val addr s).LogAll P ↔ s.LogAll P ∧ P (.write addr (val &&& 0xFFFFFFFF#64)) :=
  logAll_access

@[simp] theorem readActive_activeEvents : (s.readActive i).activeEvents = s.activeEvents := rfl

/-- A store changes the one entry. The index is any natural number, as the table is the memory it
lies in. -/
@[simp] theorem writeActive_activeEvents :
    (s.writeActive i event).activeEvents = Function.update s.activeEvents i event := rfl

/-! ## What is added to the log -/

/-- What lies between two states has added accesses with `P` only. -/
def Adds (P : CacheAccess → Prop) (s s' : CachePmu ε) : Prop :=
  ∃ new, s'.log = s.log ++ new ∧ ∀ a ∈ new, P a

variable {Q : CacheAccess → Prop} {s' s'' : CachePmu ε}

theorem Adds.refl (s : CachePmu ε) : Adds P s s := ⟨[], by simp, by simp⟩

/-- What two calls in a row have added satisfies what both satisfy. -/
theorem Adds.trans (h : Adds P s s') (h' : Adds P s' s'') : Adds P s s'' := by
  obtain ⟨new, hnew, hP⟩ := h
  obtain ⟨new', hnew', hP'⟩ := h'
  refine ⟨new ++ new', by rw [hnew', hnew, List.append_assoc], fun a ha => ?_⟩
  rcases List.mem_append.mp ha with ha | ha
  · exact hP a ha
  · exact hP' a ha

/-- A bound on the accesses may be relaxed. -/
theorem Adds.mono (hPQ : ∀ a, P a → Q a) (h : Adds P s s') : Adds Q s s' := by
  obtain ⟨new, hnew, hP⟩ := h
  exact ⟨new, hnew, fun a ha => hPQ a (hP a ha)⟩

/-- One access more. -/
theorem Adds.access (h : Adds P s s') (ha : P a) : Adds P s (s'.access a) := by
  obtain ⟨new, hnew, hP⟩ := h
  refine ⟨new ++ [a], by rw [CachePmu.access, hnew, List.append_assoc], fun b hb => ?_⟩
  rcases List.mem_append.mp hb with hb | hb
  · exact hP b hb
  · rw [List.mem_singleton.mp hb]
    exact ha

/-- A store into the table is an access with its index. -/
theorem Adds.writeActive (h : Adds P s s') (hi : P (.activeEvents i)) :
    Adds P s (s'.writeActive i event) := by
  obtain ⟨new, hnew, hP⟩ := h.access hi
  exact ⟨new, hnew, hP⟩

/-! ## Looking at the table -/

/-- The first `n` entries have been read. -/
def readTable (n : ℕ) (s : CachePmu ε) : CachePmu ε :=
  { s with log := s.log ++ (List.range n).map .activeEvents }

theorem readTable_zero (s : CachePmu ε) : readTable 0 s = s := by
  simp [readTable]

/-- The loops over the table go up from entry 0. -/
theorem readTable_succ (n : ℕ) (s : CachePmu ε) :
    readTable (n + 1) s = (readTable n s).readActive n := by
  simp [readTable, readActive, CachePmu.access, List.range_succ]

/-- What lies between two states has only looked at the table. -/
def TableOnly (s s' : CachePmu ε) : Prop :=
  s'.activeEvents = s.activeEvents ∧ Adds (fun a => ∃ i, a = .activeEvents i) s s'

/-- A call that is refused at once has read nothing. -/
theorem TableOnly.refl (s : CachePmu ε) : TableOnly s s := ⟨rfl, .refl s⟩

/-- Looking at an entry counts as an access and changes nothing. -/
theorem tableOnly_readActive (i : ℕ) : TableOnly s (s.readActive i) :=
  ⟨rfl, (Adds.refl s).access ⟨i, rfl⟩⟩

/-- Nor does looking at all of them. -/
theorem tableOnly_readTable (n : ℕ) : TableOnly s (readTable n s) := by
  refine ⟨rfl, (List.range n).map .activeEvents, rfl, fun a ha => ?_⟩
  obtain ⟨i, _, rfl⟩ := List.mem_map.mp ha
  exact ⟨i, rfl⟩

/-! ## What is written to a register -/

/-- The values written to a register, in order. -/
def writesTo (addr : U64) (log : List CacheAccess) : List U64 :=
  log.filterMap fun
    | .write a v => if a = addr then some v else none
    | _ => none

variable {addr' : U64} {n : ℕ}

@[simp] theorem writesTo_readActive :
    writesTo addr (s.readActive i).log = writesTo addr s.log := by
  simp [readActive, CachePmu.access, writesTo]

@[simp] theorem writesTo_writeActive :
    writesTo addr (s.writeActive i event).log = writesTo addr s.log := by
  simp [CachePmu.writeActive, CachePmu.access, writesTo]

@[simp] theorem writesTo_readl :
    writesTo addr (readl dev addr' s).2.log = writesTo addr s.log := by
  simp [readl, CachePmu.access, writesTo]

/-- A search for a free or an active entry writes no register. -/
@[simp] theorem writesTo_readTable :
    writesTo addr (readTable n s).log = writesTo addr s.log := by
  induction n with
  | zero => rw [readTable_zero]
  | succ n ih => rw [readTable_succ, writesTo_readActive, ih]

/-- A store to another address. -/
theorem writesTo_writel (hne : addr' ≠ addr) :
    writesTo addr (writel val addr' s).log = writesTo addr s.log := by
  simp [writel, CachePmu.access, writesTo, hne]

/-- A store to the address is the latest. -/
@[simp] theorem writesTo_writel_self :
    writesTo addr (writel val addr s).log = writesTo addr s.log ++ [val &&& 0xFFFFFFFF#64] := by
  simp [writel, CachePmu.access, writesTo]

/-- What some registers that are written together hold after the accesses, `v₀` before. -/
def lastWritten (P : U64 → Prop) [DecidablePred P] (v₀ : U64) (log : List CacheAccess) : U64 :=
  log.foldl (fun v a =>
    match a with
    | .write addr val => if P addr then val else v
    | _ => v) v₀

section LastWritten

variable {R : U64 → Prop} [DecidablePred R] {v₀ : U64}

@[simp] theorem lastWritten_readActive :
    lastWritten R v₀ (s.readActive i).log = lastWritten R v₀ s.log := by
  simp [readActive, CachePmu.access, lastWritten]

@[simp] theorem lastWritten_writeActive :
    lastWritten R v₀ (s.writeActive i event).log = lastWritten R v₀ s.log := by
  simp [CachePmu.writeActive, CachePmu.access, lastWritten]

@[simp] theorem lastWritten_readq :
    lastWritten R v₀ (readq dev addr s).2.log = lastWritten R v₀ s.log := by
  simp [readq, CachePmu.access, lastWritten]

/-- What a register was last given is not changed by a search through the table. -/
@[simp] theorem lastWritten_readTable :
    lastWritten R v₀ (readTable n s).log = lastWritten R v₀ s.log := by
  induction n with
  | zero => rw [readTable_zero]
  | succ n ih => rw [readTable_succ, lastWritten_readActive, ih]

/-- A 64-bit store counts if its address is one of the register's. -/
theorem lastWritten_writeq :
    lastWritten R v₀ (writeq val addr s).log = if R addr then val else lastWritten R v₀ s.log := by
  simp [writeq, CachePmu.access, lastWritten]

end LastWritten

end CachePmu

end ScBl
