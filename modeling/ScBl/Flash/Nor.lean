import ScBl.Bitops
import Mathlib.Logic.Function.Basic

/-!
# A NOR flash

What the flash behind the controller does with the commands of `xqspi.c`: an erase sets a
sector to ones, a program takes bits of a page away. A command takes effect when the flash is
deselected, and only if it is not busy; a status read goes through at any time. How long the
flash is busy is for it to choose.
-/

namespace ScBl

/-- What has been done to a flash. -/
inductive FlashOp
  /-- The sector with this number has been erased. -/
  | erase (sector : ℕ)
  /-- The byte at this address has been programmed. -/
  | program (addr : U32)
  deriving DecidableEq

/-- The 4 KiB sector of an address. -/
def sectorOf (addr : U32) : ℕ := addr.toNat / 4096

/-- The content of a flash, and what has been done to it, the latest last. -/
structure FlashStore where
  mem : U32 → U8
  log : List FlashOp

namespace FlashStore

variable (st : FlashStore)

def eraseSector (addr : U32) : FlashStore where
  mem a := if sectorOf a = sectorOf addr then 0xFF#8 else st.mem a
  log := st.log ++ [.erase (sectorOf addr)]

def programByte (addr : U32) (b : U8) : FlashStore where
  mem := Function.update st.mem addr (st.mem addr &&& b)
  log := st.log ++ [.program addr]

/-- The address of a byte that is shifted in, which wraps inside the page. -/
def inPage (addr : U32) (i : ℕ) : U32 :=
  (addr &&& ~~~0xFF#32) ||| ((addr + BitVec.ofNat 32 i) &&& 0xFF#32)

/-- The bytes shifted in, from the one with number `i` on. -/
def programFrom (addr : U32) : ℕ → List U8 → FlashStore → FlashStore
  | _, [], st => st
  | i, b :: data, st => programFrom addr (i + 1) data (st.programByte (inPage addr i) b)

def programPage (addr : U32) (data : List U8) : FlashStore := programFrom addr 0 data st

end FlashStore

/-- A flash at the other end of the wires. -/
structure Flash where
  store : FlashStore
  /-- write enable latch -/
  wel : Bool
  /-- For how many more status bytes it is busy. -/
  busy : ℕ
  /-- For how many it will be with each of the operations to come. -/
  busyFor : ℕ → ℕ
  /-- The bytes since it has been selected. -/
  received : List U8

/-- The address in four bytes. -/
def addrOfBytes (a₃ a₂ a₁ a₀ : U8) : U32 := (a₃ ++ a₂ ++ a₁ ++ a₀ : BitVec (8 + 8 + 8 + 8))

namespace Flash

variable (f : Flash)

/-- The status byte: busy in bit 0, the latch in bit 1. -/
def status : U8 := (if 0 < f.busy then 1#8 else 0#8) ||| (if f.wel then 2#8 else 0#8)

/-- A byte goes in and one comes out: that of a status read, or any. -/
def clock (b any : U8) : U8 × Flash :=
  if f.received.head? = some 0x05#8 then
    (f.status, { f with received := f.received ++ [b], busy := f.busy - 1 })
  else (any, { f with received := f.received ++ [b] })

/-- An erase or a program that starts. -/
def started (store : FlashStore) : Flash :=
  { f with
    store := store
    wel := false
    busy := f.busyFor 0
    busyFor := fun n => f.busyFor (n + 1) }

/-- A command, once the flash is deselected. -/
def execute : List U8 → Flash
  | [0x06#8] => { f with wel := true }
  | [0x04#8] => { f with wel := false }
  | [0x20#8, a₃, a₂, a₁, a₀] =>
    if f.wel then f.started (f.store.eraseSector (addrOfBytes a₃ a₂ a₁ a₀)) else f
  | 0x02#8 :: a₃ :: a₂ :: a₁ :: a₀ :: data =>
    if f.wel ∧ data ≠ [] then f.started (f.store.programPage (addrOfBytes a₃ a₂ a₁ a₀) data) else f
  | _ => f

def deselect : Flash :=
  let f' := { f with received := [] }
  if 0 < f.busy then f' else f'.execute f.received

end Flash

end ScBl
