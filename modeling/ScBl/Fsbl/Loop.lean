import ScBl.Bitops
import ScBl.Lib.Bytes
import ScBl.Lib.Runs
import ScBl.Xlen
import Mathlib.Tactic.Ring

/-!
# The command loop (`fsbl.c`, `main`)

A round reads a key and calls the function of its command. Return calls the function of the last
command again where the table says so, each time at an address that has gone on by the amount in
the table. Keys that are not in the table change nothing (`commandLoop_repeats`), and with
"mem modify" the values that are typed in go to consecutive words (`commandLoop_modify`).
-/

namespace ScBl

open Bytes Runs

variable {x : Xlen}

/-! ## The table -/

/-- The functions of the table. -/
inductive CmdFunc
  | startLinux | startSmp | xload | flashLoad | flashUpdate | start | memDump | memDump32
  | memModify | memTest | printTime | dumpCounters | flipDbg | flipL1cache | flipL2cache
  | showCommands
  deriving DecidableEq

/-- `struct scbl_cmd` -/
structure ScblCmd (x : Xlen) where
  key : U32
  descr : Option String
  func : CmdFunc
  data : x.Word

def scblCmdHidden : U32 := 1#32 <<< 31
def scblCmdArgAddr : U32 := 1#32 <<< 30
def scblCmdArgAutoinc : U32 := 1#32 <<< 29

/-- What the table is built for. -/
structure CmdPlf where
  kernelEntry : Bool
  smpSupport : Bool
  xmodemEnabled : Bool
  nvramKernel : Bool
  flashUpdate : Bool
  memDump32 : Bool
  memTest : Bool
  hwcntDump : Bool
  cacheCfg : Bool
  l2ctl : Bool

/-- A key and its flags. -/
def keyOf (c : Char) (flags : U32) : U32 := BitVec.ofNat 32 c.toNat ||| flags

/-- The rows of the table, with the condition of their `#if`. -/
def commandRows (x : Xlen) (plf : CmdPlf) : List (Bool × ScblCmd x) :=
  [(plf.kernelEntry || plf.smpSupport,
      if plf.kernelEntry then ⟨keyOf '0' 0, some "start Linux", .startLinux, 0#_⟩
      else ⟨keyOf '0' scblCmdArgAddr, some "start SMP @addr", .startSmp, 0#_⟩),
    (plf.xmodemEnabled, ⟨keyOf '1' scblCmdArgAddr, some "xload @addr", .xload, 0#_⟩),
    (plf.nvramKernel, ⟨keyOf 'v' 0, some "int flash load", .flashLoad, 0#_⟩),
    (plf.nvramKernel && plf.flashUpdate,
      ⟨keyOf 'u' 0, some "int flash update", .flashUpdate, 0#_⟩),
    (true, ⟨keyOf 'g' scblCmdArgAddr, some "start @addr", .start, 0#_⟩),
    (true, ⟨keyOf 'd' (scblCmdArgAddr ||| scblCmdArgAutoinc), some "mem dump", .memDump, 128#_⟩),
    (plf.memDump32, ⟨keyOf 'D' (scblCmdArgAddr ||| scblCmdArgAutoinc),
      some "mem dump (by 32-bit word)", .memDump32, 128#_⟩),
    (true, ⟨keyOf 'm' (scblCmdArgAddr ||| scblCmdArgAutoinc), some "mem modify", .memModify,
      BitVec.ofNat _ x.hart8⟩),
    (plf.memTest, ⟨keyOf 't' scblCmdArgAddr, some "mem test", .memTest, 0#_⟩),
    (true, ⟨keyOf 'T' scblCmdHidden, some "current time", .printTime, 0#_⟩),
    (plf.hwcntDump, ⟨keyOf 'c' 0, some "dump hw counters", .dumpCounters, 0#_⟩),
    (true, ⟨keyOf '!' scblCmdHidden, none, .flipDbg, 0#_⟩),
    (plf.cacheCfg, ⟨keyOf '$' scblCmdHidden, some "flip L1$", .flipL1cache, 0#_⟩),
    (plf.cacheCfg && plf.l2ctl, ⟨keyOf '%' scblCmdHidden, some "flip L2$", .flipL2cache, 0#_⟩),
    (true, ⟨keyOf ' ' scblCmdHidden, none, .showCommands, 0#_⟩)]

/-- `scbl_commands` -/
def scblCommands (x : Xlen) (plf : CmdPlf) : List (ScblCmd x) :=
  ((commandRows x plf).filter (·.1)).map (·.2)

namespace ScblCmd

variable (cmd : ScblCmd x)

/-- `key & 0xff` -/
def char : U32 := cmd.key &&& 0xFF#32

/-- `key & SCBL_CMD_ARG_ADDR` -/
def argAddr : Bool := cmd.key &&& scblCmdArgAddr ≠ 0#32

/-- `key & SCBL_CMD_ARG_AUTOINC` -/
def autoinc : Bool := cmd.key &&& scblCmdArgAutoinc ≠ 0#32

end ScblCmd

/-! ## The loop -/

/-- What a round prints and calls. -/
inductive CmdOut (x : Xlen)
  | putc (c : U32)
  | puts (s : String)
  | call (func : CmdFunc) (addr : x.Word)
  deriving DecidableEq

/-- What is typed in in a round. -/
structure CmdInput (x : Xlen) where
  /-- `uart_getc` -/
  c : U32
  /-- `uart_read_hex`, where the round reads an address. -/
  addr : x.Word
  /-- `uart_read_hex`, where the function that is called reads a value. -/
  val : x.Word

/-- The variables of `main`, and what the functions work on. -/
structure CommandLoop (x : Xlen) (σ : Type) where
  prevCmd : Option (ScblCmd x)
  prevAddr : x.Word
  out : List (CmdOut x)
  sys : σ

/-- How the functions change the state of the loader, with the value that they read. -/
abbrev CmdEffect (x : Xlen) (σ : Type) : Type := CmdFunc → x.Word → x.Word → σ → σ

namespace CommandLoop

variable {σ : Type}

/-- `cmd->func(addr)` -/
def call (exec : CmdEffect x σ) (s : CommandLoop x σ) (func : CmdFunc) (addr val : x.Word) :
    CommandLoop x σ :=
  { s with out := s.out ++ [.call func addr], sys := exec func addr val s.sys }

def print (s : CommandLoop x σ) (l : List (CmdOut x)) : CommandLoop x σ :=
  { s with out := s.out ++ l }

/-- The prompt, where `dbg` is `enable_dbg_out`. -/
def prompt (dbg : σ → Bool) (s : CommandLoop x σ) : CommandLoop x σ :=
  s.print [.putc (keyOf (if dbg s.sys then '!' else ':') 0), .putc (keyOf ' ' 0)]

/-- The address for a command, which is read if the command takes one. -/
def setAddr (cmd : ScblCmd x) (s : CommandLoop x σ) (i : CmdInput x) : CommandLoop x σ :=
  if cmd.argAddr then
    { s.print (cmd.descr.toList.map .puts ++ [.puts "\naddr: "]) with prevAddr := i.addr }
  else { s with prevAddr := cmd.data }

/-- Return: `prev_cmd` again, if it goes on. -/
def again (exec : CmdEffect x σ) (s : CommandLoop x σ) (i : CmdInput x) : CommandLoop x σ :=
  match s.prevCmd with
  | some prev =>
    if prev.autoinc then
      let s := s.print [.putc (keyOf '\r' 0)]
      let s := { s with prevAddr := s.prevAddr + prev.data }
      s.call exec prev.func s.prevAddr i.val
    else s.print [.putc (keyOf '\n' 0)]
  | none => s.print [.putc (keyOf '\n' 0)]

/-- A round of the loop. -/
def round (plf : CmdPlf) (exec : CmdEffect x σ) (dbg : σ → Bool) (s : CommandLoop x σ)
    (i : CmdInput x) : CommandLoop x σ :=
  let s := s.prompt dbg
  match (scblCommands x plf).find? fun cmd => cmd.char = i.c with
  | some cmd =>
    let s := (s.print [.putc (keyOf '\r' 0)]).setAddr cmd i
    { s.call exec cmd.func s.prevAddr i.val with prevCmd := some cmd }
  | none =>
    if i.c = keyOf '\r' 0 then s.again exec i
    else s.print [.putc i.c, .puts " - unknown command\n"]

/-- Where the loop starts. -/
def start (sys : σ) : CommandLoop x σ := ⟨none, 0#_, [], sys⟩

/-- The calls of a run. -/
def calls (out : List (CmdOut x)) : List (CmdFunc × x.Word) :=
  out.filterMap fun
    | .call func addr => some (func, addr)
    | _ => none

/-! ## The keys -/

/-- The keys of all rows. -/
def tableKeys : List U32 := ['0', '1', 'v', 'u', 'g', 'd', 'D', 'm', 't', 'T', 'c', '!', '$', '%',
  ' '].map fun c => keyOf c 0

theorem commandRows_keys (x : Xlen) (plf : CmdPlf) :
    (commandRows x plf).map (·.2.char) = tableKeys := by
  obtain ⟨kernelEntry, -⟩ := plf
  cases kernelEntry <;>
    simp [commandRows, tableKeys, ScblCmd.char, keyOf, scblCmdHidden, scblCmdArgAddr,
      scblCmdArgAutoinc]

theorem keys_sublist (x : Xlen) (plf : CmdPlf) :
    ((scblCommands x plf).map ScblCmd.char).Sublist tableKeys := by
  rw [← commandRows_keys x plf, scblCommands, List.map_map]
  exact List.filter_sublist.map _

/-- No table has a key twice. -/
theorem keys_nodup (x : Xlen) (plf : CmdPlf) : ((scblCommands x plf).map ScblCmd.char).Nodup :=
  (keys_sublist x plf).nodup (by decide)

/-- The command of a key. -/
theorem find?_of_nodup {α β : Type} [DecidableEq β] {f : α → β} {l : List α} {a : α} {b : β}
    (hl : (l.map f).Nodup) (ha : a ∈ l) (hb : b = f a) : l.find? (fun a => f a = b) = some a := by
  induction l with
  | nil => cases ha
  | cons a' l ih =>
    rw [List.map_cons, List.nodup_cons] at hl
    obtain rfl | ha := List.mem_cons.mp ha
    · exact List.find?_cons_of_pos (by simp [hb])
    · have hne : f a' ≠ b := fun heq => hl.1 (List.mem_map.mpr ⟨a, ha, hb.symm.trans heq.symm⟩)
      rw [List.find?_cons_of_neg (by simpa using hne), ih hl.2 ha]

/-! ## Rounds -/

variable {plf : CmdPlf} {exec : CmdEffect x σ} {dbg : σ → Bool} {s : CommandLoop x σ}
  {cmd : ScblCmd x} {i : CmdInput x} {a : x.Word}

/-- No command has this key. -/
def NoKey (plf : CmdPlf) (i : CmdInput x) : Prop := ∀ cmd ∈ scblCommands x plf, cmd.char ≠ i.c

/-- The address that a command is called with first. -/
def firstAddr (cmd : ScblCmd x) (i : CmdInput x) : x.Word :=
  if cmd.argAddr then i.addr else cmd.data

@[simp] theorem calls_append (l l' : List (CmdOut x)) : calls (l ++ l') = calls l ++ calls l' :=
  List.filterMap_append

theorem find?_of_mem (hcmd : cmd ∈ scblCommands x plf) (hc : i.c = cmd.char) :
    (scblCommands x plf).find? (fun cmd => cmd.char = i.c) = some cmd :=
  find?_of_nodup (keys_nodup x plf) hcmd hc

theorem NoKey.find? (h : NoKey plf i) :
    (scblCommands x plf).find? (fun cmd => cmd.char = i.c) = none := by
  rw [List.find?_eq_none]
  intro cmd hcmd
  simpa using h cmd hcmd

/-- The state after a call. -/
structure After (exec : CmdEffect x σ) (cmd : ScblCmd x) (a val : x.Word)
    (s t : CommandLoop x σ) : Prop where
  prevCmd : t.prevCmd = some cmd
  prevAddr : t.prevAddr = a
  sys : t.sys = exec cmd.func a val s.sys
  calls : calls t.out = calls s.out ++ [(cmd.func, a)]

/-- The state after a round without a call. -/
structure Unmoved (s t : CommandLoop x σ) : Prop where
  prevCmd : t.prevCmd = s.prevCmd
  prevAddr : t.prevAddr = s.prevAddr
  sys : t.sys = s.sys
  calls : CommandLoop.calls t.out = CommandLoop.calls s.out

variable (exec dbg s) in
/-- **A key of the table.** -/
theorem round_command (hcmd : cmd ∈ scblCommands x plf) (hc : i.c = cmd.char) :
    After exec cmd (firstAddr cmd i) i.val s (round plf exec dbg s i) := by
  simp only [round, find?_of_mem hcmd hc, setAddr, firstAddr]
  split_ifs
  · refine ⟨rfl, rfl, rfl, ?_⟩
    cases hdescr : cmd.descr <;> simp [call, print, prompt, calls]
  · exact ⟨rfl, rfl, rfl, by simp [call, print, prompt, calls]⟩

variable (exec dbg) in
/-- **Return**, after a command that goes on. -/
theorem round_return (hprev : s.prevCmd = some cmd) (hinc : cmd.autoinc = true)
    (hkey : NoKey plf i) (hc : i.c = keyOf '\r' 0) :
    After exec cmd (s.prevAddr + cmd.data) i.val s (round plf exec dbg s i) := by
  have hprev' : (s.prompt dbg).prevCmd = some cmd := hprev
  simp only [round, hkey.find?, if_pos hc, again, hprev', hinc, if_true]
  exact ⟨hprev, rfl, rfl, by simp [call, print, prompt, calls]⟩

variable (exec dbg s) in
/-- Any other key, and Return after a command that does not go on. -/
theorem round_idle (hkey : NoKey plf i)
    (hidle : i.c ≠ keyOf '\r' 0 ∨ ∀ cmd, s.prevCmd = some cmd → cmd.autoinc = false) :
    Unmoved s (round plf exec dbg s i) := by
  simp only [round, hkey.find?]
  split_ifs with hc
  · have hprev := hidle.resolve_left (not_not.mpr hc)
    have hprev' : (s.prompt dbg).prevCmd = s.prevCmd := rfl
    simp only [again, hprev']
    cases hcmd : s.prevCmd with
    | none => exact ⟨hprev', rfl, rfl, by simp [print, prompt, calls]⟩
    | some cmd =>
      simp only [hprev cmd hcmd]
      exact ⟨hprev', rfl, rfl, by simp [print, prompt, calls]⟩
  · exact ⟨rfl, rfl, rfl, by simp [print, prompt, calls]⟩

/-! ## Runs -/

/-- The rounds that are Return. -/
def returns (rest : List (CmdInput x)) : List (CmdInput x) :=
  rest.filter fun i => i.c = keyOf '\r' 0

theorem returns_cons_return {j : CmdInput x} {rest : List (CmdInput x)}
    (hc : j.c = keyOf '\r' 0) : returns (j :: rest) = j :: returns rest :=
  List.filter_cons_of_pos (by simpa using hc)

theorem returns_cons_other {j : CmdInput x} {rest : List (CmdInput x)}
    (hc : j.c ≠ keyOf '\r' 0) : returns (j :: rest) = returns rest :=
  List.filter_cons_of_neg (by simpa using hc)

/-- The addresses of a command that goes on `n` times. -/
def addrsFrom (a data : x.Word) (n : ℕ) : List x.Word :=
  (List.range n).map fun k => a + BitVec.ofNat _ k * data

theorem addrsFrom_succ (a data : x.Word) (n : ℕ) :
    addrsFrom a data (n + 1) = a :: addrsFrom (a + data) data n := by
  rw [addrsFrom, List.range_succ_eq_map, List.map_cons, List.map_map]
  refine congrArg₂ _ (by simp) (List.map_congr_left fun k _ => ?_)
  rw [Function.comp_apply, Nat.succ_eq_add_one, BitVec.ofNat_add, add_mul, BitVec.one_mul]
  ring

/-- After a command that goes on, each Return calls it again at the next address. Keys that are in
no table change nothing in between. -/
theorem run_autoinc {rest : List (CmdInput x)} (hprev : s.prevCmd = some cmd)
    (hinc : cmd.autoinc = true) (hrest : ∀ j ∈ rest, NoKey plf j) :
    calls (run (round plf exec dbg) s rest).out = calls s.out ++
      (addrsFrom (s.prevAddr + cmd.data) cmd.data (returns rest).length).map fun a =>
        (cmd.func, a) := by
  induction rest generalizing s with
  | nil => simp [run, returns, addrsFrom]
  | cons j rest ih =>
    have hkey := hrest j List.mem_cons_self
    have hrest' := fun i hi => hrest i (List.mem_cons_of_mem _ hi)
    rw [run]
    rcases eq_or_ne j.c (keyOf '\r' 0) with hc | hc
    · obtain ⟨hcmd, haddr, -, hcalls⟩ :=
        round_return exec dbg hprev hinc hkey hc
      rw [ih hcmd hrest', hcalls, haddr, returns_cons_return hc, List.length_cons, addrsFrom_succ,
        List.map_cons, List.append_assoc, List.singleton_append]
    · obtain ⟨hcmd, haddr, -, hcalls⟩ :=
        round_idle exec dbg s hkey (.inl hc)
      rw [ih (hcmd.trans hprev) hrest', hcalls, haddr, returns_cons_other hc]

/-- After a command that does not go on, and before the first one. -/
theorem run_idle {rest : List (CmdInput x)}
    (hprev : ∀ cmd, s.prevCmd = some cmd → cmd.autoinc = false)
    (hrest : ∀ j ∈ rest, NoKey plf j) :
    calls (run (round plf exec dbg) s rest).out = calls s.out := by
  induction rest generalizing s with
  | nil => rfl
  | cons j rest ih =>
    obtain ⟨hcmd, -, -, hcalls⟩ :=
      round_idle exec dbg s (hrest j List.mem_cons_self) (.inr hprev)
    rw [run, ih (fun cmd h => hprev cmd (hcmd ▸ h))
      fun i hi => hrest i (List.mem_cons_of_mem _ hi), hcalls]

/-- **The calls of a run.** None before the first key of the table; after a key of the table, in
any run, one call of its command, and if it goes on, one more for each Return, each time an
amount further; the keys between that are in no table make no difference. -/
theorem commandLoop_repeats (plf : CmdPlf) (exec : CmdEffect x σ) (dbg : σ → Bool) (sys : σ)
    (hist rest : List (CmdInput x)) (hrest : ∀ j ∈ rest, NoKey plf j) :
    calls (run (round plf exec dbg) (start sys) rest).out = [] ∧
    ∀ cmd ∈ scblCommands x plf, ∀ i : CmdInput x, i.c = cmd.char →
      calls (run (round plf exec dbg) (start sys) (hist ++ i :: rest)).out =
        calls (run (round plf exec dbg) (start sys) hist).out ++
          (addrsFrom (firstAddr cmd i) cmd.data
            (if cmd.autoinc then (returns rest).length + 1 else 1)).map fun a => (cmd.func, a) := by
  refine ⟨run_idle (fun cmd h => by cases h) hrest, fun cmd hcmd i hc => ?_⟩
  rw [run_append, run]
  obtain ⟨hprev, haddr, -, hcalls⟩ := round_command exec dbg
    (run (round plf exec dbg) (start sys) hist) hcmd hc
  split_ifs with hinc
  · rw [run_autoinc hprev hinc hrest, hcalls, haddr, addrsFrom_succ, List.map_cons,
      List.append_assoc, List.singleton_append]
  · have hnot : ∀ cmd', some cmd = some cmd' → cmd'.autoinc = false := by
      rintro _ ⟨⟩
      simpa using hinc
    rw [run_idle (fun cmd' h => hnot cmd' (hprev.symm.trans h)) hrest, hcalls]
    simp [addrsFrom]

/-- A platform with Linux, without an L2 cache. -/
def linuxPlf : CmdPlf := ⟨true, true, true, false, false, false, true, false, true, false⟩

/-- A key that is in no table, and Return. -/
def slipAndReturn : List (CmdInput .rv64) :=
  [⟨keyOf 'x' 0, 0#64, 0#64⟩, ⟨keyOf '\r' 0, 0#64, 0#64⟩]

/-- The row of "mem dump". -/
def dumpRow (x : Xlen) : ScblCmd x :=
  ⟨keyOf 'd' (scblCmdArgAddr ||| scblCmdArgAutoinc), some "mem dump", .memDump, 128#_⟩

/-- A dump that is looked at in two parts, with a slip between. -/
theorem commandLoop_repeats_dump :
    calls (run (round linuxPlf (fun _ _ _ _ => ()) fun _ => false) (start ())
        ([] ++ ⟨keyOf 'd' 0, 0x80000000#64, 0#64⟩ :: slipAndReturn)).out =
      calls (run (round (x := .rv64) linuxPlf (fun _ _ _ _ => ()) fun _ => false) (start ())
          []).out ++
        (addrsFrom (firstAddr (dumpRow .rv64) ⟨keyOf 'd' 0, 0x80000000#64, 0#64⟩)
          (dumpRow .rv64).data
          (if (dumpRow .rv64).autoinc then (returns slipAndReturn).length + 1 else 1)).map fun a =>
            ((dumpRow .rv64).func, a) :=
  (commandLoop_repeats linuxPlf (fun _ _ _ _ => ()) (fun _ => false) () [] slipAndReturn
    (by unfold NoKey; decide)).2 (dumpRow .rv64) (by simp [scblCommands, commandRows, dumpRow])
    ⟨keyOf 'd' 0, 0x80000000#64, 0#64⟩ (by decide)

/-! ## Modifying memory -/

/-- `cmd_mem_modify`, which stores the value; the other functions are `other`. -/
def modifying (other : CmdEffect x (x.Word → U8)) : CmdEffect x (x.Word → U8)
  | .memModify, addr, val, mem => writeBytes mem addr val x.hart8
  | func, addr, val, mem => other func addr val mem

/-- The bytes of the values that are typed in. -/
def typedBytes (l : List (CmdInput x)) : List U8 := l.flatMap fun i => bytesOf i.val x.hart8

/-- The row of "mem modify". -/
def modifyRow (x : Xlen) : ScblCmd x :=
  ⟨keyOf 'm' (scblCmdArgAddr ||| scblCmdArgAutoinc), some "mem modify", .memModify,
    BitVec.ofNat _ x.hart8⟩

theorem modifyRow_char : (modifyRow x).char = keyOf 'm' 0 := by
  simp [modifyRow, ScblCmd.char, keyOf, scblCmdArgAddr, scblCmdArgAutoinc]

theorem modifyRow_argAddr : (modifyRow x).argAddr = true := by
  have hflag : keyOf 'm' (scblCmdArgAddr ||| scblCmdArgAutoinc) &&& scblCmdArgAddr ≠ 0#32 := by
    decide
  exact decide_eq_true hflag

theorem modifyRow_autoinc : (modifyRow x).autoinc = true := by
  have hflag : keyOf 'm' (scblCmdArgAddr ||| scblCmdArgAutoinc) &&& scblCmdArgAutoinc ≠ 0#32 := by
    decide
  exact decide_eq_true hflag

theorem modifyRow_mem (plf : CmdPlf) : modifyRow x ∈ scblCommands x plf := by
  simp [scblCommands, commandRows, modifyRow]

/-- A value stored after others. -/
theorem writeBytes_writeList {mem : x.Word → U8} {l : List U8} {val : x.Word}
    (hlen : l.length + x.hart8 ≤ 2 ^ (8 * x.hart8)) :
    writeBytes (writeList mem a l) (a + BitVec.ofNat _ l.length) val x.hart8 =
      writeList mem a (l ++ bytesOf val x.hart8) := by
  rw [writeBytes_eq_writeList, writeList_append (by simpa using hlen)]

theorem run_modify {other : CmdEffect x (x.Word → U8)} {dbg : (x.Word → U8) → Bool}
    {s : CommandLoop x (x.Word → U8)} {mem : x.Word → U8} {l : List U8}
    {rest : List (CmdInput x)} (hprev : s.prevCmd = some (modifyRow x))
    (haddr : s.prevAddr + BitVec.ofNat _ x.hart8 = a + BitVec.ofNat _ l.length)
    (hsys : s.sys = writeList mem a l) (hrest : ∀ j ∈ rest, NoKey plf j)
    (hlen : l.length + x.hart8 * (returns rest).length ≤ 2 ^ (8 * x.hart8)) :
    (run (round plf (modifying other) dbg) s rest).sys =
      writeList mem a (l ++ typedBytes (returns rest)) := by
  induction rest generalizing s l with
  | nil => simpa [run, returns, typedBytes] using hsys
  | cons j rest ih =>
    have hkey := hrest j List.mem_cons_self
    have hrest' := fun i hi => hrest i (List.mem_cons_of_mem _ hi)
    rw [run]
    rcases eq_or_ne j.c (keyOf '\r' 0) with hc | hc
    · rw [returns_cons_return hc] at hlen ⊢
      rw [List.length_cons, Nat.mul_succ] at hlen
      obtain ⟨hcmd, haddr', hsys', -⟩ := round_return (modifying other) dbg hprev
        modifyRow_autoinc hkey hc
      have hstored : (round plf (modifying other) dbg s j).sys =
          writeList mem a (l ++ bytesOf j.val x.hart8) := by
        rw [hsys', ← writeBytes_writeList (by omega), ← haddr, ← hsys]
        rfl
      have hnext : (round plf (modifying other) dbg s j).prevAddr + BitVec.ofNat _ x.hart8 =
          a + BitVec.ofNat _ (l ++ bytesOf j.val x.hart8).length := by
        rw [haddr', List.length_append, length_bytesOf, BitVec.ofNat_add, ← add_assoc, ← haddr]
        rfl
      have hfits : (l ++ bytesOf j.val x.hart8).length + x.hart8 * (returns rest).length ≤
          2 ^ (8 * x.hart8) := by
        rw [List.length_append, length_bytesOf]
        omega
      rw [ih hcmd hnext hstored hrest' hfits, List.append_assoc]
      rfl
    · rw [returns_cons_other hc] at hlen ⊢
      obtain ⟨hcmd, haddr', hsys', -⟩ :=
        round_idle (modifying other) dbg s hkey (.inl hc)
      exact ih (hcmd.trans hprev) (by rw [haddr', haddr]) (hsys'.trans hsys) hrest' hlen

/-- **The values typed in** after "mem modify", one for each Return, are in consecutive words of
memory, from the address on, whatever else is typed in between that is in no table; and nothing
else has changed in memory since before. -/
theorem commandLoop_modify (plf : CmdPlf) (other : CmdEffect x (x.Word → U8))
    (dbg : (x.Word → U8) → Bool) (mem : x.Word → U8) (hist rest : List (CmdInput x))
    (i : CmdInput x) (hc : i.c = keyOf 'm' 0) (hrest : ∀ j ∈ rest, NoKey plf j)
    (hlen : x.hart8 * ((returns rest).length + 1) ≤ 2 ^ (8 * x.hart8)) :
    (run (round plf (modifying other) dbg) (start mem) (hist ++ i :: rest)).sys =
      writeList (run (round plf (modifying other) dbg) (start mem) hist).sys i.addr
        (typedBytes (i :: returns rest)) := by
  obtain ⟨s, hs⟩ : ∃ s, s = run (round plf (modifying other) dbg) (start mem) hist := ⟨_, rfl⟩
  have hchar : i.c = (modifyRow x).char := hc.trans modifyRow_char.symm
  obtain ⟨hcmd, haddr, hsys, -⟩ :=
    round_command (modifying other) dbg s (modifyRow_mem plf) hchar
  rw [run_append, run, ← hs]
  have hfirst : firstAddr (modifyRow x) i = i.addr := if_pos modifyRow_argAddr
  have hstored : (round plf (modifying other) dbg s i).sys =
      writeList s.sys i.addr (bytesOf i.val x.hart8) := by
    rw [hsys, hfirst, ← writeBytes_eq_writeList]
    rfl
  rw [Nat.mul_succ] at hlen
  rw [run_modify hcmd (by rw [haddr, hfirst, length_bytesOf]) hstored hrest
    (by rw [length_bytesOf]; omega)]
  rfl

/-- "mem modify", and a first value. -/
def modifyInput : CmdInput .rv64 := ⟨keyOf 'm' 0, 0x80000000#64, 7#64⟩

/-- Two words, with a slip between. -/
theorem commandLoop_modify_two :
    (run (round linuxPlf (modifying fun _ _ _ mem => mem) fun _ => false) (start fun _ => 0#8)
        ([] ++ modifyInput :: slipAndReturn)).sys =
      writeList (run (round (x := .rv64) linuxPlf (modifying fun _ _ _ mem => mem) fun _ => false)
          (start fun _ => 0#8) []).sys modifyInput.addr
        (typedBytes (modifyInput :: returns slipAndReturn)) :=
  commandLoop_modify linuxPlf (fun _ _ _ mem => mem) (fun _ => false) (fun _ => 0#8) []
    slipAndReturn modifyInput rfl (by unfold NoKey; decide) (by decide)

end CommandLoop

end ScBl
