/-
This module holds the register tables of the architectures.

A table says how an architecture spells the logical registers it has; several logical registers may
share a physical one. Every machine keeps one or two physical registers out of its table as scratch
space for emission.
-/
import MacroAssembler.Architecture

namespace MacroAssembler

abbrev RegisterTable := List (String × String)

namespace RegisterTable

/-- The name of a register that a file and a number make up. -/
def numbered (file : String) (number : Nat) : String := file ++ Text.decimal number

/-- Consecutive registers of a file, spelled as consecutive registers of another. -/
def run (logical : String) (first count : Nat) (physical : String) (start : Nat) :
    RegisterTable :=
  (List.range count).map fun step =>
    (numbered logical (first + step), numbered physical (start + step))

/-- The registers of 64-bit ARM. Registers `x16` and `x17` are left for emission. -/
def arm64 : RegisterTable :=
  run "t" 0 13 "x" 0 ++
  [("cfr", "x29")] ++
  run "csr" 0 10 "x" 19 ++
  [("sp", "sp"), ("lr", "lr"), ("ws0", "x9"), ("ws1", "x10"), ("ws2", "x11"), ("ws3", "x12")] ++
  run "a" 0 8 "x" 0 ++
  run "wa" 0 8 "x" 0 ++
  [("r0", "x0"), ("r1", "x1")] ++
  run "ft" 0 8 "d" 0 ++
  run "fa" 0 8 "d" 0 ++
  run "csfr" 0 8 "d" 8 ++
  run "v" 0 8 "v" 16

/-- The registers of 64-bit x86. Register `%r11` is left for emission. -/
def x86 : RegisterTable :=
  [("t0", "%rax"), ("t1", "%rsi"), ("t2", "%rdx"), ("t3", "%rcx"), ("t4", "%r8"),
   ("t5", "%r10"), ("t6", "%rdi"), ("t7", "%r9"), ("cfr", "%rbp"), ("csr0", "%rbx"),
   ("csr1", "%r12"), ("csr2", "%r13"), ("csr3", "%r14"), ("csr4", "%r15"), ("sp", "%rsp"),
   ("ws0", "%r10"), ("ws1", "%r9"), ("a0", "%rdi"), ("a1", "%rsi"), ("a2", "%rdx"),
   ("a3", "%rcx"), ("a4", "%r8"), ("a5", "%r9"), ("wa0", "%rdi"), ("wa1", "%rsi"),
   ("wa2", "%rdx"), ("wa3", "%rcx"), ("wa4", "%r8"), ("wa5", "%r9"), ("r0", "%rax"),
   ("r1", "%rdx")] ++
  run "ft" 0 8 "%xmm" 0 ++
  run "fa" 0 8 "%xmm" 0 ++
  run "v" 0 8 "%xmm" 8

/-- The registers of 64-bit RISC-V. Registers `x30` and `x31` are left for emission. -/
def riscv : RegisterTable :=
  run "t" 0 8 "x" 10 ++
  [("t8", "x5"), ("cfr", "x8"), ("csr0", "x9")] ++
  run "csr" 1 10 "x" 18 ++
  [("sp", "sp"), ("lr", "ra"), ("ws0", "x6"), ("ws1", "x7"), ("ws2", "x28"), ("ws3", "x29")] ++
  run "a" 0 8 "x" 10 ++
  run "wa" 0 8 "x" 10 ++
  [("r0", "x10"), ("r1", "x11")] ++
  run "ft" 0 8 "f" 0 ++
  run "fa" 0 8 "f" 10 ++
  run "csfr" 0 8 "f" 18

/-- The registers of 32-bit ARM. Register `r4` is left for emission. -/
def armv7 : RegisterTable :=
  run "t" 0 4 "r" 0 ++
  [("t4", "r8"), ("t5", "r9"), ("t6", "r10"), ("t7", "r12"), ("cfr", "r7"), ("csr0", "r11"),
   ("csr1", "r6"), ("sp", "sp"), ("lr", "lr")] ++
  run "a" 0 4 "r" 0 ++
  run "wa" 0 4 "r" 0 ++
  [("r0", "r0"), ("r1", "r1")] ++
  run "ft" 0 8 "d" 0 ++
  run "fa" 0 4 "d" 0 ++
  run "csfr" 0 8 "d" 8

/-- The registers of an architecture. The interpreter loop keeps logical names. -/
def ofArchitecture : Architecture → RegisterTable
  | .arm64 | .arm64e => arm64
  | .x86 => x86
  | .riscv => riscv
  | .armv7 => armv7
  | .loop => []

def named (name : String) : Checked RegisterTable :=
  match Architecture.ofName? name with
  | some architecture => .ok (ofArchitecture architecture)
  | none => refuse (.unknownKey (Text.quoted name))

end RegisterTable

end MacroAssembler
