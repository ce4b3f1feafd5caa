/-
This module holds the architectures that code is emitted for: five machines, and the generic
interpreter loop, which is emitted as code of the host language.
-/
import MacroAssembler.Failure

namespace MacroAssembler

/-- A target of emission. -/
inductive Architecture
  | arm64
  | arm64e
  | x86
  | riscv
  | armv7
  | loop
deriving DecidableEq, Repr, Inhabited

namespace Architecture

def name : Architecture → String
  | .arm64 => "ARM64"
  | .arm64e => "ARM64E"
  | .x86 => "X86_64"
  | .riscv => "RISCV64"
  | .armv7 => "ARMv7"
  | .loop => "C_LOOP"

/-- All architectures, in the order in which they are listed to users. -/
def all : List Architecture := [.arm64, .arm64e, .x86, .riscv, .armv7, .loop]

def ofName? (name : String) : Option Architecture :=
  all.find? fun architecture => decide (architecture.name = name)

/-- Whether emission gives code of the host language rather than assembly. -/
def emitsHostCode (architecture : Architecture) : Bool := architecture = .loop

/-- The capital of a character as far as the names of architectures need it. Besides the letters
of ASCII two others have an ASCII capital. -/
def capital (c : Char) : Char :=
  if c = 'ı' then 'I' else if c = 'ſ' then 'S' else c.toUpper

/-- A backend name with its variations in spelling removed. -/
def canonicalSpelling (name : String) : String :=
  let spelled := String.ofList <|
    (Text.strip name).toList.map fun c => if c = '-' then '_' else capital c
  if spelled = "CLOOP" ∨ spelled = "CPP" then "C_LOOP" else spelled

def ofBackendName (name : String) : Checked Architecture :=
  let spelled := canonicalSpelling name
  match all.find? fun architecture => decide (canonicalSpelling architecture.name = spelled) with
  | some architecture => .ok architecture
  | none => report (.unknownBackend name (all.map Architecture.name))

end Architecture

end MacroAssembler
