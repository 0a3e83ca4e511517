/-
  The command line.  An option is written `--name value` or `--name=value`; all but the
  breakpoints may be given once.

  Main definitions:
  - `Options` : what a run is asked to do
  - `Request`, `Request.parse` : what a command line asks for
  - `UsageError` : command lines that are refused
-/
import Ia32.Text.Number

namespace Ia32.Command

structure Options where
  bios : String
  videoBios : Option String := none
  memoryMib : Nat := 16
  budget : Option Nat := none
  deliverFaults : Bool := false
  breakpoints : List UInt32 := []
  consoleOut : String := "stdout"
  deriving DecidableEq, Repr

/-- The options that take a value. -/
inductive OptionName
  | bios | videoBios | memoryMib | budget | breakpoint | consoleOut
  deriving DecidableEq, Repr

def OptionName.all : List OptionName :=
  [bios, videoBios, memoryMib, budget, breakpoint, consoleOut]

def OptionName.text : OptionName → String
  | bios => "--bios"
  | videoBios => "--vga-bios"
  | memoryMib => "--memory-mib"
  | budget => "--max-insts"
  | breakpoint => "--break"
  | consoleOut => "--debugcon-out"

inductive UsageError
  | unexpected (argument : String)
  | missingValue (o : OptionName)
  | invalidValue (o : OptionName) (value : String)
  | repeated (option : String)
  | missingBios
  deriving DecidableEq, Repr

def UsageError.message : UsageError → String
  | unexpected a => "error: unexpected argument '" ++ a ++ "' found"
  | missingValue o => "error: a value is required for '" ++ o.text ++ "' but none was supplied"
  | invalidValue o v => "error: invalid value '" ++ v ++ "' for '" ++ o.text ++ "'"
  | repeated o => "error: the argument '" ++ o ++ "' cannot be used multiple times"
  | missingBios => "error: the required argument '--bios' was not provided"

/-- An address, in hexadecimal after `0x` or `0X`, otherwise in decimal. -/
def address? (s : String) : Option UInt32 :=
  let n := match s.toList with
    | '0' :: 'x' :: cs | '0' :: 'X' :: cs => Text.number? 16 UInt32.size (String.ofList cs)
    | _ => Text.number? 10 UInt32.size s
  n.map UInt32.ofNat

/-- What has been read of a command line. -/
structure Draft where
  bios : Option String := none
  videoBios : Option String := none
  memoryMib : Option Nat := none
  budget : Option Nat := none
  deliverFaults : Bool := false
  breakpoints : List UInt32 := []
  consoleOut : Option String := none

namespace Draft

/-- The value of an option that may be given once. -/
def once {α : Type} (o : OptionName) (old new : Option α) (v : String) :
    Except UsageError (Option α) :=
  if old.isSome then .error (.repeated o.text)
  else if new.isNone then .error (.invalidValue o v)
  else .ok new

/-- A file name, which must not be empty. -/
def fileName? (v : String) : Option String := if v.isEmpty then none else some v

/-- Take in an option with its value. -/
def set (d : Draft) (o : OptionName) (v : String) : Except UsageError Draft :=
  match o with
  | .bios => return { d with bios := ← once o d.bios (fileName? v) v }
  | .videoBios => return { d with videoBios := ← once o d.videoBios (fileName? v) v }
  | .memoryMib =>
    return { d with memoryMib := ← once o d.memoryMib (Text.number? 10 UInt64.size v) v }
  | .budget => return { d with budget := ← once o d.budget (Text.number? 10 UInt64.size v) v }
  | .breakpoint =>
    match address? v with
    | some a => .ok { d with breakpoints := d.breakpoints ++ [a] }
    | none => .error (.invalidValue o v)
  | .consoleOut => return { d with consoleOut := ← once o d.consoleOut (some v) v }

/-- The options of a finished draft. -/
def finish (d : Draft) : Except UsageError Options :=
  match d.bios with
  | none => .error .missingBios
  | some b => .ok {
    bios := b
    videoBios := d.videoBios
    memoryMib := d.memoryMib.getD 16
    budget := d.budget
    deliverFaults := d.deliverFaults
    breakpoints := d.breakpoints
    consoleOut := d.consoleOut.getD "stdout" }

end Draft

/-- The meaning of one argument. -/
inductive Argument
  | help
  | endOfOptions
  | deliverFaults
  | valued (o : OptionName) (value : Option String)
  | other (text : String)
  deriving DecidableEq, Repr

def Argument.ofText (s : String) : Argument :=
  if s = "--help" || s.startsWith "-h" then help
  else if s = "--" then endOfOptions
  else if s = "--deliver-faults" then deliverFaults
  else
    let (name, rest) := s.toList.span (· ≠ '=')
    match OptionName.all.find? (·.text = String.ofList name) with
    | some o => valued o (match rest with
      | [] => none
      | _ :: v => some (String.ofList v))
    | none => other s

/-- A text that can be the value of the option before it. -/
def isValue (s : String) : Bool := s = "-" || !s.startsWith "-"

/-- What a command line asks for. -/
inductive Request
  | help
  | run (o : Options)
  deriving DecidableEq, Repr

namespace Request

/-- Read the rest of a command line. -/
def parseFrom (d : Draft) : List String → Except UsageError Request
  | [] => run <$> d.finish
  | a :: rest =>
    match Argument.ofText a with
    | .help => .ok help
    | .endOfOptions =>
      match rest with
      | [] => run <$> d.finish
      | b :: _ => .error (.unexpected b)
    | .deliverFaults =>
      if d.deliverFaults then .error (.repeated a)
      else parseFrom { d with deliverFaults := true } rest
    | .valued o (some v) => do parseFrom (← d.set o v) rest
    | .valued o none =>
      match rest with
      | [] => .error (.missingValue o)
      | v :: rest =>
        if isValue v then do parseFrom (← d.set o v) rest
        else .error (.missingValue o)
    | .other s => .error (.unexpected s)

def parse (args : List String) : Except UsageError Request := parseFrom {} args

end Request

end Ia32.Command
