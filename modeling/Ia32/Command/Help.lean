/-
  The text that explains the command line.
-/

namespace Ia32.Command

/-- The options with what they mean. -/
def optionMeanings : List (String × String) := [
  ("      --bios <BIOS>", "System BIOS image, placed so that it ends at 0xFFFFF"),
  ("      --vga-bios <VGA_BIOS>", "Optional video BIOS option ROM, placed at 0xC0000"),
  ("      --memory-mib <MEMORY_MIB>", "Guest RAM size in MiB [default: 16]"),
  ("      --max-insts <MAX_INSTS>",
   "Stop after at most N cycles. " ++
   "Without it the run lasts until the guest halts or faults"),
  ("      --deliver-faults",
   "Deliver CPU faults to the guest's interrupt handlers instead of stopping"),
  ("      --break <BREAKPOINTS>",
   "Stop before executing the instruction at this linear address " ++
   "(hex with `0x`, or decimal). May be repeated"),
  ("      --debugcon-out <DEBUGCON_OUT>",
   "Where to write DebugCon output (I/O port `0xE9`): " ++
   "`stdout`, `none`, or a file path [default: stdout]"),
  ("  -h, --help", "Print help")]

/-- Two columns, the left one as wide as its longest entry. -/
def columns (rows : List (String × String)) : List String :=
  let width := rows.foldl (fun n r => max n r.1.length) 0
  rows.map fun r => r.1.pushn ' ' (width - r.1.length + 2) ++ r.2

def helpText : String :=
  "\n".intercalate (
    ["Boot a BIOS image on the x86pc machine model", "",
     "Usage: x86pc [OPTIONS] --bios <BIOS>", "", "Options:"] ++ columns optionMeanings ++ [""])

end Ia32.Command
