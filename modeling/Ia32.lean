import Ia32.Command.Directory
import Ia32.Command.Session
import Ia32.Device.Bench
import Ia32.Machine.Slices
import Ia32.Main
import Ia32.Proofs.RoundTrip
import Ia32.Proofs.SegmentCache
import Ia32.Proofs.Slices
import Ia32.Proofs.VectorRoundTrip
import Ia32.Proofs.Blindness
import Ia32.Proofs.BaseLaw
import Ia32.Proofs.ByteMap
import Ia32.Proofs.Completion
import Ia32.Proofs.Fetch
import Ia32.Proofs.Selectors
import Ia32.Proofs.NarrowExecution
import Ia32.Proofs.UpperHalves
import Ia32.Proofs.Halt
import Ia32.Proofs.RealMode
import Ia32.Proofs.Requests
import Ia32.Proofs.Starvation
import Ia32.Proofs.Course
import Ia32.Proofs.StringMoves
import Ia32.Proofs.StringSearch
import Ia32.Proofs.StringPorts
import Ia32.Proofs.Comparisons
import Ia32.Proofs.Decimals
import Ia32.Proofs.Rotates
import Ia32.Proofs.Accumulator
import Ia32.Proofs.Calls
import Ia32.Proofs.ProcedureFrame
import Ia32.Proofs.SavedRegisters
import Ia32.Proofs.BitStrings
import Ia32.Proofs.TableEntries
import Ia32.Proofs.PortOwnership
import Ia32.Proofs.Locality
import Ia32.Proofs.RegisterBytes
import Ia32.Proofs.FlagDiscipline
