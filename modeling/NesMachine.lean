import NesMachine.Bus.Recorder
import NesMachine.Main
import NesMachine.Proofs.AddressSpace.Groups
import NesMachine.Proofs.Cpu.Footprint
import NesMachine.Proofs.Cpu.Frames
import NesMachine.Proofs.Cpu.StackRoom
import NesMachine.Proofs.Cpu.Faults
import NesMachine.Proofs.Device.SystemBus
import NesMachine.Proofs.Console.Steps
import NesMachine.Proofs.Console.Interrupts
import NesMachine.Proofs.Console.Transparency
import NesMachine.Proofs.Cartridge.Layout
import NesMachine.Proofs.Console.Loading
import NesMachine.Proofs.Console.PowerOn
import NesMachine.Proofs.Console.Replacing
import NesMachine.Proofs.Console.Idle
import NesMachine.Proofs.Console.Faults
import NesMachine.Proofs.AddressSpace.Owners
import NesMachine.Proofs.Device.VideoSpace
import NesMachine.Proofs.Device.Accesses
import NesMachine.Proofs.Cpu.Traffic
import NesMachine.Proofs.Cpu.Calls
import NesMachine.Proofs.Cpu.Nesting
import NesMachine.Proofs.Cpu.FailStop
import NesMachine.Proofs.Console.Accounting
import NesMachine.Proofs.Console.RunUntilIdle
import NesMachine.Proofs.Console.IdleDetection
import NesMachine.Proofs.Cpu.FailedWrites
import NesMachine.Proofs.Console.LockStep
import NesMachine.Proofs.Cpu.Addressing
import NesMachine.Proofs.Cpu.Flags
import NesMachine.Proofs.Cpu.Numbers
import NesMachine.Proofs.Cpu.Arithmetic
import NesMachine.Proofs.Cpu.Shifts
import NesMachine.Proofs.Cpu.Effects
import NesMachine.Proofs.Cpu.Destinations
import NesMachine.Proofs.Cpu.Cycles
import NesMachine.Proofs.Cpu.BoundedStack
import NesMachine.Proofs.Cpu.StatusByte
import NesMachine.Proofs.Device.Ports
import NesMachine.Proofs.Device.VideoPorts
import NesMachine.Proofs.Console.Tracing
import NesMachine.Proofs.Device.Controllers
import NesMachine.Proofs.Device.SpriteMemory
import NesMachine.Proofs.Cpu.MissingAddress
import NesMachine.Proofs.Console.Restart
import NesMachine.Proofs.Cpu.InertFlags
import NesMachine.Proofs.Query.Numerals
import NesMachine.Proofs.Query.Paths
import NesMachine.Proofs.AddressSpace.Blocks
import NesMachine.Proofs.Console.Undisturbed
import NesMachine.Proofs.Console.Listings
import NesMachine.Proofs.Console.Multiplication
import NesMachine.Proofs.CommandLine.Program
