import Chip8.Main
import Chip8.Console.Disk.Furniture
import Chip8.Proofs.Bounds
import Chip8.Proofs.Contents
import Chip8.Proofs.Domains
import Chip8.Proofs.Encoding
import Chip8.Proofs.FaultCases
import Chip8.Proofs.Flags
import Chip8.Proofs.Frame
import Chip8.Proofs.Glyphs
import Chip8.Proofs.KeyOrder
import Chip8.Proofs.Listing
import Chip8.Proofs.ListingTarget
import Chip8.Proofs.Lockstep
import Chip8.Proofs.Mnemonics
import Chip8.Proofs.Nesting
import Chip8.Proofs.Numerals
import Chip8.Proofs.Picture
import Chip8.Proofs.Recovery
import Chip8.Proofs.Redraw
import Chip8.Proofs.Refresh
import Chip8.Proofs.Schedules
import Chip8.Proofs.Shutdown
import Chip8.Proofs.Timers
import Chip8.Proofs.Tone
import Chip8.Proofs.Transfers
import Chip8.Proofs.TypedInput
import Chip8.Proofs.Wakeup
