import RegisterTransfer.Failure
import RegisterTransfer.Platform
import RegisterTransfer.Proofs.Mips.Emission
import RegisterTransfer.Proofs.Evaluation
import RegisterTransfer.Proofs.Mips.Machine
import RegisterTransfer.Proofs.Mips.InstructionSet
import RegisterTransfer.Proofs.Mips.Sources
import RegisterTransfer.Proofs.Mips.DataInstructions
import RegisterTransfer.Proofs.Pattern
import RegisterTransfer.Proofs.Session
import RegisterTransfer.Proofs.ImportStub
import RegisterTransfer.Proofs.Mips.ControlTransfers
import RegisterTransfer.Proofs.Mips.KnownRegisters
import RegisterTransfer.Proofs.Unification
import RegisterTransfer.Proofs.Clusters
import RegisterTransfer.Proofs.Mos6502.DataInstructions
import RegisterTransfer.Proofs.Mos6502.KnownRegisters
import RegisterTransfer.Proofs.Noninterference
import RegisterTransfer.Proofs.Coherence
import RegisterTransfer.Proofs.Mips.ZeroRegister
import RegisterTransfer.Proofs.ClusterForm
import RegisterTransfer.Proofs.Renaming
import RegisterTransfer.Proofs.Resumption
import RegisterTransfer.Proofs.ByteOrder
import RegisterTransfer.Proofs.Extension
import RegisterTransfer.Proofs.TypeLibrary.Indexes
import RegisterTransfer.Proofs.TypeLibrary.Histories
import RegisterTransfer.Proofs.TypeLibrary.Listings
import RegisterTransfer.Proofs.Instances
import RegisterTransfer.Proofs.Mips.VariableShifts
import RegisterTransfer.Proofs.Mos6502.PageZero
import RegisterTransfer.Proofs.Callees
import RegisterTransfer.Proofs.Packed
import RegisterTransfer.Proofs.Shifts
import RegisterTransfer.Proofs.TypeLibrary.LoadOrder
import RegisterTransfer.Proofs.Text.Encoding
import RegisterTransfer.Proofs.Text.Scanning
import RegisterTransfer.Proofs.TypeLibrary.Writing
import RegisterTransfer.Proofs.Encodings
import RegisterTransfer.Proofs.Rendering
import RegisterTransfer.Proofs.TypeLibrary.Faults
import RegisterTransfer.Proofs.Questions
import RegisterTransfer.Proofs.DirectTargets
import RegisterTransfer.Proofs.Widths
import RegisterTransfer.Proofs.Mos6502.RecordedStatus
import RegisterTransfer.Proofs.Delivery
import RegisterTransfer.Proofs.RegisterSets
import RegisterTransfer.Proofs.FrameCalls
import RegisterTransfer.Proofs.TypeLibrary.Conventions
import RegisterTransfer.Proofs.Offsets
