import StackCert.Bytes
import StackCert.Certifier
import StackCert.Codec
import StackCert.Context
import StackCert.Document
import StackCert.Document.Json
import StackCert.Effect
import StackCert.Evaluation
import StackCert.Executor
import StackCert.Expression
import StackCert.Failure
import StackCert.Host
import StackCert.Host.Plain
import StackCert.Host.Scripted
import StackCert.Instruction
import StackCert.Journal
import StackCert.Keccak
import StackCert.Layout
import StackCert.Ledger
import StackCert.Machine
import StackCert.Machine.Run
import StackCert.Main
import StackCert.Meter
import StackCert.Operation
import StackCert.Program
import StackCert.Proofs.Advance
import StackCert.Proofs.Balance
import StackCert.Proofs.Exchange
import StackCert.Proofs.Fields
import StackCert.Proofs.HostContract
import StackCert.Proofs.Metering
import StackCert.Proofs.Outline
import StackCert.Proofs.Reduction
import StackCert.Reducer
import StackCert.Replay
import StackCert.Selection
import StackCert.Stack
import StackCert.Store
import StackCert.Text
import StackCert.Text.Quoted
import StackCert.Text.Visible
import StackCert.Word
import StackCert.Proofs.Opening
import StackCert.Proofs.Soundness
import StackCert.Proofs.Completeness
import StackCert.Proofs.BinaryForm
import StackCert.Proofs.Redeployment
import StackCert.Proofs.CanonicalForm
import StackCert.Proofs.Inquiry
import StackCert.Proofs.Itinerary
import StackCert.Proofs.Disguise
import StackCert.Proofs.Abreast
import StackCert.Proofs.Native
import StackCert.Proofs.StepLimit
import StackCert.Proofs.Halting
import StackCert.Proofs.Turn
import StackCert.Proofs.FrameOrder
import StackCert.Proofs.Elevation
import StackCert.Proofs.Seclusion
import StackCert.Proofs.Confinement
import StackCert.Proofs.Interleaving
import StackCert.Proofs.CertifiedCells
import StackCert.Proofs.Crest
import StackCert.Proofs.Fault
import StackCert.Proofs.Straying
import StackCert.Proofs.Verdict
import StackCert.Proofs.Recertification
import StackCert.Proofs.Extension
import StackCert.Proofs.Erasure
import StackCert.Proofs.Consultation
import StackCert.Proofs.Chronicle
import StackCert.Proofs.Sparseness
import StackCert.Proofs.Promises
import StackCert.Proofs.DeclaredEffect
import StackCert.Proofs.Atomicity
import StackCert.Proofs.Absorption
import StackCert.Proofs.Arithmetic
import StackCert.Proofs.Saturation
import StackCert.Proofs.Reports
import StackCert.Proofs.LastWrite
import StackCert.Proofs.ByHand
import StackCert.Proofs.StraightLine
import StackCert.Proofs.ClaimReport
import StackCert.Proofs.Delimiting
import StackCert.Proofs.Readers
import StackCert.Proofs.Leniency
import StackCert.Proofs.Loading
