import MacroAssembler.Document.Writer
import MacroAssembler.Main
import MacroAssembler.Proofs.LayoutConstants
import MacroAssembler.Proofs.LocationIndependence
import MacroAssembler.Proofs.DeadBranches
import MacroAssembler.Proofs.EntryPoints
import MacroAssembler.Proofs.ForwardReferences
import MacroAssembler.Proofs.HostOperands
import MacroAssembler.Proofs.ConstructionValidity
import MacroAssembler.Proofs.AddedPrelude
import MacroAssembler.Proofs.LocalSymbols
import MacroAssembler.Proofs.LiveStatements
import MacroAssembler.Proofs.RequiredSettings
import MacroAssembler.Proofs.StackDiscipline
import MacroAssembler.Proofs.ComparedBranches
import MacroAssembler.Proofs.DepthLimit
import MacroAssembler.Proofs.EncodableLines
import MacroAssembler.Proofs.FieldOffsets
import MacroAssembler.Proofs.GroupedStatements
import MacroAssembler.Proofs.Reloading
