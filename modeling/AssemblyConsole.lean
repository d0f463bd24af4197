import AssemblyConsole.Assembler.File
import AssemblyConsole.Console
import AssemblyConsole.Engine.Transcript
import AssemblyConsole.Main
import AssemblyConsole.Proofs.Contract
import AssemblyConsole.Proofs.SessionSound
import AssemblyConsole.Proofs.BlockShape
import AssemblyConsole.Proofs.BlockExtent
import AssemblyConsole.Proofs.Traversal
import AssemblyConsole.Proofs.TraversalEnds
import AssemblyConsole.Proofs.TraversalInvariant
import AssemblyConsole.Proofs.Reachability
import AssemblyConsole.Proofs.SingleEntry
import AssemblyConsole.Proofs.Leaders
import AssemblyConsole.Proofs.WellFormedBlocks
import AssemblyConsole.Proofs.BlockPartition
import AssemblyConsole.Proofs.Agreement
import AssemblyConsole.Proofs.HistoryIndependence
import AssemblyConsole.Proofs.FieldLayout
import AssemblyConsole.Proofs.LastWriter
import AssemblyConsole.Proofs.FieldEngine
import AssemblyConsole.Proofs.FieldSearch
import AssemblyConsole.Proofs.FieldPlacement
import AssemblyConsole.Proofs.RelocationOrder
import AssemblyConsole.Proofs.PlaceholderCode
import AssemblyConsole.Proofs.FieldBounds
import AssemblyConsole.Proofs.Runs
import AssemblyConsole.Proofs.PayloadForm
import AssemblyConsole.Proofs.AskedSymbols
import AssemblyConsole.Proofs.LabelScope
import AssemblyConsole.Proofs.CrossReferences
import AssemblyConsole.Proofs.Listings
import AssemblyConsole.Proofs.FailureCauses
import AssemblyConsole.Proofs.OrdinaryParts
import AssemblyConsole.Proofs.RepeatedFilling
import AssemblyConsole.Proofs.ShellRuns
import AssemblyConsole.Proofs.PartsInOrder
import AssemblyConsole.Proofs.LocatedErrors
import AssemblyConsole.Proofs.BlockEntries
import AssemblyConsole.Proofs.BlockTargets
import AssemblyConsole.Proofs.CapturedStream
import AssemblyConsole.Proofs.InstanceHistory
import AssemblyConsole.Proofs.BlockExits
import AssemblyConsole.Proofs.SharedFields
import AssemblyConsole.Proofs.DependentBytes
import AssemblyConsole.Proofs.InstanceOpenings
import AssemblyConsole.Proofs.BlockCuts
import AssemblyConsole.Proofs.StatementGroups
import AssemblyConsole.Proofs.RegisterWords
import AssemblyConsole.Proofs.ConstantMarks
import AssemblyConsole.Proofs.FramePointer
import AssemblyConsole.Proofs.PrintedTargets
import AssemblyConsole.Proofs.OffsetOrder
import AssemblyConsole.Proofs.PassedWarnings
import AssemblyConsole.Proofs.SectionLines
import AssemblyConsole.Proofs.MaximalRuns
import AssemblyConsole.Proofs.PipeReadings
