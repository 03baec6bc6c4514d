import KernelOffsets.ControlFlow.Cover
import KernelOffsets.Image.Capture
import KernelOffsets.Image.Mapping
import KernelOffsets.StoreManager
import KernelOffsets.Symbols.Load
import KernelOffsets.Proofs.Lineage
import KernelOffsets.Proofs.LineageSound
import KernelOffsets.Proofs.Tracking
import KernelOffsets.Proofs.Verdict
import KernelOffsets.Proofs.ExactOffset
import KernelOffsets.Proofs.StraightLine
import KernelOffsets.Proofs.SentinelIndependence
import KernelOffsets.Proofs.BelowBase
import KernelOffsets.Proofs.Decoded
import KernelOffsets.Proofs.Places
import KernelOffsets.Proofs.BaseTransfer
import KernelOffsets.Proofs.ShortestPath
import KernelOffsets.Proofs.Divergences
import KernelOffsets.Proofs.UnreachedBytes
import KernelOffsets.Proofs.FlatMemory
import KernelOffsets.Proofs.WellFormed
import KernelOffsets.Proofs.GhostMarks
import KernelOffsets.Proofs.PrefixLookup
import KernelOffsets.Proofs.FunctionExtents
import KernelOffsets.Proofs.FileMapping
import KernelOffsets.Proofs.LoadedImages
import KernelOffsets.Proofs.SymbolListing
import KernelOffsets.Proofs.ScanWindow
import KernelOffsets.Proofs.Forgetting
import KernelOffsets.Proofs.MovedFlow
import KernelOffsets.Proofs.Architecture
import KernelOffsets.Proofs.WrittenRegisters
import KernelOffsets.Proofs.Addresses
import KernelOffsets.Proofs.SavedRegisters
import KernelOffsets.Proofs.RegisterNames
import KernelOffsets.Proofs.RunPrefixes
import KernelOffsets.Proofs.Untouched
import KernelOffsets.Proofs.OverlappingFunctions
import KernelOffsets.Proofs.SupportedMachines
import KernelOffsets.Proofs.MapGrammar
import KernelOffsets.Proofs.BasicBlocks
