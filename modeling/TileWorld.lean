import TileWorld.Main
import TileWorld.World.History
import TileWorld.Proofs.GridLinks
import TileWorld.Proofs.GridCells
import TileWorld.Proofs.Bookkeeping
import TileWorld.Proofs.Coherence
import TileWorld.Proofs.Reachability
import TileWorld.Proofs.LeafWalk
import TileWorld.Proofs.SpectatorQueries
import TileWorld.Proofs.Consistency
import TileWorld.Proofs.PoolLaws
import TileWorld.Proofs.Trails
import TileWorld.Proofs.Pruning
import TileWorld.Proofs.SearchTree
import TileWorld.Proofs.SearchInvariant
import TileWorld.Proofs.TargetBand
import TileWorld.Proofs.RouteSoundness
import TileWorld.Proofs.RouteOptimality
import TileWorld.Proofs.CellStore
import TileWorld.Proofs.EventReplay
import TileWorld.Proofs.SearchBounds
import TileWorld.Proofs.SearchCompleteness
import TileWorld.Proofs.GridHistory
import TileWorld.Proofs.GridShape
import TileWorld.Proofs.MoveReports
import TileWorld.Proofs.SightPaths
import TileWorld.Proofs.CellRemoval
import TileWorld.Proofs.Refusals
import TileWorld.Proofs.Numbering
import TileWorld.Proofs.SpectatorRanges
import TileWorld.Proofs.MutualSpectators
import TileWorld.Proofs.StackIndices
import TileWorld.Proofs.MoveCommutation
import TileWorld.Proofs.SearchLimits
import TileWorld.Proofs.LineGeometry
import TileWorld.Proofs.SightRegion
import TileWorld.Proofs.FloorSight
import TileWorld.Proofs.SearchLocality
import TileWorld.Proofs.BestCandidate
import TileWorld.Proofs.SightPenalties
import TileWorld.Proofs.LineReversal
import TileWorld.Proofs.LayoutGrammar
import TileWorld.Proofs.LayoutWorld
import TileWorld.Proofs.EntryCharges
import TileWorld.Proofs.CostOverflow
import TileWorld.Proofs.ClosedNodes
import TileWorld.Proofs.ParentChains
import TileWorld.Proofs.LineSteps
