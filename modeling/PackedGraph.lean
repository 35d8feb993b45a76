import PackedGraph.Block.Error
import PackedGraph.Block.Gap
import PackedGraph.Block.Pages
import PackedGraph.Block.TargetBlock
import PackedGraph.Block.TargetCursor
import PackedGraph.Block.ValueBlock
import PackedGraph.Block.VarInt
import PackedGraph.Block.Visit
import PackedGraph.Build.Aggregation
import PackedGraph.Build.Builder
import PackedGraph.Build.Compress
import PackedGraph.Build.Error
import PackedGraph.Centrality.Closeness
import PackedGraph.Centrality.SharedVisit
import PackedGraph.Clustering.Centroids
import PackedGraph.Clustering.KMeans
import PackedGraph.Clustering.Slices
import PackedGraph.Community.Conductance
import PackedGraph.Community.LabelProgram
import PackedGraph.Community.LabelPropagation
import PackedGraph.Community.VoteTally
import PackedGraph.Fault
import PackedGraph.Iteration.Engine
import PackedGraph.Iteration.Failure
import PackedGraph.Iteration.Input
import PackedGraph.Iteration.Partition
import PackedGraph.Iteration.Scalar
import PackedGraph.Iteration.Script
import PackedGraph.Iteration.StopRule
import PackedGraph.Memory.Ledger
import PackedGraph.Node.Column
import PackedGraph.Node.IdMap
import PackedGraph.Node.Label
import PackedGraph.Random.Generator
import PackedGraph.Random.Sample
import PackedGraph.Relation.Topology
import PackedGraph.Session.Basic
import PackedGraph.Store.Basic
import PackedGraph.Store.Holding
import PackedGraph.Store.Memory
import PackedGraph.Text.Blank
import PackedGraph.Text.Decimal
import PackedGraph.Text.Extending
import PackedGraph.Text.Ignorable
import PackedGraph.Text.Quoted
import PackedGraph.Text.Unprintable
import PackedGraph.View.Assembly
import PackedGraph.View.Basic
import PackedGraph.View.Cursors
import PackedGraph.View.Enumeration
import PackedGraph.View.Error
import PackedGraph.View.Filtering
import PackedGraph.View.Query
import PackedGraph.View.Triangle
import PackedGraph.Proofs.Block.Codec
import PackedGraph.Proofs.Block.Grammar
import PackedGraph.Proofs.Block.Placement
import PackedGraph.Proofs.Block.Segments
import PackedGraph.Proofs.Block.TargetLists
import PackedGraph.Proofs.Block.CursorRefinement
import PackedGraph.Proofs.View.Reading
import PackedGraph.Proofs.Block.Decoding
import PackedGraph.Proofs.Block.FloatBits
import PackedGraph.Proofs.Block.ValueLists
import PackedGraph.Proofs.Relation.Stored
import PackedGraph.Proofs.Build.Calls
import PackedGraph.Proofs.Build.Columns
import PackedGraph.Proofs.Build.Duality
import PackedGraph.Proofs.Build.Compression
import PackedGraph.Proofs.Store.Opening
import PackedGraph.Proofs.Store.BuildAndRead
import PackedGraph.Proofs.View.Triangles
import PackedGraph.Proofs.Store.TriangleSearch
import PackedGraph.Proofs.Centrality.Distance
import PackedGraph.Proofs.Centrality.Masks
import PackedGraph.Proofs.Centrality.Levels
import PackedGraph.Proofs.Centrality.Visit
import PackedGraph.Proofs.Centrality.Additions
import PackedGraph.Proofs.Centrality.Totals
import PackedGraph.Proofs.Centrality.Closeness
import PackedGraph.Proofs.Centrality.Reuse
import PackedGraph.Proofs.Clustering.Slices
import PackedGraph.Proofs.Clustering.Assignment
import PackedGraph.Proofs.Clustering.Centroids
import PackedGraph.Proofs.Clustering.Runs
import PackedGraph.Proofs.Clustering.KMeans
import PackedGraph.Proofs.Community.Countable
import PackedGraph.Proofs.Community.Interleaving
import PackedGraph.Proofs.Community.Propagation
import PackedGraph.Proofs.Community.Provenance
import PackedGraph.Proofs.Community.Stability
import PackedGraph.Proofs.Random.Sample
import PackedGraph.Proofs.View.Contract
import PackedGraph.Proofs.View.Selection
import PackedGraph.Proofs.Store.Views
import PackedGraph.Proofs.Store.Duality
import PackedGraph.Proofs.View.InducedSubgraph
import PackedGraph.Proofs.Memory.Ledger
import PackedGraph.Proofs.Store.Memory
import PackedGraph.Proofs.View.NodeData
import PackedGraph.Proofs.View.Overdraft
import PackedGraph.Proofs.View.Released
import PackedGraph.Proofs.Store.Holding
import PackedGraph.Proofs.Session.Calls
import PackedGraph.Proofs.Session.Balance
import PackedGraph.Proofs.Session.Steps
import PackedGraph.Proofs.Session.Tracking
import PackedGraph.Proofs.Session.Protocol
import PackedGraph.Proofs.Session.Agreement
import PackedGraph.Proofs.Session.Releases
import PackedGraph.Proofs.Build.Rejection
import PackedGraph.Proofs.Iteration.Course
import PackedGraph.Proofs.Iteration.Orders
import PackedGraph.Proofs.Community.Sweep
import PackedGraph.Proofs.Community.Tally
import PackedGraph.Proofs.Community.Majority
import PackedGraph.Proofs.Community.Iterations
import PackedGraph.Proofs.View.History
import PackedGraph.Proofs.View.HandMade
import PackedGraph.Proofs.View.Scans
import PackedGraph.Proofs.Iteration.Weights
import PackedGraph.Proofs.Iteration.EqualRanges
import PackedGraph.Proofs.View.Commutation
import PackedGraph.Proofs.Iteration.Racing
import PackedGraph.Proofs.Node.Members
import PackedGraph.Proofs.Block.Sizes
import PackedGraph.Proofs.Store.Accounting
import PackedGraph.Proofs.Build.Consistency
import PackedGraph.Proofs.Build.Registration
import PackedGraph.Proofs.Build.ReadBack
import PackedGraph.Proofs.Clustering.Fractions
import PackedGraph.Proofs.Clustering.Nearest
import PackedGraph.Proofs.Clustering.FixedPoints
import PackedGraph.Proofs.Arithmetic.ExactSums
import PackedGraph.Proofs.Arithmetic.Ordering
import PackedGraph.Proofs.Arithmetic.Rounding
import PackedGraph.Proofs.Arithmetic.WholeNumbers
import PackedGraph.Proofs.Build.Merging
import PackedGraph.Proofs.Clustering.Concurrency
import PackedGraph.Proofs.Clustering.LeastSquares
import PackedGraph.Proofs.Clustering.Descent
import PackedGraph.Proofs.Community.Conductance
import PackedGraph.Proofs.Community.WeightMaps
import PackedGraph.Proofs.Store.Merging
import PackedGraph.Proofs.View.Labels
