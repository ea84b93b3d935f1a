import GraphFold.Census
import GraphFold.Main
import GraphFold.OrderedMap.Lemmas
import GraphFold.Session
import GraphFold.State.Lemmas
import GraphFold.Walk.Recursive
import GraphFold.Proofs.Walk.WhitePath
import GraphFold.Proofs.Schema.RecursiveFields
import GraphFold.Proofs.Schema.ReachableTypes
import GraphFold.Proofs.Walk.Threading
import GraphFold.Proofs.Walk.Bounds
import GraphFold.Proofs.Walk.Confinement
import GraphFold.Proofs.Walk.Path
import GraphFold.Proofs.Walk.DepthLimit
import GraphFold.Proofs.Walk.Events
import GraphFold.Proofs.Walk.SimplePaths
import GraphFold.Proofs.Walk.FoldOrder
import GraphFold.Proofs.Graph.Edges
import GraphFold.Proofs.Graph.Walks
import GraphFold.Proofs.Registry.History
import GraphFold.Proofs.Tree.Preorder
import GraphFold.Proofs.Tree.Walks
import GraphFold.Proofs.SyntaxTree.Counters
import GraphFold.Proofs.Walk.Guards
import GraphFold.Proofs.Walk.Checks
import GraphFold.Proofs.Scene.Capabilities
import GraphFold.Proofs.Census.Command
import GraphFold.Proofs.Walk.Listeners
import GraphFold.Proofs.State.Updates
import GraphFold.Proofs.Registry.Listing
import GraphFold.Proofs.Graph.Layouts
import GraphFold.Proofs.Scene.Identity
import GraphFold.Proofs.Schema.Definitions
