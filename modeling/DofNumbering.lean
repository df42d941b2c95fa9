import DofNumbering.Basis
import DofNumbering.Basis.Adapted
import DofNumbering.Basis.Composite
import DofNumbering.Basis.Construction
import DofNumbering.Basis.Lagrange
import DofNumbering.Basis.Power
import DofNumbering.Basis.TaylorHood
import DofNumbering.Cell
import DofNumbering.Change
import DofNumbering.Coverage
import DofNumbering.Description
import DofNumbering.Description.Serial
import DofNumbering.Descriptor
import DofNumbering.Descriptor.Serial
import DofNumbering.Element
import DofNumbering.Element.Shape
import DofNumbering.Element.Triangle
import DofNumbering.Fault
import DofNumbering.Flattener
import DofNumbering.Grid
import DofNumbering.Grid.EntitySet
import DofNumbering.Grid.Mesh
import DofNumbering.Grid.Table
import DofNumbering.Index
import DofNumbering.Json
import DofNumbering.Json.Codec
import DofNumbering.Json.Double
import DofNumbering.Json.Reader
import DofNumbering.Json.Writer
import DofNumbering.Local.IndexSet
import DofNumbering.Local.Session
import DofNumbering.Local.Tree
import DofNumbering.Local.Tree.Serial
import DofNumbering.Local.View
import DofNumbering.Merging
import DofNumbering.Mesh
import DofNumbering.Mesh.Rectangle
import DofNumbering.MultiIndex
import DofNumbering.Point
import DofNumbering.Polynomial
import DofNumbering.Quadrature
import DofNumbering.Refusal
import DofNumbering.Subspace
import DofNumbering.Text
import DofNumbering.Traversal
import DofNumbering.Proofs.Result
import DofNumbering.Proofs.Tiling
import DofNumbering.Proofs.IndexTree
import DofNumbering.Proofs.IndexTree.Joining
import DofNumbering.Proofs.IndexTree.Interleaving
import DofNumbering.Proofs.IndexTree.Ranks
import DofNumbering.Proofs.Numbering
import DofNumbering.Proofs.Local.Writing
import DofNumbering.Proofs.Local.Binding
import DofNumbering.Proofs.Local.Moving
import DofNumbering.Proofs.Local.Parts
import DofNumbering.Proofs.Realization
import DofNumbering.Proofs.Basis.Lagrange
import DofNumbering.Proofs.Basis.Power
import DofNumbering.Proofs.Basis.Composite
import DofNumbering.Proofs.Built
import DofNumbering.Proofs.Marks
import DofNumbering.Proofs.Grid.Faces
import DofNumbering.Proofs.Grid.Triangulation
import DofNumbering.Proofs.Grid.FaceNumbers
import DofNumbering.Proofs.Continuity
import DofNumbering.Proofs.Mesh.Lattice
import DofNumbering.Proofs.Mesh.Rectangle
import DofNumbering.Proofs.Mesh.Orientation
import DofNumbering.Proofs.Numbering.Laws
import DofNumbering.Proofs.Numbering.Insertion
import DofNumbering.Proofs.Local.IndexSet
import DofNumbering.Proofs.Local.Rewriting
import DofNumbering.Proofs.MergingTable
import DofNumbering.Proofs.Samples
import DofNumbering.Proofs.PrefixSizes
import DofNumbering.Proofs.Production
import DofNumbering.Proofs.Occurrence
import DofNumbering.Proofs.Descriptor
import DofNumbering.Proofs.IndexTree.Sizes
import DofNumbering.Proofs.Offsets
import DofNumbering.Proofs.Flattening
import DofNumbering.Proofs.Rejection
import DofNumbering.Proofs.Layouts
import DofNumbering.Proofs.Traversal
import DofNumbering.Proofs.Verdict
import DofNumbering.Proofs.Coverage
import DofNumbering.Proofs.Basis.EmptyPower
import DofNumbering.Proofs.EmptyBlocks
import DofNumbering.Proofs.EmptyGrid
import DofNumbering.Proofs.Basis.Container
import DofNumbering.Proofs.Container
import DofNumbering.Proofs.Copies
import DofNumbering.Proofs.Relocation
import DofNumbering.Proofs.Basis.Relocation
import DofNumbering.Proofs.Density
import DofNumbering.Proofs.Rebinding
import DofNumbering.Proofs.Local.Steps
import DofNumbering.Proofs.History
import DofNumbering.Proofs.Local.Descendants
import DofNumbering.Proofs.Reached
import DofNumbering.Proofs.Paths
import DofNumbering.Proofs.Local.Recording
import DofNumbering.Proofs.Recording
import DofNumbering.Proofs.Subspaces
import DofNumbering.Proofs.ForeignSets
import DofNumbering.Proofs.GridInstances
import DofNumbering.Proofs.Grid.VertexNumbers
import DofNumbering.Proofs.Grid.Validation
import DofNumbering.Proofs.Schedules
import DofNumbering.Proofs.Sizes.Answers
import DofNumbering.Proofs.Sizes.Continuation
import DofNumbering.Proofs.Sizes.Strays
import DofNumbering.Proofs.ImpossibleStems
import DofNumbering.Proofs.Descriptor.Types
import DofNumbering.Proofs.Mesh.Splitting
import DofNumbering.Proofs.Descriptor.Addresses
import DofNumbering.Proofs.Descriptor.Depth
import DofNumbering.Proofs.Descriptor.FirstChild
import DofNumbering.Proofs.Descriptor.Expansion
import DofNumbering.Proofs.Descriptor.Text
import DofNumbering.Proofs.ReadingBack
import DofNumbering.Proofs.Element.Reproduction
import DofNumbering.Proofs.Element.Barycentric
import DofNumbering.Proofs.Element.Diameter
import DofNumbering.Proofs.Element.Isoparametric
import DofNumbering.Proofs.Quadrature
