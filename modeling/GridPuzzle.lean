import GridPuzzle.Board.Draft
import GridPuzzle.Board.Occurrence
import GridPuzzle.Board.Rectangle
import GridPuzzle.Context
import GridPuzzle.Main
import GridPuzzle.Proofs.Cell
import GridPuzzle.Proofs.Polyomino.Normal
import GridPuzzle.Proofs.Rules.Ground
import GridPuzzle.Rules.Meaning
import GridPuzzle.Template.Call
import GridPuzzle.Template.Loop
import GridPuzzle.Template.Region
import GridPuzzle.Template.Source
import GridPuzzle.Template.SourceBits
import GridPuzzle.Proofs.Polyomino.Turn
import GridPuzzle.Proofs.Polyomino.Orbit
import GridPuzzle.Proofs.Polyomino.Connected
import GridPuzzle.Proofs.Flood
import GridPuzzle.Proofs.Board.Joined
import GridPuzzle.Proofs.Board.Classes
import GridPuzzle.Proofs.Plane
import GridPuzzle.Proofs.Board.Boxes
import GridPuzzle.Proofs.Board.Bends
import GridPuzzle.Proofs.Plane.Roles
import GridPuzzle.Proofs.Plane.Course
import GridPuzzle.Proofs.Label
import GridPuzzle.Proofs.Template.Rectangle
import GridPuzzle.Proofs.Template.Source
import GridPuzzle.Proofs.Template.Connection
import GridPuzzle.Proofs.Template.SourceBits
import GridPuzzle.Proofs.Template.Course
import GridPuzzle.Proofs.Template.LoopSides
import GridPuzzle.Proofs.Board.Placement
import GridPuzzle.Proofs.Board.Whole
import GridPuzzle.Proofs.Template.Registration
import GridPuzzle.Proofs.Polyomino.Memo
import GridPuzzle.Proofs.Template.Piece
import GridPuzzle.Proofs.Template.Detection
import GridPuzzle.Proofs.Template.Block
import GridPuzzle.Proofs.Board.Regions
import GridPuzzle.Proofs.Template.Region
import GridPuzzle.Proofs.Strand
import GridPuzzle.Proofs.Strand.Undirected
import GridPuzzle.Proofs.Plane.Link
import GridPuzzle.Proofs.Plane.Flow
import GridPuzzle.Proofs.Template.LoopTracks
import GridPuzzle.Proofs.Template.DirectedLoop
import GridPuzzle.Proofs.Template.Instance
import GridPuzzle.Proofs.Template.Detector
import GridPuzzle.Proofs.Template.Border
import GridPuzzle.Proofs.Template.Areas
import GridPuzzle.Proofs.Plane.Extent
import GridPuzzle.Proofs.Board.Squares
import GridPuzzle.Proofs.Rules.Compose
import GridPuzzle.Proofs.Template.Square
import GridPuzzle.Proofs.Template.PathMarks
import GridPuzzle.Proofs.Template.LoopPair
import GridPuzzle.Proofs.Template.FullBlock
import GridPuzzle.Proofs.Template.Neighbors
import GridPuzzle.Proofs.Board.Rays
import GridPuzzle.Proofs.Template.Light
import GridPuzzle.Proofs.Rules.Transfer
import GridPuzzle.Proofs.Template.Alike
import GridPuzzle.Proofs.Template.Repaint
import GridPuzzle.Proofs.Template.Negation
import GridPuzzle.Proofs.Board.Decomposition
import GridPuzzle.Proofs.Legible
import GridPuzzle.Proofs.Rules.Words
import GridPuzzle.Proofs.Rules.Text
import GridPuzzle.Proofs.Template.PieceCount
import GridPuzzle.Proofs.Template.AreaDetection
import GridPuzzle.Proofs.Polyomino.Canonical
import GridPuzzle.Proofs.Board.Drawing
import GridPuzzle.Proofs.Board.Edits
import GridPuzzle.Proofs.Polyomino.Action
import GridPuzzle.Proofs.Polyomino.Span
import GridPuzzle.Proofs.Context
import GridPuzzle.Proofs.Template.Call
import GridPuzzle.Proofs.Board.Gated
import GridPuzzle.Proofs.Polyomino.Moves
import GridPuzzle.Proofs.Template.BitCode
import GridPuzzle.Proofs.Rules.Extremum
import GridPuzzle.Proofs.Rules.Line
import GridPuzzle.Proofs.Plane.Run
import GridPuzzle.Proofs.Template.LoopRuns
import GridPuzzle.Proofs.Board.Sight
import GridPuzzle.Proofs.Polyomino.Picture
import GridPuzzle.Proofs.Template.CellCount
import GridPuzzle.Proofs.Adjacency
