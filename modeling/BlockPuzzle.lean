import BlockPuzzle.Binary64
import BlockPuzzle.Direction
import BlockPuzzle.Exchange
import BlockPuzzle.Game.Badge
import BlockPuzzle.Game.Checked
import BlockPuzzle.Game.Progress
import BlockPuzzle.Game.Rating
import BlockPuzzle.Game.Ratings
import BlockPuzzle.Game.Session
import BlockPuzzle.Game.Streak
import BlockPuzzle.Grid.Basic
import BlockPuzzle.Grid.Cell
import BlockPuzzle.Grid.Notation
import BlockPuzzle.Hash.Sha256
import BlockPuzzle.Json.Basic
import BlockPuzzle.Json.Number
import BlockPuzzle.Json.Reader
import BlockPuzzle.Json.Token
import BlockPuzzle.Json.Writer
import BlockPuzzle.Level.Basic
import BlockPuzzle.Level.Catalog
import BlockPuzzle.Level.Catalog.Desert
import BlockPuzzle.Level.Catalog.Entry
import BlockPuzzle.Level.Catalog.Grasslands
import BlockPuzzle.Level.Catalog.Ocean
import BlockPuzzle.Level.Lookup
import BlockPuzzle.Level.Maze
import BlockPuzzle.Level.Maze.Carving
import BlockPuzzle.Level.Maze.Random
import BlockPuzzle.Level.Sandbox
import BlockPuzzle.Level.World
import BlockPuzzle.Program.Assembly
import BlockPuzzle.Program.Block
import BlockPuzzle.Program.Indent
import BlockPuzzle.Program.Markers
import BlockPuzzle.Program.Node
import BlockPuzzle.Proofs.Exchange
import BlockPuzzle.Proofs.Game.Awards
import BlockPuzzle.Proofs.Game.Badges
import BlockPuzzle.Proofs.Game.Editing
import BlockPuzzle.Proofs.Game.History
import BlockPuzzle.Proofs.Game.Indentation
import BlockPuzzle.Proofs.Game.Nesting
import BlockPuzzle.Proofs.Game.Operations
import BlockPuzzle.Proofs.Game.Plays
import BlockPuzzle.Proofs.Game.Ratings
import BlockPuzzle.Proofs.Game.Reordering
import BlockPuzzle.Proofs.Game.Repeating
import BlockPuzzle.Proofs.Game.Saving
import BlockPuzzle.Proofs.Game.Scoring
import BlockPuzzle.Proofs.Game.Streak
import BlockPuzzle.Proofs.Game.Unlocking
import BlockPuzzle.Proofs.Grid.Cells
import BlockPuzzle.Proofs.Grid.Cleared
import BlockPuzzle.Proofs.Grid.Counting
import BlockPuzzle.Proofs.Grid.Finding
import BlockPuzzle.Proofs.Grid.Notation
import BlockPuzzle.Proofs.Grid.Rectangle
import BlockPuzzle.Proofs.Grid.Replacing
import BlockPuzzle.Proofs.Grid.Ringed
import BlockPuzzle.Proofs.Grid.Symmetry
import BlockPuzzle.Proofs.Grid.Walled
import BlockPuzzle.Proofs.Json.Items
import BlockPuzzle.Proofs.Json.Reading
import BlockPuzzle.Proofs.Json.Tokens
import BlockPuzzle.Proofs.Level.Carving
import BlockPuzzle.Proofs.Level.Mazes
import BlockPuzzle.Proofs.Level.Painting
import BlockPuzzle.Proofs.Level.Sandbox
import BlockPuzzle.Proofs.Level.Solution
import BlockPuzzle.Proofs.Program.Counting
import BlockPuzzle.Proofs.Program.Cursor
import BlockPuzzle.Proofs.Program.Filing
import BlockPuzzle.Proofs.Program.Flattening
import BlockPuzzle.Proofs.Program.Joining
import BlockPuzzle.Proofs.Program.Listing
import BlockPuzzle.Proofs.Program.Matching
import BlockPuzzle.Proofs.Program.Nesting
import BlockPuzzle.Proofs.Program.Omitting
import BlockPuzzle.Proofs.Program.Openers
import BlockPuzzle.Proofs.Program.Reading
import BlockPuzzle.Proofs.Program.Renaming
import BlockPuzzle.Proofs.Program.Visits
import BlockPuzzle.Proofs.Results
import BlockPuzzle.Proofs.Run.Alike
import BlockPuzzle.Proofs.Run.Budget
import BlockPuzzle.Proofs.Run.Calls
import BlockPuzzle.Proofs.Run.Checked
import BlockPuzzle.Proofs.Run.Collecting
import BlockPuzzle.Proofs.Run.Digest
import BlockPuzzle.Proofs.Run.Following
import BlockPuzzle.Proofs.Run.Fuel
import BlockPuzzle.Proofs.Run.Moving
import BlockPuzzle.Proofs.Run.Nesting
import BlockPuzzle.Proofs.Run.Noting
import BlockPuzzle.Proofs.Run.Omitting
import BlockPuzzle.Proofs.Run.OnStar
import BlockPuzzle.Proofs.Run.Passing
import BlockPuzzle.Proofs.Run.Positions
import BlockPuzzle.Proofs.Run.Reaches
import BlockPuzzle.Proofs.Run.Redrawing
import BlockPuzzle.Proofs.Run.Ringed
import BlockPuzzle.Proofs.Run.Sequence
import BlockPuzzle.Proofs.Run.Symmetry
import BlockPuzzle.Proofs.Run.Targets
import BlockPuzzle.Proofs.Run.Trace
import BlockPuzzle.Proofs.Run.Unrolling
import BlockPuzzle.Proofs.Run.Widening
import BlockPuzzle.Proofs.Run.Work
import BlockPuzzle.Proofs.Text.Lines
import BlockPuzzle.Proofs.Wire.Board
import BlockPuzzle.Proofs.Wire.Decoding
import BlockPuzzle.Proofs.Wire.Fields
import BlockPuzzle.Proofs.Wire.Program
import BlockPuzzle.Proofs.Wire.Progress
import BlockPuzzle.Proofs.Wire.Reports
import BlockPuzzle.Proofs.Wire.RoundTrip
import BlockPuzzle.Run.Checked
import BlockPuzzle.Run.Digest
import BlockPuzzle.Run.Execution
import BlockPuzzle.Run.Report
import BlockPuzzle.Run.State
import BlockPuzzle.Run.Step
import BlockPuzzle.Text.Blank
import BlockPuzzle.Width
import BlockPuzzle.Wire.Board
import BlockPuzzle.Wire.Document
import BlockPuzzle.Wire.Fields
import BlockPuzzle.Wire.Level
import BlockPuzzle.Wire.Program
import BlockPuzzle.Wire.Progress
import BlockPuzzle.Wire.Run
