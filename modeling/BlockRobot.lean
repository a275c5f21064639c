import BlockRobot.Page
import BlockRobot.Maze
import BlockRobot.Practice
import BlockRobot.Rehearsal
import BlockRobot.Run.Timetable
import BlockRobot.Proofs.Run.Unrolling
import BlockRobot.Proofs.Run.Stopping
import BlockRobot.Proofs.Compilation.Meaning
import BlockRobot.Proofs.Double.Digits
import BlockRobot.Proofs.Double.Nearest
import BlockRobot.Proofs.Double.Shortest
import BlockRobot.Proofs.Json.Numbers
import BlockRobot.Proofs.Json.Drafting
import BlockRobot.Proofs.Json.Reading
import BlockRobot.Proofs.Json.Records
import BlockRobot.Proofs.Block.Text
import BlockRobot.Proofs.Compilation.FromText
import BlockRobot.Proofs.Double.WholeParts
import BlockRobot.Proofs.Run.Verdicts
import BlockRobot.Proofs.Run.Protocol
import BlockRobot.Proofs.Block.Places
import BlockRobot.Proofs.Grid.Wrapping
import BlockRobot.Proofs.Maze.Safety
import BlockRobot.Proofs.Compilation.Acceptance
import BlockRobot.Proofs.Json.Rooms
import BlockRobot.Proofs.Program.Text
import BlockRobot.Proofs.Block.Rooms
import BlockRobot.Proofs.Compilation.Numbers
import BlockRobot.Proofs.Compilation.Text
import BlockRobot.Proofs.Page
import BlockRobot.Proofs.Run.Yielding
import BlockRobot.Proofs.Run.Screen
import BlockRobot.Proofs.Maze.Goal
import BlockRobot.Proofs.Practice.Trail
import BlockRobot.Proofs.Practice.OpenLevel
import BlockRobot.Proofs.Json.Yields
import BlockRobot.Proofs.Json.Building
import BlockRobot.Proofs.Json.Exactness
import BlockRobot.Proofs.Block.NormalForm
import BlockRobot.Proofs.Program.NormalForm
import BlockRobot.Proofs.Compilation.NormalForm
import BlockRobot.Proofs.Saving.Text
import BlockRobot.Proofs.Saving.Sessions
import BlockRobot.Proofs.Run.Tandem
import BlockRobot.Proofs.Run.Images
import BlockRobot.Proofs.Maze.Symmetry
import BlockRobot.Proofs.Games.Screen
import BlockRobot.Proofs.Compilation.Stacks
import BlockRobot.Proofs.Compilation.Transparency
import BlockRobot.Proofs.Run.Commitment
import BlockRobot.Proofs.Run.Completion
import BlockRobot.Proofs.Grid.Poses
import BlockRobot.Proofs.Games.Steering
import BlockRobot.Proofs.Grid.Ways
import BlockRobot.Proofs.Games.Moves
import BlockRobot.Proofs.Games.Retracing
import BlockRobot.Proofs.Games.Splitting
import BlockRobot.Proofs.Double.Distance
import BlockRobot.Proofs.Double.Order
import BlockRobot.Proofs.Duration
import BlockRobot.Proofs.Json.Literals
import BlockRobot.Proofs.Json.Solitary
import BlockRobot.Proofs.Compilation.Spelling
