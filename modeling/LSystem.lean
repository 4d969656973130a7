import LSystem.Canvas
import LSystem.Codec.Text
import LSystem.Proofs.Canvas.CallLog
import LSystem.Proofs.Canvas.Failure
import LSystem.Proofs.Canvas.Replacement
import LSystem.Proofs.Canvas.Run
import LSystem.Proofs.Codec.Text
import LSystem.Proofs.Codec.Values
import LSystem.Proofs.Grammar.Bound
import LSystem.Proofs.Grammar.Derivable
import LSystem.Proofs.Grammar.Descent
import LSystem.Proofs.Grammar.Sizes
import LSystem.Proofs.Plant.Nesting
import LSystem.Proofs.Turtle.Heading
import LSystem.Proofs.Turtle.Mirror
import LSystem.Proofs.Turtle.OpenPath
import LSystem.Proofs.Turtle.Operations
import LSystem.Proofs.Turtle.Orientation
import LSystem.Proofs.Turtle.Outcome
import LSystem.Proofs.Turtle.Planar
import LSystem.Proofs.Turtle.Rooted
import LSystem.Proofs.Turtle.Silence
import LSystem.Proofs.Grammar.Monotone
import LSystem.Proofs.Text.ByteOrder
import LSystem.Proofs.Codec.Grammar
import LSystem.Proofs.Toml.Unique
import LSystem.Proofs.Plant.Layout
import LSystem.Proofs.Plant.Omission
import LSystem.Proofs.Drawing.Bounds
import LSystem.Proofs.Plant.Iterations
import LSystem.Proofs.Grammar.Edits
import LSystem.Proofs.Grammar.PassSize
