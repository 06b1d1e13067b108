import BranchLab.Main
import BranchLab.Workbench
import BranchLab.Source.Files
import BranchLab.Proofs.Stepper.Frames
import BranchLab.Proofs.Session.Evaluation
import BranchLab.Proofs.Stepper.Iteration
import BranchLab.Proofs.Predictor.Training
import BranchLab.Proofs.Source.Agreement
import BranchLab.Proofs.Session.Tickets
import BranchLab.Proofs.Session.Spending
import BranchLab.Proofs.Source.Height
import BranchLab.Proofs.Session.Course
import BranchLab.Proofs.Session.Drivers
import BranchLab.Proofs.Session.Replay
import BranchLab.Proofs.Session.Independence
import BranchLab.Proofs.Source.FirstError
import BranchLab.Proofs.Source.Down
import BranchLab.Proofs.Source.Joining
import BranchLab.Proofs.Stepper.Stack
import BranchLab.Proofs.Session.Refusals
import BranchLab.Proofs.Session.Seeds
import BranchLab.Proofs.Source.Fences
import BranchLab.Proofs.Source.Lexemes
import BranchLab.Proofs.Source.Sites
import BranchLab.Proofs.Source.Places
import BranchLab.Proofs.Workbench.Flights
import BranchLab.Proofs.Workbench.Refusals
import BranchLab.Proofs.Predictor.Shape
import BranchLab.Proofs.Predictor.Account
import BranchLab.Proofs.Predictor.Warmup
import BranchLab.Proofs.Predictor.Reordering
import BranchLab.Proofs.Source.Messages
import BranchLab.Proofs.CommandLine.Agreement
import BranchLab.Proofs.Session.Passes
import BranchLab.Proofs.Session.Pacing
import BranchLab.Proofs.Program.Visibility
import BranchLab.Proofs.Program.Strictness
import BranchLab.Proofs.Stepper.Restarts
import BranchLab.Proofs.Source.Tiling
import BranchLab.Proofs.Program.Arithmetic
import BranchLab.Proofs.Chance.Sampling
import BranchLab.Proofs.Source.Ranges
import BranchLab.Proofs.Source.Spacing
import BranchLab.Proofs.CommandLine.Arrangements
import BranchLab.Proofs.Source.Levels
