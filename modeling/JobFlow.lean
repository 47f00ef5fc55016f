import JobFlow.Main
import JobFlow.Proofs.JobGraph.Needs
import JobFlow.Proofs.JobGraph.Registration
import JobFlow.Proofs.JobGraph.StepNames
import JobFlow.Proofs.JobGraph.Exploration
import JobFlow.Proofs.JobGraph.Validation
import JobFlow.Proofs.JobGraph.Ready
import JobFlow.Proofs.JobGraph.Countdown
import JobFlow.Proofs.JobGraph.Order
import JobFlow.Proofs.JobGraph.Stages
import JobFlow.Proofs.Artifact.Lookup
import JobFlow.Proofs.Artifact.History
import JobFlow.Proofs.Artifact.Retrieval
import JobFlow.Proofs.Artifact.Unresolved
import JobFlow.Proofs.Compilation.Outcome
import JobFlow.Proofs.Compilation.StrictArtifacts
import JobFlow.Proofs.Compilation.Acceptance
import JobFlow.Proofs.Artifact.Similarity
import JobFlow.Proofs.Compilation.Rearrangement
import JobFlow.Proofs.Artifact.Isolation
import JobFlow.Proofs.RunnerPath.Places
import JobFlow.Proofs.Artifact.Records
import JobFlow.Proofs.JobGraph.Registry
import JobFlow.Proofs.Job.Drafting
import JobFlow.Proofs.RunnerPath.Canonical
import JobFlow.Proofs.RunnerPath.SharedParent
import JobFlow.Proofs.RunnerPath.Collision
import JobFlow.Proofs.Artifact.Landing
import JobFlow.Proofs.CommandLine.Preparation
import JobFlow.Proofs.RunnerPath.Relisting
import JobFlow.Proofs.RunnerPath.Climbing
import JobFlow.Proofs.Artifact.Containment
import JobFlow.Proofs.Artifact.Shortfall
import JobFlow.Proofs.Artifact.Multiplicity
import JobFlow.Proofs.Artifact.Pattern
import JobFlow.Proofs.Artifact.Location
import JobFlow.Proofs.Compilation.FileReport
import JobFlow.Proofs.Expression.Lines
import JobFlow.Proofs.Yaml.Scalar
import JobFlow.Proofs.Yaml.Block
import JobFlow.Proofs.Job.Naming
import JobFlow.Proofs.JobGraph.DuplicateSteps
import JobFlow.Proofs.Step.Blocks
import JobFlow.Proofs.Step.Name
import JobFlow.Proofs.Step.Unnamed
import JobFlow.Proofs.Job.Reordering
import JobFlow.Proofs.Text.Control
import JobFlow.Proofs.FileTree.Writing
import JobFlow.Proofs.CommandLine.OutputFile
import JobFlow.Proofs.RunnerPath.Simplest
