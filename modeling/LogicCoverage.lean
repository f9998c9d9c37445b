import LogicCoverage.Database.Builder
import LogicCoverage.Main
import LogicCoverage.Session
import LogicCoverage.Proofs.Descent
import LogicCoverage.Proofs.Placement
import LogicCoverage.Proofs.Shape
import LogicCoverage.Proofs.Bare
import LogicCoverage.Proofs.Points
import LogicCoverage.Proofs.Numbering
import LogicCoverage.Proofs.TreeScore
import LogicCoverage.Proofs.Gaps
import LogicCoverage.Proofs.Agreement
import LogicCoverage.Proofs.Tally
import LogicCoverage.Proofs.Numbers
import LogicCoverage.Proofs.ScopeScore
import LogicCoverage.Proofs.Shift
import LogicCoverage.Proofs.Toggle
import LogicCoverage.Proofs.Exactness
import LogicCoverage.Proofs.Requests
import LogicCoverage.Proofs.Passes
import LogicCoverage.Proofs.Runs
import LogicCoverage.Proofs.Addresses
import LogicCoverage.Proofs.GapExclusion
import LogicCoverage.Proofs.Consistency
import LogicCoverage.Proofs.Tables
import LogicCoverage.Proofs.Json.Quoted
import LogicCoverage.Proofs.Json.Spelling
import LogicCoverage.Proofs.Json.RoundTrip
import LogicCoverage.Proofs.Json.Record
import LogicCoverage.Proofs.Snapshot
import LogicCoverage.Proofs.Ledger
import LogicCoverage.Proofs.Origins
import LogicCoverage.Proofs.Deferral
import LogicCoverage.Proofs.Effect
import LogicCoverage.Proofs.Roots
import LogicCoverage.Proofs.Reports
import LogicCoverage.Proofs.Scorability
import LogicCoverage.Proofs.Capacity
import LogicCoverage.Proofs.Fixpoint
import LogicCoverage.Proofs.Formats
import LogicCoverage.Proofs.Rewritten
import LogicCoverage.Proofs.ExcludeCommand
import LogicCoverage.Proofs.Details
import LogicCoverage.Proofs.FreshNumbers
import LogicCoverage.Proofs.Chains
import LogicCoverage.Proofs.PointKeys
import LogicCoverage.Proofs.Partition
import LogicCoverage.Proofs.ScalarPoints
import LogicCoverage.Proofs.ChainSaving
import LogicCoverage.Proofs.Repetition
import LogicCoverage.Proofs.Reversal
import LogicCoverage.Proofs.Frames
import LogicCoverage.Proofs.Scopeless
import LogicCoverage.Proofs.Rewalk
import LogicCoverage.Proofs.Relisting
import LogicCoverage.Proofs.Evidence
import LogicCoverage.Proofs.Monotonicity
import LogicCoverage.Proofs.BitPoints
import LogicCoverage.Proofs.Hierarchy
import LogicCoverage.Proofs.RootPartition
import LogicCoverage.Proofs.Boundless
import LogicCoverage.Proofs.ScalarFaults
import LogicCoverage.Proofs.DepthBudget
import LogicCoverage.Proofs.Building
import LogicCoverage.Proofs.Masks
import LogicCoverage.Proofs.Marks
