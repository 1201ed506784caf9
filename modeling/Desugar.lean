import Desugar.Command.Run
import Desugar.Command.Expand
import Desugar.Command.Flag
import Desugar.Command.Session
import Desugar.Command.Setup
import Desugar.Command.Watch
import Desugar.Config
import Desugar.Diagnostic
import Desugar.Diff
import Desugar.Expand.Batch
import Desugar.Expand.Whole
import Desugar.FileTree
import Desugar.Form.Registry
import Desugar.Log
import Desugar.Main
import Desugar.Module.Check
import Desugar.SourceFile
import Desugar.Support.Collection
import Desugar.Support.Fill
import Desugar.Support.Number
import Desugar.Support.Truth
import Desugar.Text.Template
import Desugar.Usage
import Desugar.Version
import Desugar.Watch.Script
import Desugar.Proofs.Diff.Minimal
import Desugar.Proofs.Diff.Shown
import Desugar.Proofs.Diff.Unified
import Desugar.Proofs.Expand.Splice
import Desugar.Proofs.Token.RoundTrip
import Desugar.Proofs.Token.Tiling
import Desugar.Proofs.Watch.Steps
import Desugar.Proofs.Watch.LostUpdate
import Desugar.Proofs.Watch.Crew
import Desugar.Proofs.Watch.Walking
import Desugar.Proofs.Watch.Skipping
import Desugar.Proofs.Form.Builder
import Desugar.Proofs.Form.Code
import Desugar.Proofs.Form.Emission
import Desugar.Proofs.Form.Grammar
import Desugar.Proofs.Form.MapGrammar
import Desugar.Proofs.Token.Reported
import Desugar.Proofs.Expand.Failures
import Desugar.Proofs.Expand.Places
import Desugar.Proofs.Text.Splitting
import Desugar.Proofs.FileTree
import Desugar.Proofs.Expand.Siblings
import Desugar.Proofs.Form.Numbered
import Desugar.Proofs.Form.Numbers
import Desugar.Proofs.Expand.Hygiene
import Desugar.Proofs.Expand.Lowering
import Desugar.Proofs.Support.Fill
import Desugar.Proofs.Form.Matching
import Desugar.Proofs.Form.EmptyMap
import Desugar.Proofs.Token.Gluing
import Desugar.Proofs.Form.Interpolation
import Desugar.Proofs.SourceFile
import Desugar.Proofs.Support.Truth
import Desugar.Proofs.Command.Outputs
import Desugar.Proofs.Module
import Desugar.Proofs.Config
import Desugar.Proofs.Expand.Directive
import Desugar.Proofs.Host.Naming
import Desugar.Proofs.Form.Elsewhere
import Desugar.Proofs.Expand.Spelling
import Desugar.Proofs.Command.Fixpoint
