import UberPackage.Main
import UberPackage.Proofs.Dependency.Bundle
import UberPackage.Proofs.Dependency.Convergence
import UberPackage.Proofs.Act
import UberPackage.Proofs.Assembly.Copy
import UberPackage.Proofs.Json.RoundTrip
import UberPackage.Proofs.Settings
import UberPackage.Proofs.Assembly.Frame
import UberPackage.Proofs.Build.Frame
import UberPackage.Proofs.Build.Stages
import UberPackage.Proofs.Build.Apart
import UberPackage.Proofs.Assembly.Arrival
import UberPackage.Proofs.Layout
import UberPackage.Proofs.Build.Module
import UberPackage.Proofs.Build.History
import UberPackage.Proofs.Act.Follow
import UberPackage.Proofs.Dependency.Settled
import UberPackage.Proofs.Disk.Ahead
import UberPackage.Proofs.Assembly.Follow
import UberPackage.Proofs.Build.Again
import UberPackage.Proofs.Build.Refusal
import UberPackage.Proofs.Build.Correction
import UberPackage.Proofs.Build.EntryPoint
import UberPackage.Proofs.Build.Sources
import UberPackage.Proofs.Layout.Specifier
import UberPackage.Proofs.Json.Persistence
import UberPackage.Proofs.CommandLine
import UberPackage.Proofs.Redirection.Comments
import UberPackage.Proofs.Assembly.Generated
import UberPackage.Proofs.Dependency.Repair
import UberPackage.Proofs.Dependency.Requirement
import UberPackage.Proofs.Dependency.Idempotence
import UberPackage.Proofs.Dependency.Nohoist
import UberPackage.Proofs.Dependency.Reorder
import UberPackage.Proofs.Build.Report
import UberPackage.Proofs.TypeScript.Argument
import UberPackage.Proofs.Layout.Reorder
import UberPackage.Proofs.Binding
import UberPackage.Proofs.Glue
import UberPackage.Proofs.Disk.Whole
import UberPackage.Proofs.Settings.InForce
import UberPackage.Proofs.Discovery.Partition
import UberPackage.Proofs.Journal
import UberPackage.Proofs.Suffix.Longest
