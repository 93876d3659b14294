import LinkageAudit.FileTree
import LinkageAudit.Main
import LinkageAudit.Proofs.Audit.Verdict
import LinkageAudit.Proofs.Audit.Composition
import LinkageAudit.Proofs.Elf.Bytes
import LinkageAudit.Proofs.Elf.SectionTable
import LinkageAudit.Proofs.Elf.Entries
import LinkageAudit.Proofs.Elf.Footprint
import LinkageAudit.Proofs.Audit.Clean
import LinkageAudit.Proofs.Elf.Encoding
import LinkageAudit.Proofs.Elf.ObjectFile
import LinkageAudit.Proofs.Elf.RoundTrip
import LinkageAudit.Proofs.Elf.Offences
import LinkageAudit.Proofs.Elf.Writer
import LinkageAudit.Proofs.Audit.Violations
import LinkageAudit.Proofs.Text.Utf8
import LinkageAudit.Proofs.Audit.Extension
import LinkageAudit.Proofs.Audit.RawNames
import LinkageAudit.Proofs.Exit
import LinkageAudit.Proofs.Audit.Linkage
import LinkageAudit.Proofs.Inspection
import LinkageAudit.Proofs.CommandLine.Flags
import LinkageAudit.Proofs.NonInterference
import LinkageAudit.Proofs.Json.Printed
import LinkageAudit.Proofs.Json.Schema
import LinkageAudit.Proofs.ReportJson
import LinkageAudit.Proofs.ReportLines
import LinkageAudit.Proofs.EffectiveConfig
import LinkageAudit.Proofs.Stages
import LinkageAudit.Proofs.Text.Lines
import LinkageAudit.Proofs.Elf.Provenance
import LinkageAudit.Proofs.Audit.Partition
import LinkageAudit.Proofs.Audit.Components
import LinkageAudit.Proofs.Audit.Relevance
import LinkageAudit.Proofs.Audit.PrivateNames
import LinkageAudit.Proofs.PolicySteps
import LinkageAudit.Proofs.Relocation
import LinkageAudit.Proofs.Config.Entries
import LinkageAudit.Proofs.Config.NamedKeys
import LinkageAudit.Proofs.ReportReading
import LinkageAudit.Proofs.Elf.Accounting
import LinkageAudit.Proofs.CommandLine.GlobalOptions
import LinkageAudit.Proofs.CommandLine.Placement
