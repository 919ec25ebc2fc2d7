import FilterRecord.Main
import FilterRecord.Proofs.Outcome
import FilterRecord.Proofs.Options.Register
import FilterRecord.Proofs.Record.Field
import FilterRecord.Proofs.Text.Words
import FilterRecord.Proofs.Names.DeviceGroups
import FilterRecord.Proofs.Arguments.Reading
import FilterRecord.Proofs.Arguments.Writing
import FilterRecord.Proofs.Arguments.Accepting
import FilterRecord.Proofs.Arguments.Order
import FilterRecord.Proofs.Arguments.Spelling
import FilterRecord.Proofs.Decoding
import FilterRecord.Proofs.Mask.Form
import FilterRecord.Proofs.Mask.Operation
import FilterRecord.Proofs.Target.Classify
import FilterRecord.Proofs.Target.ConnTrackSaved
import FilterRecord.Proofs.Target.ConnTrackNormalForm
import FilterRecord.Proofs.Target.Edits
import FilterRecord.Proofs.Target.IpMark
import FilterRecord.Proofs.Target.Mark
import FilterRecord.Proofs.Target.NormalForm
import FilterRecord.Proofs.Target.Operations
import FilterRecord.Proofs.Target.Restoring
import FilterRecord.Proofs.Match.Credential
import FilterRecord.Proofs.Match.Edits
import FilterRecord.Proofs.Match.NormalForm
import FilterRecord.Proofs.Match.ReversePathSaved
import FilterRecord.Proofs.Match.SocketOptions
import FilterRecord.Proofs.Match.SocketSaved
import FilterRecord.Proofs.NormalForm
import FilterRecord.Proofs.Acceptance
import FilterRecord.Proofs.Order
import FilterRecord.Proofs.Refusal
import FilterRecord.Proofs.RuleText
import FilterRecord.Proofs.Repacking
import FilterRecord.Proofs.Target.Describing
import FilterRecord.Proofs.Newer
import FilterRecord.Proofs.Match.Carrying
import FilterRecord.Proofs.Match.ReversePathStatement
import FilterRecord.Proofs.Target.ConnTrackExclusion
import FilterRecord.Proofs.Target.MarkStatement
import FilterRecord.Proofs.Match.SocketOwners
import FilterRecord.Proofs.ExitCode
import FilterRecord.Proofs.Arguments.Joined
import FilterRecord.Proofs.Match.StateLists
import FilterRecord.Proofs.Target.EventLists
import FilterRecord.Proofs.Failure
import FilterRecord.Proofs.Text.NumeralGrammar
import FilterRecord.Proofs.Options.Conversion
import FilterRecord.Proofs.Target.ClassHandle
import FilterRecord.Proofs.Text.Lines
import FilterRecord.Proofs.Names.DeviceGroupLines
import FilterRecord.Proofs.Names.AccountLines
import FilterRecord.Proofs.Names.DeviceGroupComments
import FilterRecord.Proofs.Options.Exclusion
import FilterRecord.Proofs.Statement
import FilterRecord.Proofs.Record.Locality
