import IssueRelay.Proofs.Text.Utf8
import IssueRelay.Session
import IssueRelay.Settings.File
import IssueRelay.Version
import IssueRelay.Proofs.Json.Decimal
import IssueRelay.Proofs.Json.Members
import IssueRelay.Proofs.Json.Quotation
import IssueRelay.Proofs.Wire.Tree
import IssueRelay.Proofs.Wire.ReadBack
import IssueRelay.Proofs.Record.Reading
import IssueRelay.Proofs.Record.RoundTrip
import IssueRelay.Proofs.Envelope.RoundTrip
import IssueRelay.Proofs.Link.Browse
import IssueRelay.Proofs.Envelope.Surrogates
import IssueRelay.Proofs.Obtained
import IssueRelay.Proofs.Json.Opened
import IssueRelay.Proofs.Json.Limits
import IssueRelay.Proofs.Envelope.Classification
import IssueRelay.Proofs.Payload.Limits
import IssueRelay.Proofs.Record.Building
import IssueRelay.Proofs.Envelope.Announcement
import IssueRelay.Proofs.Payload.Octets
import IssueRelay.Proofs.Json.LineEnds
import IssueRelay.Proofs.Settings.File
import IssueRelay.Proofs.Record.Offence
import IssueRelay.Proofs.Payload.Agreement
import IssueRelay.Proofs.Link.Site
import IssueRelay.Proofs.Record.Exclusion
import IssueRelay.Proofs.Payload.Strings
import IssueRelay.Proofs.Payload.Numbers
import IssueRelay.Proofs.Record.Alphabet
import IssueRelay.Proofs.Record.Indentation
import IssueRelay.Proofs.Payload.Reports
import IssueRelay.Proofs.Settings.Sections
import IssueRelay.Proofs.Settings.Refusals
import IssueRelay.Proofs.Json.Neighbours
import IssueRelay.Proofs.Wire.Indented
import IssueRelay.Proofs.Settings.Use
import IssueRelay.Proofs.Record.Composition
import IssueRelay.Proofs.Session
