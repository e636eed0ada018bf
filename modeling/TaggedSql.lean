import TaggedSql.Proofs.Printing.Separated
import TaggedSql.Proofs.Session.Accounting
import TaggedSql.Proofs.Session.Blobs
import TaggedSql.Proofs.Session.Composition
import TaggedSql.Proofs.Session.Depth
import TaggedSql.Proofs.Session.Encoding
import TaggedSql.Proofs.Session.FirstError
import TaggedSql.Proofs.Session.FirstTokens
import TaggedSql.Proofs.Session.History
import TaggedSql.Proofs.Session.Integers
import TaggedSql.Proofs.Session.Layout
import TaggedSql.Proofs.Session.Messages
import TaggedSql.Proofs.Session.Overflow
import TaggedSql.Proofs.Session.Ownership
import TaggedSql.Proofs.Session.Quoting
import TaggedSql.Proofs.Session.Safety
import TaggedSql.Proofs.Session.SingleStatement
import TaggedSql.Proofs.Statement.RoundTrip
import TaggedSql.Proofs.Text.Annotation
import TaggedSql.Proofs.Text.Lines
import TaggedSql.Proofs.Token.Tiling
import TaggedSql.Proofs.Tree.Export
import TaggedSql.Session
import TaggedSql.Settings.Document
