import MessageCatalog.Interface
import MessageCatalog.Main
import MessageCatalog.Proofs.Po.Definitions
import MessageCatalog.Proofs.Catalog.OtherOrder
import MessageCatalog.Proofs.Catalog.Searches
import MessageCatalog.Proofs.Plural.Printing
import MessageCatalog.Proofs.Session.PluralMessages
import MessageCatalog.Proofs.Interface.Simulation
import MessageCatalog.Proofs.Po.Spans
import MessageCatalog.Proofs.Session.Preferences
import MessageCatalog.Proofs.Draft.Additions
import MessageCatalog.Proofs.Catalog.Streams
import MessageCatalog.Proofs.Po.Escapes
import MessageCatalog.Proofs.Draft.Filling
import MessageCatalog.Proofs.Po.Strings
import MessageCatalog.Proofs.Plural.Headers
import MessageCatalog.Proofs.Plural.Diagnostics
import MessageCatalog.Proofs.Po.Parts
import MessageCatalog.Proofs.Po.Loading
import MessageCatalog.Proofs.Language.FirstMatch
import MessageCatalog.Proofs.Plural.Exactness
import MessageCatalog.Proofs.Draft.Sizing
import MessageCatalog.Proofs.Catalog.Fields
import MessageCatalog.Proofs.Text.Lines
import MessageCatalog.Proofs.Mo.WideHash
import MessageCatalog.Proofs.Plural.Leftmost
