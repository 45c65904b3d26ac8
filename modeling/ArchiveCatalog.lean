import ArchiveCatalog.Backends
import ArchiveCatalog.Catalog.Navigation
import ArchiveCatalog.Catalog.Search
import ArchiveCatalog.Config.Document
import ArchiveCatalog.Dsl.Printing
import ArchiveCatalog.Proofs.CanonicalForm
import ArchiveCatalog.Proofs.Decoding
import ArchiveCatalog.Proofs.Document
import ArchiveCatalog.Proofs.Dsl.Checked
import ArchiveCatalog.Proofs.Dsl.Shunting
import ArchiveCatalog.Proofs.Dsl.Spacing
import ArchiveCatalog.Proofs.Dsl.Statement
import ArchiveCatalog.Proofs.Failure
import ArchiveCatalog.Proofs.Inverted.Handles
import ArchiveCatalog.Proofs.Inverted.Isolation
import ArchiveCatalog.Proofs.Inverted.Progress
import ArchiveCatalog.Proofs.Inverted.Refinement
import ArchiveCatalog.Proofs.Listing
import ArchiveCatalog.Proofs.Merging
import ArchiveCatalog.Proofs.Navigation
import ArchiveCatalog.Proofs.Relational.Layouts
import ArchiveCatalog.Proofs.Relational.Parameters
import ArchiveCatalog.Proofs.Remote.Refinement
import ArchiveCatalog.Proofs.Search.Backends
import ArchiveCatalog.Proofs.Template
import ArchiveCatalog.Proofs.Timeline
import ArchiveCatalog.Proofs.Writers
