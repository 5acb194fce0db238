import Folio.Main
import Folio.Proofs.Document.Encoding
import Folio.Proofs.Document.Extraction
import Folio.Proofs.Document.Splice
import Folio.Proofs.Document.Standalone
import Folio.Proofs.Document.Vocabulary
import Folio.Proofs.Document.WellFormed
import Folio.Proofs.Import.Absolute
import Folio.Proofs.Import.Termination
import Folio.Proofs.Import.Warnings
import Folio.Proofs.Page.Attributes
import Folio.Proofs.Page.Influence
import Folio.Proofs.Page.Rendering
import Folio.Proofs.Script.Sequence
import Folio.Proofs.Site.Links
import Folio.Proofs.Site.Overlay
import Folio.Proofs.Site.Sources
