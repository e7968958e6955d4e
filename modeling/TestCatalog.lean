import TestCatalog.Go.Read
import TestCatalog.Source.Lines
import TestCatalog.Listing.Entry
import TestCatalog.Listing.Name
import TestCatalog.Path.Clean
import TestCatalog.Files.Visit
import TestCatalog.Files.Growth
import TestCatalog.Failure
import TestCatalog.Log.Filter
import TestCatalog.Log.Logged
import TestCatalog.Report.Json
import TestCatalog.Catalog.Build
import TestCatalog.Main
import TestCatalog.Proofs.Text.Order
import TestCatalog.Proofs.Text.Shown
import TestCatalog.Proofs.Path.Shown
import TestCatalog.Proofs.Files.Follow
import TestCatalog.Proofs.Files.Reach
import TestCatalog.Proofs.Catalog.Encounter
import TestCatalog.Proofs.Catalog.Roots
import TestCatalog.Proofs.Catalog.Located
import TestCatalog.Proofs.Catalog.Search
import TestCatalog.Proofs.Catalog.Parent
import TestCatalog.Proofs.Command.AskedFile
import TestCatalog.Proofs.Listing.Site
import TestCatalog.Proofs.Catalog.Outcome
import TestCatalog.Proofs.Json.Grammar
import TestCatalog.Proofs.Report.Denoted
import TestCatalog.Proofs.Parsing.Reading
import TestCatalog.Proofs.Text.Regex
import TestCatalog.Proofs.Text.Standing
import TestCatalog.Proofs.Go.Token
import TestCatalog.Proofs.Go.Placed
import TestCatalog.Proofs.Go.Derived
import TestCatalog.Proofs.Source.Placed
import TestCatalog.Proofs.Go.Outline
import TestCatalog.Proofs.Source.Lines
import TestCatalog.Proofs.Listing.Standing
import TestCatalog.Proofs.Go.Checked
import TestCatalog.Proofs.Report.Position
import TestCatalog.Proofs.Catalog.Distinct
import TestCatalog.Proofs.Listing.Insertion
import TestCatalog.Proofs.Listing.Overlooked
import TestCatalog.Proofs.Command.Ending
import TestCatalog.Proofs.Command.Verbosity
import TestCatalog.Proofs.Path.Joined
import TestCatalog.Proofs.Go.Offsets
import TestCatalog.Proofs.Json.Scan
import TestCatalog.Proofs.Report.Squeezed
import TestCatalog.Proofs.Listing.Qualified
import TestCatalog.Proofs.Go.Blocks
import TestCatalog.Proofs.Go.Edited
import TestCatalog.Proofs.Command.Written
