import UtilityClasses.Main
import UtilityClasses.Proofs.Arena.Source
import UtilityClasses.Proofs.Block
import UtilityClasses.Proofs.Choice
import UtilityClasses.Proofs.Composition
import UtilityClasses.Proofs.Cursor.Appends
import UtilityClasses.Proofs.Document.Page
import UtilityClasses.Proofs.Files.Check
import UtilityClasses.Proofs.Files.Order
import UtilityClasses.Proofs.Files.Walk
import UtilityClasses.Proofs.LineFeeds
import UtilityClasses.Proofs.Literal.Body
import UtilityClasses.Proofs.Literal.Reading
import UtilityClasses.Proofs.Options
import UtilityClasses.Proofs.Patch
import UtilityClasses.Proofs.Refusal.Report
import UtilityClasses.Proofs.Region.Refinement
import UtilityClasses.Proofs.SecondPass
import UtilityClasses.Proofs.Term.Simulation
import UtilityClasses.Proofs.Token.Root
import UtilityClasses.Proofs.Unquoted
