import WikiMount.Json.Formats
import WikiMount.Proofs.Change.Authority
import WikiMount.Proofs.Change.BatchRuns
import WikiMount.Proofs.Change.PageRename
import WikiMount.Proofs.Change.Rejection
import WikiMount.Proofs.Change.SpaceCarried
import WikiMount.Proofs.Change.SpaceRename
import WikiMount.Proofs.Node.Chains
import WikiMount.Proofs.Node.EnclosingDirectory
import WikiMount.Proofs.Node.ListedPaths
import WikiMount.Proofs.Node.Listing
import WikiMount.Proofs.Node.PagesFound
import WikiMount.Proofs.Node.Placement
import WikiMount.Proofs.Node.SecondLookup
import WikiMount.Proofs.Reference.ReadBack
import WikiMount.Proofs.Session.ScratchFiles
import WikiMount.Proofs.Storage.Consistency
import WikiMount.Proofs.Storage.Permit
import WikiMount.Proofs.Storage.Upkeep
import WikiMount.Proofs.Text.LetterGroups
import WikiMount.Proofs.Text.Uppercase
import WikiMount.RequestId
import WikiMount.Service
import WikiMount.Proofs.Storage.Losses
import WikiMount.Proofs.Node.PageHierarchy
import WikiMount.Proofs.Node.OrphanHierarchy
import WikiMount.Proofs.Node.Visibility
import WikiMount.Proofs.Node.HiddenPages
import WikiMount.Proofs.Change.Uploads
import WikiMount.Proofs.Change.NewDirectories
import WikiMount.Proofs.Change.DirectoriesFound
import WikiMount.Proofs.Change.Removals
import WikiMount.Proofs.Change.SpacesLeft
import WikiMount.Proofs.Session.Recency
import WikiMount.Proofs.Session.PrivateFiles
import WikiMount.Proofs.Change.Faultless
import WikiMount.Proofs.Change.RenameFaults
import WikiMount.Proofs.Access.Precedence
import WikiMount.Proofs.Change.RenamedDocument
import WikiMount.Proofs.Node.Belonging
import WikiMount.Proofs.Node.FileSizes
import WikiMount.Proofs.Change.MovedFile
import WikiMount.Proofs.Change.ProfilePage
import WikiMount.Proofs.Node.ListedPresent
import WikiMount.Proofs.Session.ScratchPlaces
import WikiMount.Proofs.Node.ListedApart
import WikiMount.Proofs.Session.LiveSessions
import WikiMount.Proofs.Storage.FailureRules
import WikiMount.Proofs.Storage.ListedPages
import WikiMount.Proofs.Node.BrokenQueries
import WikiMount.Proofs.Export.ReadBack
import WikiMount.Proofs.Node.CanonicalPaths
import WikiMount.Proofs.Node.GroupOverlap
import WikiMount.Proofs.Change.Delegation
