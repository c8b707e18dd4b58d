import NativeHeaders.Main
import NativeHeaders.Proofs.ClassFile.Acceptance
import NativeHeaders.Proofs.FileSystem.Below
import NativeHeaders.Proofs.FileSystem.Trees
import NativeHeaders.Proofs.Generator.Accounting
import NativeHeaders.Proofs.Generator.Headers
import NativeHeaders.Proofs.Generator.Loading
import NativeHeaders.Proofs.SearchPath.Holdings
import NativeHeaders.Proofs.Symbol.Uniqueness
import NativeHeaders.Proofs.SearchPath.Trees
import NativeHeaders.Proofs.SearchPath.Precedence
import NativeHeaders.Proofs.ClassName
import NativeHeaders.Proofs.SearchPath.Packing
import NativeHeaders.Proofs.Hierarchy.Reachability
import NativeHeaders.Proofs.SearchPath.Capacity
import NativeHeaders.Proofs.Generator.Throwables
import NativeHeaders.Proofs.ClassName.Spellings
import NativeHeaders.Proofs.Generator.Modes
import NativeHeaders.Proofs.SearchPath.Stability
import NativeHeaders.Proofs.Generator.Idempotence
import NativeHeaders.Proofs.ClassFile.UnusedTexts
import NativeHeaders.Proofs.Header.Comments
import NativeHeaders.Proofs.Header.Macros
import NativeHeaders.Proofs.Generator.Monotonicity
import NativeHeaders.Proofs.Text.Encodings
import NativeHeaders.Proofs.SearchPath.Places
import NativeHeaders.Proofs.Settings.Notation
import NativeHeaders.Proofs.Settings.Tables
import NativeHeaders.Proofs.Generator.Searches
import NativeHeaders.Proofs.CommandLine.Status
import NativeHeaders.Proofs.FileSystem.Directories
import NativeHeaders.Proofs.Generator.Containment
import NativeHeaders.Proofs.ClassFile.Truncation
import NativeHeaders.Proofs.ClassSummary.Listing
import NativeHeaders.Proofs.Hierarchy.Lookups
import NativeHeaders.Proofs.SearchPath.ListingOrder
import NativeHeaders.Proofs.SearchPath.Folding
import NativeHeaders.Proofs.SummaryCache.Runs
import NativeHeaders.Proofs.Constant.Integers
import NativeHeaders.Proofs.ClassFile.Scanning
