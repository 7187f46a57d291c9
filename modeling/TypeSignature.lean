import TypeSignature.FileSystem.FileTree
import TypeSignature.Proofs.Canonical
import TypeSignature.Proofs.Text.Replacing
import TypeSignature.Proofs.Tree.Texts
import TypeSignature.Proofs.Cleaning
import TypeSignature.Proofs.Tree.Canonical
import TypeSignature.Session
import TypeSignature.Tree.Walk
import TypeSignature.Proofs.Acceptance
import TypeSignature.Proofs.EastConst
import TypeSignature.Proofs.Cleaning.Faults
import TypeSignature.Proofs.Conventional
import TypeSignature.Proofs.Tree.Nonblank
import TypeSignature.Proofs.Tree.OneLine
import TypeSignature.Proofs.Tree.Respacing
import TypeSignature.Proofs.Cleaning.Display
import TypeSignature.Proofs.Cleaning.Fixpoints
import TypeSignature.Proofs.Cleaning.Items
import TypeSignature.Proofs.Cleaning.Single
import TypeSignature.Proofs.Tree.Names
import TypeSignature.Proofs.Cleaning.Pruning
import TypeSignature.Proofs.Cleaning.Blanks
import TypeSignature.Proofs.Gaps
import TypeSignature.Proofs.Callable
import TypeSignature.Proofs.Declarators
import TypeSignature.Proofs.Tree.Layouts
import TypeSignature.Proofs.Spacing
import TypeSignature.Proofs.Session
import TypeSignature.Proofs.Json.Grammar
import TypeSignature.Proofs.Json.Words
import TypeSignature.Proofs.Json.Reading
import TypeSignature.Proofs.Rules.Members
import TypeSignature.Proofs.Json.Printing
import TypeSignature.Proofs.Rules.RoundTrip
import TypeSignature.Proofs.Tree.Depth
import TypeSignature.Proofs.Tree.Lines
import TypeSignature.Proofs.EastConst.Groups
import TypeSignature.Proofs.EastConst.Spacing
import TypeSignature.Proofs.Tree.Stripping
import TypeSignature.Proofs.Tree.Addresses
import TypeSignature.Proofs.Tree.Filtering
import TypeSignature.Proofs.Cleaning.Commuting
import TypeSignature.Proofs.Splitting
import TypeSignature.Proofs.Text.Editing
import TypeSignature.Proofs.Path
import TypeSignature.Proofs.Rules.Search
import TypeSignature.Proofs.Callable.Slicing
