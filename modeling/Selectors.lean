import Selectors.Decimal.Shortest
import Selectors.Engine
import Selectors.Pseudo.Element
import Selectors.Settings
import Selectors.Syntax.Parser
import Selectors.Tree.Literal
import Selectors.Warning
import Selectors.Proofs.Tree.Change
import Selectors.Proofs.Tree.Linked
import Selectors.Proofs.Tree.WellFormed
import Selectors.Proofs.Tree.Ancestry
import Selectors.Proofs.Tree.Preorder
import Selectors.Proofs.Tree.Cursor
import Selectors.Proofs.Tree.Order
import Selectors.Proofs.Tree.Relations
import Selectors.Proofs.Tree.Runs
import Selectors.Proofs.Running
import Selectors.Proofs.Compiled.Routes
import Selectors.Proofs.Compiled.Builds
import Selectors.Proofs.Compiled.Compiling
import Selectors.Proofs.Query.Engine
import Selectors.Proofs.Query.Order
import Selectors.Proofs.Matching.Parallel
import Selectors.Proofs.Matching.Nesting
import Selectors.Proofs.Matching.Memory
import Selectors.Proofs.Matching.Answers
import Selectors.Proofs.Matching.Rows
import Selectors.Proofs.Matching.Relative
import Selectors.Proofs.Matching.Scopes
import Selectors.Proofs.Query.Followed
import Selectors.Proofs.Query.Expansion
import Selectors.Proofs.Query.Members
import Selectors.Proofs.Query.Agreement
import Selectors.Proofs.Query.Restriction
import Selectors.Proofs.Query.Union
import Selectors.Proofs.Syntax.Grammar
import Selectors.Proofs.Syntax.Brackets
import Selectors.Proofs.Syntax.Reading
import Selectors.Proofs.Query.Parallel
import Selectors.Proofs.Query.Memory
import Selectors.Proofs.Query.Strictness
import Selectors.Proofs.Compiled.WellFormed
import Selectors.Proofs.Compiled.Related
import Selectors.Proofs.Matching.Reentry
import Selectors.Proofs.Tree.Slots
import Selectors.Proofs.Query.Closest
import Selectors.Proofs.Syntax.Standing
import Selectors.Proofs.Query.Wrapping
import Selectors.Proofs.Tree.Acyclic
import Selectors.Proofs.Tree.Positions
import Selectors.Proofs.Tree.Walks
import Selectors.Proofs.Formula.Grammar
import Selectors.Proofs.Formula.Spelling
import Selectors.Proofs.Matching.Counting
import Selectors.Proofs.Compiled.Tracked
import Selectors.Proofs.Compiled.Forgiving
import Selectors.Proofs.Token.Covering
import Selectors.Proofs.Language.Ranges
import Selectors.Proofs.Control.Names
import Selectors.Proofs.Direction.Search
import Selectors.Proofs.Direction.Content
import Selectors.Proofs.Query.States
import Selectors.Proofs.Control.RadioGroups
import Selectors.Proofs.Tree.Attributes
import Selectors.Proofs.Query.Pointing
import Selectors.Proofs.Control.Options
import Selectors.Proofs.Text.Cutting
import Selectors.Proofs.Control.Moments
import Selectors.Proofs.Control.Fieldsets
import Selectors.Proofs.Control.Email
import Selectors.Proofs.Control.Containers
import Selectors.Proofs.Syntax.Quoting
import Selectors.Proofs.Compiled.Failing
import Selectors.Proofs.Syntax.Pairing
import Selectors.Proofs.Query.Naming
import Selectors.Proofs.Tree.Combinators
