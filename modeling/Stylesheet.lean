import Stylesheet.Number.Reading
import Stylesheet.Sheet.Blocks
import Stylesheet.Sheet.Path
import Stylesheet.Sheet.Values
import Stylesheet.Proofs.Cascade.Precedence
import Stylesheet.Proofs.Cascade.Order
import Stylesheet.Proofs.Cascade.Effect
import Stylesheet.Proofs.Declaration
import Stylesheet.Proofs.Shorthand.Compaction
import Stylesheet.Proofs.Shorthand.Expansion
import Stylesheet.Proofs.Value.Equality
import Stylesheet.Proofs.Shorthand.Part
import Stylesheet.Proofs.Shorthand.Words
import Stylesheet.Proofs.Value.Series
import Stylesheet.Proofs.Shorthand.Background
import Stylesheet.Proofs.Shorthand.ListStyle
import Stylesheet.Proofs.Shorthand.Font
import Stylesheet.Proofs.Shorthand.Fitting
import Stylesheet.Proofs.Shorthand.RoundTrip
import Stylesheet.Proofs.Shorthand.Border
import Stylesheet.Proofs.Shorthand.Replacement
import Stylesheet.Proofs.Selector.Nesting
import Stylesheet.Proofs.Selector.Units
import Stylesheet.Proofs.Selector.Grammar
import Stylesheet.Proofs.Selector.Scanning
import Stylesheet.Proofs.Selector.Specificity
import Stylesheet.Proofs.Text.Blank
import Stylesheet.Proofs.Selector.Listing
import Stylesheet.Proofs.Selector.Filter
import Stylesheet.Proofs.Selector.OpenArgument
import Stylesheet.Proofs.Selector.Escaping
import Stylesheet.Proofs.Shorthand.Firing
import Stylesheet.Proofs.Shorthand.Carriers
import Stylesheet.Proofs.Shorthand.Recovery
import Stylesheet.Proofs.Cascade.Competitors
import Stylesheet.Proofs.Cascade.Distinct
import Stylesheet.Proofs.Sheet.Frame
import Stylesheet.Proofs.Sheet.Merging
import Stylesheet.Proofs.Sheet.Search
import Stylesheet.Proofs.Shorthand.Box
import Stylesheet.Proofs.Number.Order
import Stylesheet.Proofs.Color.Keyed
import Stylesheet.Proofs.Color.State
import Stylesheet.Proofs.Color.Keyword
import Stylesheet.Proofs.Color.Hex
import Stylesheet.Proofs.Color.Views
import Stylesheet.Proofs.Shorthand.Completion
import Stylesheet.Proofs.Shorthand.Completion.Background
import Stylesheet.Proofs.Shorthand.Completion.ListStyle
import Stylesheet.Proofs.Shorthand.Completion.Font
import Stylesheet.Proofs.Selector.Weight
import Stylesheet.Proofs.Selector.Namespace
import Stylesheet.Proofs.Shorthand.Slots
import Stylesheet.Proofs.Shorthand.Arrangement
import Stylesheet.Proofs.Shorthand.Overwriting
import Stylesheet.Proofs.Text.Bytes
import Stylesheet.Proofs.Color.Spelling
import Stylesheet.Proofs.Color.Cuts
import Stylesheet.Proofs.Color.Constructors
import Stylesheet.Proofs.Color.Lookup
import Stylesheet.Proofs.Shorthand.Families
import Stylesheet.Proofs.Text.Quoting
import Stylesheet.Proofs.Value.Quotation
import Stylesheet.Proofs.Sheet.Statements
import Stylesheet.Proofs.Sheet.Roots
import Stylesheet.Proofs.Cascade.Standings
import Stylesheet.Proofs.Selector.Commas
import Stylesheet.Proofs.Shorthand.Filling
