import ThemeCss.Artifacts
import ThemeCss.Build
import ThemeCss.Catalog
import ThemeCss.Color
import ThemeCss.Command
import ThemeCss.Digest.Blake3
import ThemeCss.FileTree.Access
import ThemeCss.FileTree.Basic
import ThemeCss.FileTree.Failure
import ThemeCss.FileTree.Node
import ThemeCss.FileTree.Path
import ThemeCss.Json.Container
import ThemeCss.Json.Escape
import ThemeCss.Json.Fault
import ThemeCss.Json.Numeral
import ThemeCss.Json.Reader
import ThemeCss.Json.Record
import ThemeCss.Json.Scalar
import ThemeCss.Json.Skip
import ThemeCss.Json.Writer
import ThemeCss.Length
import ThemeCss.Main
import ThemeCss.Number.Binary64
import ThemeCss.Number.Decimal
import ThemeCss.Number.HalfEven
import ThemeCss.Number.Shortest
import ThemeCss.Proofs.Build.Interleaving
import ThemeCss.Proofs.Color.Order
import ThemeCss.Proofs.Color.Parsed
import ThemeCss.Proofs.FileTree.Directories
import ThemeCss.Proofs.FileTree.Writes
import ThemeCss.Proofs.Json.Double
import ThemeCss.Proofs.Json.Finite
import ThemeCss.Proofs.Json.Grammar
import ThemeCss.Proofs.Json.Members
import ThemeCss.Proofs.Json.Numeral
import ThemeCss.Proofs.Json.Passed
import ThemeCss.Proofs.Json.Steady
import ThemeCss.Proofs.Json.Unordered
import ThemeCss.Proofs.Json.Written
import ThemeCss.Proofs.Json.Yields
import ThemeCss.Proofs.Minified.Comments
import ThemeCss.Proofs.Minified.Escaped
import ThemeCss.Proofs.Minified.Kept
import ThemeCss.Proofs.Minified.Normal
import ThemeCss.Proofs.Minified.Quoted
import ThemeCss.Proofs.Minified.Respaced
import ThemeCss.Proofs.Minified.Settled
import ThemeCss.Proofs.Minified.Shut
import ThemeCss.Proofs.Minified.Size
import ThemeCss.Proofs.Minified.Squeezed
import ThemeCss.Proofs.Number.Canonical
import ThemeCss.Proofs.Number.LastPlace
import ThemeCss.Proofs.Number.Nearest
import ThemeCss.Proofs.Number.Places
import ThemeCss.Proofs.Number.Rational
import ThemeCss.Proofs.Number.Saturated
import ThemeCss.Proofs.Number.Thousandths
import ThemeCss.Proofs.Report.Ratio
import ThemeCss.Proofs.Report.Table
import ThemeCss.Proofs.Sheet.Arrangement
import ThemeCss.Proofs.Sheet.Cascade
import ThemeCss.Proofs.Sheet.ClassName
import ThemeCss.Proofs.Sheet.Classes
import ThemeCss.Proofs.Sheet.Decoded
import ThemeCss.Proofs.Sheet.Dense
import ThemeCss.Proofs.Sheet.Identifier
import ThemeCss.Proofs.Sheet.Lines
import ThemeCss.Proofs.Sheet.ReadBack
import ThemeCss.Proofs.Sheet.Responsive
import ThemeCss.Proofs.Sheet.Section
import ThemeCss.Proofs.Sheet.Selectors
import ThemeCss.Proofs.Sheet.Titled
import ThemeCss.Proofs.Sheet.Variables
import ThemeCss.Proofs.Text.Characters
import ThemeCss.Proofs.Theme.Artifacts
import ThemeCss.Proofs.Theme.Borders
import ThemeCss.Proofs.Theme.Cascade
import ThemeCss.Proofs.Theme.Classes
import ThemeCss.Proofs.Theme.Columns
import ThemeCss.Proofs.Theme.Copies
import ThemeCss.Proofs.Theme.DarkPalette
import ThemeCss.Proofs.Theme.Diagnostics
import ThemeCss.Proofs.Theme.Fonts
import ThemeCss.Proofs.Theme.Gathered
import ThemeCss.Proofs.Theme.Harmless
import ThemeCss.Proofs.Theme.Lengths
import ThemeCss.Proofs.Theme.Measures
import ThemeCss.Proofs.Theme.Mentions
import ThemeCss.Proofs.Theme.Names
import ThemeCss.Proofs.Theme.Palette
import ThemeCss.Proofs.Theme.Printed
import ThemeCss.Proofs.Theme.Rearranged
import ThemeCss.Proofs.Theme.References
import ThemeCss.Proofs.Theme.Rejected
import ThemeCss.Proofs.Theme.Report
import ThemeCss.Proofs.Theme.RoundTrip
import ThemeCss.Proofs.Theme.Rules
import ThemeCss.Proofs.Theme.Sections
import ThemeCss.Proofs.Theme.Selectors
import ThemeCss.Proofs.Theme.Supplied
import ThemeCss.Proofs.Theme.Texts
import ThemeCss.Proofs.Theme.Uncommented
import ThemeCss.Proofs.Theme.Values
import ThemeCss.Proofs.Vendor.Expansion
import ThemeCss.Proofs.Vendor.Inserted
import ThemeCss.Proofs.Vendor.Lines
import ThemeCss.Proofs.Vendor.Locality
import ThemeCss.Proofs.Vendor.Match
import ThemeCss.Proofs.Vendor.Quoted
import ThemeCss.Proofs.Vendor.Reached
import ThemeCss.Report
import ThemeCss.Section.Components
import ThemeCss.Section.Page
import ThemeCss.Section.Palette
import ThemeCss.Section.Utilities
import ThemeCss.Sheet.Basic
import ThemeCss.Sheet.ClassName
import ThemeCss.Sheet.Layout
import ThemeCss.Sheet.Minified
import ThemeCss.Sheet.Utility
import ThemeCss.Sheet.Vendor
import ThemeCss.Text.Characters
import ThemeCss.Text.Formless
import ThemeCss.Text.Pieces
import ThemeCss.Text.Quoted
import ThemeCss.Theme.Basic
import ThemeCss.Theme.Diagnostic
import ThemeCss.Theme.Error
import ThemeCss.Theme.Reading
import ThemeCss.Theme.Writing
import ThemeCss.ValueError
