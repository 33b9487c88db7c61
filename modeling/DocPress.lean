import DocPress.Arena.Basic
import DocPress.Arena.Expand
import DocPress.Arena.Merge
import DocPress.Command.Arguments
import DocPress.Command.Basic
import DocPress.Command.Run
import DocPress.Disk.Basic
import DocPress.Disk.Path
import DocPress.Docstring.Basic
import DocPress.Docstring.Keyword
import DocPress.Docstring.Printer
import DocPress.Docstring.Reader
import DocPress.Error
import DocPress.Grid.Basic
import DocPress.Grid.Html
import DocPress.Grid.Plain
import DocPress.Main
import DocPress.Markdown.Anchor
import DocPress.Markdown.Block
import DocPress.Markdown.Blocks
import DocPress.Markdown.Collection
import DocPress.Markdown.Contents
import DocPress.Markdown.Emphasis
import DocPress.Markdown.Fence
import DocPress.Markdown.Heading
import DocPress.Markdown.Options
import DocPress.Markdown.Page
import DocPress.Markdown.PipeTable
import DocPress.NameMap.Basic
import DocPress.NameMap.Names
import DocPress.Proofs.Arena.Copies
import DocPress.Proofs.Arena.Expansion
import DocPress.Proofs.Arena.Fixpoint
import DocPress.Proofs.Arena.Forest
import DocPress.Proofs.Arena.Frame
import DocPress.Proofs.Arena.Layout
import DocPress.Proofs.Arena.MergedTrees
import DocPress.Proofs.Arena.Merging
import DocPress.Proofs.Arena.Splice
import DocPress.Proofs.Arena.Standing
import DocPress.Proofs.Arena.Storage
import DocPress.Proofs.Arena.Unfolding
import DocPress.Proofs.Arena.Walk
import DocPress.Proofs.Command.Contents
import DocPress.Proofs.Command.Docstring
import DocPress.Proofs.Disk.Files
import DocPress.Proofs.Disk.Names
import DocPress.Proofs.Docstring.Definitions
import DocPress.Proofs.Docstring.Headings
import DocPress.Proofs.Docstring.Indentation
import DocPress.Proofs.Docstring.Keywords
import DocPress.Proofs.Docstring.Paragraphs
import DocPress.Proofs.Docstring.RoundTrip
import DocPress.Proofs.Docstring.Runs
import DocPress.Proofs.Docstring.Variables
import DocPress.Proofs.Docstring.Verbatim
import DocPress.Proofs.Grid.Alignment
import DocPress.Proofs.Grid.Html
import DocPress.Proofs.Grid.Plain
import DocPress.Proofs.Grid.Views
import DocPress.Proofs.Lists
import DocPress.Proofs.Markdown.Anchors
import DocPress.Proofs.Markdown.Blocks
import DocPress.Proofs.Markdown.Chunks
import DocPress.Proofs.Markdown.Contents
import DocPress.Proofs.Markdown.Documents
import DocPress.Proofs.Markdown.Emphasis
import DocPress.Proofs.Markdown.FencedCode
import DocPress.Proofs.Markdown.Insertion
import DocPress.Proofs.Markdown.LinkLines
import DocPress.Proofs.Markdown.Links
import DocPress.Proofs.Markdown.ListBlocks
import DocPress.Proofs.Markdown.Listing
import DocPress.Proofs.Markdown.Marked
import DocPress.Proofs.Markdown.Passages
import DocPress.Proofs.Markdown.PipeTable
import DocPress.Proofs.Markdown.PrintedTable
import DocPress.Proofs.Markdown.Rereading
import DocPress.Proofs.Markdown.Runs
import DocPress.Proofs.Markdown.Segments
import DocPress.Proofs.Markdown.TableRows
import DocPress.Proofs.Markdown.TagBalance
import DocPress.Proofs.NameMap.Inversion
import DocPress.Proofs.NameMap.Lookup
import DocPress.Proofs.Settings.Documents
import DocPress.Proofs.Settings.OutputPath
import DocPress.Proofs.Settings.Storage
import DocPress.Proofs.Text.Case
import DocPress.Proofs.Text.Dedent
import DocPress.Proofs.Text.Ends
import DocPress.Proofs.Text.Escape
import DocPress.Proofs.Text.Gaps
import DocPress.Proofs.Text.Lines
import DocPress.Proofs.Text.Margin
import DocPress.Proofs.Text.Markup
import DocPress.Proofs.Text.Occurrences
import DocPress.Proofs.Text.Replace
import DocPress.Proofs.Text.Rows
import DocPress.Proofs.Text.Words
import DocPress.Proofs.Toml.Documents
import DocPress.Proofs.Toml.Numbers
import DocPress.Proofs.Toml.Quoted
import DocPress.Proofs.Toml.Values
import DocPress.Proofs.Tree.Addresses
import DocPress.Proofs.Tree.Content
import DocPress.Proofs.Tree.DashLines
import DocPress.Proofs.Tree.DashList
import DocPress.Proofs.Tree.Drawing
import DocPress.Proofs.Tree.DrawnRows
import DocPress.Proofs.Tree.Html
import DocPress.Proofs.Tree.ItemLines
import DocPress.Proofs.Tree.Ladder
import DocPress.Proofs.Tree.Levels
import DocPress.Proofs.Tree.Moved
import DocPress.Proofs.Tree.NestedLists
import DocPress.Proofs.Tree.Nodes
import DocPress.Proofs.Tree.Parents
import DocPress.Proofs.Tree.Shifted
import DocPress.Proofs.Tree.Termination
import DocPress.Settings.Basic
import DocPress.Settings.Decode
import DocPress.Settings.Encode
import DocPress.Settings.Expand
import DocPress.Settings.Storage
import DocPress.Text.Basic
import DocPress.Text.Blank
import DocPress.Text.Case
import DocPress.Text.Case.Table
import DocPress.Text.Class
import DocPress.Text.Class.Table
import DocPress.Text.Escape
import DocPress.Text.Lines
import DocPress.Text.Margin
import DocPress.Text.Search
import DocPress.Toml.Quoted
import DocPress.Toml.Reader
import DocPress.Toml.Scalar
import DocPress.Toml.Table
import DocPress.Toml.Value
import DocPress.Toml.Writer
import DocPress.Tree.Basic
import DocPress.Tree.Drawing
import DocPress.Tree.Html
import DocPress.Tree.Outline
