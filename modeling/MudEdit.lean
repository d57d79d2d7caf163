import MudEdit.Main
import MudEdit.Node.Dump
import MudEdit.Proofs.Forest.Content
import MudEdit.Proofs.Forest.Mode
import MudEdit.Proofs.Forest.Run
import MudEdit.Proofs.Forest.Span
import MudEdit.Session.Dialogue
import MudEdit.Proofs.Cache.Alone
import MudEdit.Proofs.Cache.Closure
import MudEdit.Proofs.Cache.Discovery
import MudEdit.Proofs.Cache.Flight
import MudEdit.Proofs.Cache.Freshness
import MudEdit.Proofs.Grammar.Apart
import MudEdit.Proofs.Program.Alike
import MudEdit.Proofs.Program.Innermost
import MudEdit.Proofs.Cache.Settled
import MudEdit.Proofs.Program.Veil
import MudEdit.Proofs.Program.Agreement
import MudEdit.Proofs.Grammar.Proper
import MudEdit.Proofs.Program.Home
import MudEdit.Proofs.Program.Declared
import MudEdit.Proofs.Cache.Reload
import MudEdit.Proofs.Cache.Trail
import MudEdit.Proofs.Session.Run
import MudEdit.Proofs.Token.Rendering
import MudEdit.Proofs.Forest.Concatenation
import MudEdit.Proofs.Forest.Layout
import MudEdit.Proofs.Document.SemanticToken
import MudEdit.Proofs.Forest.Bounds
import MudEdit.Proofs.Forest.Semicolon
import MudEdit.Proofs.Forest.Enclosed
import MudEdit.Proofs.Grammar.Enclosed
import MudEdit.Proofs.Session.Loaded
import MudEdit.Proofs.Node.Brace
import MudEdit.Proofs.Session.Published
import MudEdit.Proofs.Session.Warning
import MudEdit.Proofs.Grammar.Brace
import MudEdit.Proofs.Program.Enclosure
import MudEdit.Proofs.Program.Unclosed
import MudEdit.Proofs.Program.Confined
import MudEdit.Proofs.Token.Spelled
import MudEdit.Proofs.Ty.Grouping
import MudEdit.Proofs.Ty.Spelling
import MudEdit.Proofs.Ty.Declaration
import MudEdit.Proofs.Ty.Assignable
import MudEdit.Proofs.Node.Formula
import MudEdit.Proofs.Grammar.Formula
import MudEdit.Proofs.Program.Inferred
import MudEdit.Proofs.Forest.Highlight
import MudEdit.Proofs.Text.Position
import MudEdit.Proofs.Token.Restart
import MudEdit.Proofs.Token.Literal
import MudEdit.Proofs.Forest.Path
import MudEdit.Proofs.Forest.Sequence
import MudEdit.Proofs.Workspace.Naming
import MudEdit.Proofs.Workspace.Within
import MudEdit.Proofs.Completion
import MudEdit.Proofs.Program.AtHome
import MudEdit.Proofs.Document.Hover
