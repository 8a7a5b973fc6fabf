import Sable.Automaton.Language
import Sable.Command.FileTree
import Sable.Main
import Sable.Proofs.Printing.RoundTrip
import Sable.Proofs.Symbol.Interning
import Sable.Proofs.Analysis.TakenNames
import Sable.Proofs.Typing.Nodes
import Sable.Proofs.Token.StandardLexemes
import Sable.Proofs.Token.Tokenization
import Sable.Syntax.Walk
import Sable.Workspace.Basic
import Sable.Proofs.Analysis.Lexical
import Sable.Proofs.Analysis.Reusing
import Sable.Proofs.Grammar.Names
import Sable.Proofs.Grammar.Nesting
import Sable.Proofs.Grammar.Numbering
import Sable.Proofs.Typing.Spelling
import Sable.Proofs.Analysis.Annotating
import Sable.Proofs.Analysis.Bodies
import Sable.Proofs.Analysis.Correctness
import Sable.Proofs.Analysis.Finding
import Sable.Proofs.Analysis.Integrity
import Sable.Proofs.Analysis.Moving
import Sable.Proofs.Grammar.Lookahead
import Sable.Proofs.Grammar.Parallel
import Sable.Proofs.Grammar.Predicting
import Sable.Proofs.Grammar.Relocating
import Sable.Proofs.Grammar.ViablePrefix
import Sable.Proofs.Layout
import Sable.Proofs.Typing.World
import Sable.Proofs.Analysis.Describing
import Sable.Proofs.Analysis.Settling
import Sable.Proofs.Symbol.Stable
import Sable.Proofs.Workspace.Frozen
import Sable.Proofs.Workspace.Interning
import Sable.Proofs.Workspace.Naming
import Sable.Proofs.Token.Respelling
import Sable.Proofs.Workspace.Registration
import Sable.Proofs.Analysis.Reordering
import Sable.Proofs.Analysis.Sorting
import Sable.Proofs.Diagnostic
import Sable.Proofs.Automaton.Construction
import Sable.Proofs.Automaton.Literals
import Sable.Proofs.Automaton.LongestSign
import Sable.Proofs.Printing.Spacing
import Sable.Proofs.Analysis.Looping
import Sable.Proofs.Analysis.Jumping
import Sable.Proofs.Analysis.Initializing
import Sable.Proofs.Symbol.Importing
import Sable.Proofs.Analysis.Importing
import Sable.Proofs.Analysis.Separating
import Sable.Proofs.Analysis.Corresponding
import Sable.Proofs.Workspace.PointerTypes
import Sable.Proofs.Grammar.Numerals
import Sable.Proofs.Analysis.WrittenTypes
import Sable.Proofs.Source.Lines
import Sable.Proofs.Syntax.Walk
import Sable.Proofs.Grammar.Outlines
import Sable.Proofs.Token.Keywords
import Sable.Proofs.Grammar.Alternatives
import Sable.Proofs.Analysis.Visiting
