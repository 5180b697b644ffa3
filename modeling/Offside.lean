import Offside.Text.Class
import Offside.Text.Bytes
import Offside.Text.Line
import Offside.Text.Quoted
import Offside.Text.Utf8
import Offside.Token.Basic
import Offside.Layout.Blocks
import Offside.Reader.Command
import Offside.Diagnostic.Basic
import Offside.Sink
import Offside.Lexer.Basic
import Offside.Lexer.Progress
import Offside.Lexer.Run
import Offside.Path
import Offside.Diagnostic.Render
import Offside.Relay
import Offside.Store.Files
import Offside.Tokens
import Offside.Outline
import Offside.Data
import Offside.Proofs.EndOfStream
import Offside.Proofs.Coverage
import Offside.Proofs.LongestMatch
import Offside.Proofs.BlockLayout
import Offside.Proofs.StreamGrammar
import Offside.Proofs.HollowLines
import Offside.Proofs.UnevenLines
import Offside.Proofs.Utf8
import Offside.Proofs.Rounding
import Offside.Proofs.Calls
import Offside.Proofs.Explanations
import Offside.Proofs.Producers
import Offside.Proofs.Interleavings
import Offside.Proofs.Delivery
import Offside.Proofs.LineTable
import Offside.Proofs.Placement
import Offside.Proofs.Locations
import Offside.Proofs.Lexemes
import Offside.Proofs.LineBreakStyles
import Offside.Proofs.Seams
import Offside.Proofs.Printing
import Offside.Proofs.Lookups
import Offside.Proofs.Decoding
import Offside.Proofs.LineRanges
import Offside.Proofs.Markers
import Offside.Proofs.Copies
import Offside.Proofs.FaultlessTexts
import Offside.Proofs.Spacing
import Offside.Proofs.BlankLines
import Offside.Proofs.StrayCharacters
import Offside.Proofs.StringLiterals
import Offside.Proofs.Levels
import Offside.Proofs.Numerals
import Offside.Proofs.Quotation
import Offside.Proofs.QuotedLiterals
import Offside.Proofs.Escapes
import Offside.Proofs.LastAdditions
import Offside.Proofs.HeldText
