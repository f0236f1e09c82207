import SymbolFont.CommandLine.Tool
import SymbolFont.Edit.Standard
import SymbolFont.Font.Event
import SymbolFont.Layout.Standard
import SymbolFont.Main
import SymbolFont.Markup.Printer
import SymbolFont.Markup.Reader
import SymbolFont.Toml.Reader
import SymbolFont.Proofs.Edit.Standard
import SymbolFont.Proofs.Number.Bits
import SymbolFont.Proofs.Number.Nearest
import SymbolFont.Proofs.Number.Shortest
import SymbolFont.Proofs.Number.Text
import SymbolFont.Proofs.Number.Integer
import SymbolFont.Proofs.Number.Written
import SymbolFont.Proofs.Glyph.Record
import SymbolFont.Proofs.Font.Reload
import SymbolFont.Proofs.Edit.Reload
import SymbolFont.Proofs.Markup.Encoding
import SymbolFont.Proofs.Markup.Normal
import SymbolFont.Proofs.Markup.Reading
import SymbolFont.Proofs.Markup.Pieces
import SymbolFont.Proofs.Markup.RoundTrip
import SymbolFont.Proofs.Markup.Demands
import SymbolFont.Proofs.Markup.LocalName
import SymbolFont.Proofs.Markup.Sound
import SymbolFont.Proofs.Markup.Values
import SymbolFont.Proofs.Glyph.Kept
import SymbolFont.Proofs.Text.Sink
import SymbolFont.Proofs.Font.Text
import SymbolFont.Proofs.Edit.Names
import SymbolFont.Proofs.Layout.Numbering
import SymbolFont.Proofs.Edit.Order
import SymbolFont.Proofs.Layout.Definitions
import SymbolFont.Proofs.Text.Reader
import SymbolFont.Proofs.Layout.Listing
import SymbolFont.Proofs.Edit.Distinct
import SymbolFont.Proofs.Markup.Place
import SymbolFont.Proofs.Font.Frame
import SymbolFont.Proofs.Font.Authority
import SymbolFont.Proofs.Edit.Classed
import SymbolFont.Proofs.Text.Integer
import SymbolFont.Proofs.Layout.Coordinate
import SymbolFont.Proofs.Layout.Offset
import SymbolFont.Proofs.CommandLine.Delivery
import SymbolFont.Proofs.Markup.Marks
import SymbolFont.Proofs.Font.Passing
import SymbolFont.Proofs.Edit.Changes
import SymbolFont.Proofs.Markup.Arrangement
import SymbolFont.Proofs.Font.Defects
import SymbolFont.Proofs.Glyph.Geometry
import SymbolFont.Proofs.Edit.Scaled
import SymbolFont.Proofs.Edit.Hollow
import SymbolFont.Proofs.Text.Writing
import SymbolFont.Proofs.Layout.Writing
import SymbolFont.Proofs.Markup.Writing
import SymbolFont.Proofs.Glyph.Marker
import SymbolFont.Proofs.Markup.Visit
import SymbolFont.Proofs.Glyph.CharMap
