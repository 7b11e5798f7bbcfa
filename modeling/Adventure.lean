import Adventure.Basefile
import Adventure.Bytes.Cursor
import Adventure.Bytes.Field
import Adventure.Bytes.Hex
import Adventure.CodePage.Language
import Adventure.CodePage.Page
import Adventure.CodePage.Windows
import Adventure.Container
import Adventure.Game.Error
import Adventure.Game.Extract
import Adventure.Game.Folder
import Adventure.Game.Folder.Path
import Adventure.Game.Folder.Tree
import Adventure.Game.Load
import Adventure.Game.Options
import Adventure.Game.Rebuild
import Adventure.Game.Session
import Adventure.Game.Settings
import Adventure.Game.Variant
import Adventure.Instruction.Opcode
import Adventure.Instruction.Set
import Adventure.Instruction.Shipped
import Adventure.Listing.Assemble
import Adventure.Listing.Error
import Adventure.Listing.Pool
import Adventure.Listing.Print
import Adventure.Listing.Source
import Adventure.Listing.Token
import Adventure.Main
import Adventure.Script.Decode
import Adventure.Script.DecodeError
import Adventure.Script.Label
import Adventure.Script.Ranges
import Adventure.Script.Reference
import Adventure.Script.Symbols
import Adventure.Script.Table
import Adventure.Script.Voices
import Adventure.Slot
import Adventure.Soundbank
import Adventure.Strings.Document
import Adventure.Strings.Error
import Adventure.Strings.Escape
import Adventure.Strings.Index
import Adventure.Strings.Table
import Adventure.Text.Blank
import Adventure.Text.Lines
import Adventure.Text.Numeral
import Adventure.Text.Pieces
import Adventure.Text.Printed
import Adventure.Text.Quoted
import Adventure.Text.Toml
import Adventure.Text.Toml.Strings
import Adventure.Text.Toml.Table
import Adventure.Text.Utf8
import Adventure.World.Decode
import Adventure.World.Encode
import Adventure.World.Error
import Adventure.World.Item
import Adventure.World.Parse
import Adventure.World.Render
import Adventure.Proofs.Bytes.Reading
import Adventure.Proofs.Bytes.Text
import Adventure.Proofs.Bytes.Operations
import Adventure.Proofs.Bytes.Fields
import Adventure.Proofs.Bytes.Rewriting
import Adventure.Proofs.Script.Index
import Adventure.Proofs.Script.Starts
import Adventure.Proofs.Script.Writing
import Adventure.Proofs.Script.Rewriting
import Adventure.Proofs.Script.Placement
import Adventure.Proofs.Script.Ranges
import Adventure.Proofs.Text.Lines
import Adventure.Proofs.Text.Numeral
import Adventure.Proofs.Listing.Token
import Adventure.Proofs.Listing.Printed
import Adventure.Proofs.Listing.Parsing
import Adventure.Proofs.Listing.Layout
import Adventure.Proofs.Listing.References
import Adventure.Proofs.Listing.Meaning
import Adventure.Proofs.Listing.Linked
import Adventure.Proofs.Listing.Declared
import Adventure.Proofs.Listing.Assembled
import Adventure.Proofs.Listing.Operands
import Adventure.Proofs.Listing.RoundTrip
import Adventure.Proofs.Listing.Ranges
import Adventure.Proofs.CodePage.Page
import Adventure.Proofs.CodePage.Reversible
import Adventure.Proofs.Strings.Document
import Adventure.Proofs.Strings.Table
import Adventure.Proofs.Container
import Adventure.Proofs.Container.Classic
import Adventure.Proofs.Container.RoundTrip
import Adventure.Proofs.Basefile
import Adventure.Proofs.Basefile.Session
import Adventure.Proofs.World.Spelling
import Adventure.Proofs.World.Writing
import Adventure.Proofs.World.Parsed
import Adventure.Proofs.World.Encoding
import Adventure.Proofs.World.Rewriting
import Adventure.Proofs.Text.Words
import Adventure.Proofs.World.Fields
import Adventure.Proofs.World.Document
import Adventure.Proofs.Game.Sections
import Adventure.Proofs.Game.Texts
import Adventure.Proofs.Game.Assembled
import Adventure.Proofs.Game.Assembling
import Adventure.Proofs.Game.Kept
import Adventure.Proofs.Game.Editing
import Adventure.Proofs.Game.Loaded
import Adventure.Proofs.Game.Unedited
import Adventure.Proofs.Game.Reloaded
import Adventure.Proofs.Game.RoundTrip
import Adventure.Proofs.Game.Slots
import Adventure.Proofs.Game.Parts
import Adventure.Proofs.Instruction.Layer
import Adventure.Proofs.Game.Edited
import Adventure.Proofs.Game.References
import Adventure.Proofs.Game.Resplit
import Adventure.Proofs.Game.Unchanged
import Adventure.Proofs.Game.Installed
import Adventure.Proofs.Game.Listed
import Adventure.Proofs.Game.StringNumbers
import Adventure.Proofs.Strings.Index
import Adventure.Proofs.Game.TextRanges
import Adventure.Proofs.Listing.Runs
import Adventure.Proofs.Listing.Faults
import Adventure.Proofs.Game.KnownNumbers
import Adventure.Proofs.Listing.Voiced
import Adventure.Proofs.Game.Damaged
import Adventure.Proofs.Instruction.Mnemonics
import Adventure.Proofs.Container.Index
import Adventure.Proofs.Bytes.Extended
import Adventure.Proofs.Script.Truncated
import Adventure.Proofs.Listing.Misplaced
import Adventure.Proofs.Soundbank
import Adventure.Proofs.Game.Interleaved
import Adventure.Proofs.Listing.Quoting
import Adventure.Proofs.Listing.Numbering
import Adventure.Proofs.Listing.Comments
import Adventure.Proofs.Text.Names
import Adventure.Proofs.Strings.Unescape
import Adventure.Proofs.Strings.IndexRewriting
import Adventure.Proofs.Script.IndexRewriting
import Adventure.Proofs.Script.Voices
import Adventure.Proofs.Game.Voices
