import TagLogic.Text.Blank
import TagLogic.Text.Hidden
import TagLogic.Text.Pieces
import TagLogic.Text.Lines
import TagLogic.Text.ByteOrder
import TagLogic.Rule.Basic
import TagLogic.Rule.Mark
import TagLogic.Rule.Fault
import TagLogic.Rule.Reader
import TagLogic.Entity
import TagLogic.Rule.Ask
import TagLogic.Rule.Outline
import TagLogic.TagSet
import TagLogic.FormatError
import TagLogic.Actor
import TagLogic.Pattern.Segment
import TagLogic.Pattern.Basic
import TagLogic.Pattern.Render
import TagLogic.Log
import TagLogic.Fact
import TagLogic.Catalog.LoadError
import TagLogic.Catalog.Basic
import TagLogic.Catalog.Load
import TagLogic.Json.Basic
import TagLogic.Json.Escape
import TagLogic.Json.Reader
import TagLogic.Rule.Word
import TagLogic.Json.Rule
import TagLogic.Json.Actor
import TagLogic.Proofs.Text.Strip
import TagLogic.Proofs.Rule.Token
import TagLogic.Proofs.Rule.Step
import TagLogic.Proofs.Rule.Reading
import TagLogic.Proofs.Rule.Writing
import TagLogic.Proofs.Rule.Rejection
import TagLogic.Proofs.Rule.Continuation
import TagLogic.Proofs.Rule.Place
import TagLogic.Proofs.Rule.Visit
import TagLogic.Proofs.Rule.Limit
import TagLogic.Proofs.Rule.Spacing
import TagLogic.Proofs.Text.Line
import TagLogic.Proofs.Catalog.Loading
import TagLogic.Proofs.Text.Infix
import TagLogic.Proofs.Pattern.Slot
import TagLogic.Proofs.Catalog.Selection
import TagLogic.Proofs.Rule.Disclosure
import TagLogic.Proofs.Text.Joined
import TagLogic.Proofs.Text.Trimmed
import TagLogic.Proofs.Actor.Line
import TagLogic.Proofs.Catalog.Roster
import TagLogic.Proofs.Catalog.Events
import TagLogic.Proofs.Catalog.Concatenation
import TagLogic.Proofs.Catalog.LineEnd
import TagLogic.Proofs.Text.Hole
import TagLogic.Proofs.Pattern.Filling
import TagLogic.Proofs.Pattern.Mention
import TagLogic.Proofs.Pattern.Spelling
import TagLogic.Proofs.Rule.Algebra
import TagLogic.Proofs.Actor.Addition
import TagLogic.Proofs.Actor.Vocabulary
import TagLogic.Proofs.Rule.Polarity
import TagLogic.Proofs.Rule.Seam
import TagLogic.Proofs.Rule.Locality
import TagLogic.Proofs.Rule.Letters
import TagLogic.Proofs.Fact.Line
import TagLogic.Proofs.Json.Actor
import TagLogic.Proofs.Json.Rule
import TagLogic.Proofs.Message
import TagLogic.Proofs.Rule.TagList
