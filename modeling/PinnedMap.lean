import PinnedMap.Main
import PinnedMap.Session.Host
import PinnedMap.Proofs.Page.Walk
import PinnedMap.Proofs.Page.Forest
import PinnedMap.Proofs.Page.Operation
import PinnedMap.Proofs.ImageMap.Editing
import PinnedMap.Proofs.ImageMap.Positions
import PinnedMap.Proofs.ImageMap.Attaching
import PinnedMap.Proofs.Session.Bus
import PinnedMap.Proofs.Session.Course
import PinnedMap.Proofs.Session.Following
import PinnedMap.Proofs.Page.Viewport
import PinnedMap.Proofs.ImageMap.Staging
import PinnedMap.Proofs.ImageMap.Life
import PinnedMap.Proofs.ImageMap.Fitting
import PinnedMap.Proofs.ImageMap.Loading
import PinnedMap.Proofs.ImageMap.Keeping
import PinnedMap.Proofs.ImageMap.Placing
import PinnedMap.Proofs.ImageMap.Overwriting
import PinnedMap.Proofs.Page.Gathering
import PinnedMap.Proofs.ImageMap.Building
import PinnedMap.Proofs.Replay.Stage
import PinnedMap.Proofs.Session.Settling
import PinnedMap.Proofs.Session.Stepping
import PinnedMap.Proofs.Session.Chronicle
import PinnedMap.Proofs.Session.Telling
import PinnedMap.Proofs.Session.Stopping
import PinnedMap.Proofs.Session.Parting
import PinnedMap.Proofs.Session.Owing
import PinnedMap.Proofs.Session.Bursting
import PinnedMap.Proofs.Replay.Run
import PinnedMap.Proofs.Text.Parts
import PinnedMap.Proofs.Json.Lines
import PinnedMap.Proofs.Json.Reading
import PinnedMap.Proofs.Decimal.Bits
import PinnedMap.Proofs.Decimal.Nearest
import PinnedMap.Proofs.Decimal.Shortest
import PinnedMap.Proofs.Decimal.Positional
import PinnedMap.Proofs.Decimal.Precision
import PinnedMap.Proofs.Decimal.Rounding
import PinnedMap.Proofs.Decimal.Arithmetic
import PinnedMap.Proofs.Decimal.Accuracy
import PinnedMap.Proofs.Page.Width
import PinnedMap.Proofs.Page.Height
import PinnedMap.Proofs.Page.Floating
import PinnedMap.Proofs.Page.Length
import PinnedMap.Proofs.ImageMap.Sizing
import PinnedMap.Proofs.ImageMap.Undoing
import PinnedMap.Proofs.Json.Number
import PinnedMap.Proofs.Json.Restoring
import PinnedMap.Proofs.Json.Record
import PinnedMap.Proofs.Json.Tagged
import PinnedMap.Proofs.Uuid
import PinnedMap.Proofs.Timestamp
import PinnedMap.Proofs.Json.Forms
import PinnedMap.Proofs.Json.Accuracy
import PinnedMap.Proofs.Json.Plan
import PinnedMap.Proofs.Toml.Number
import PinnedMap.Proofs.Toml.Quoting
import PinnedMap.Proofs.Toml.Value
import PinnedMap.Proofs.Toml.Document
import PinnedMap.Proofs.Files.Tree
import PinnedMap.Proofs.Settings.Toml
import PinnedMap.Proofs.Decimal.Closest
import PinnedMap.Proofs.Page.Measure
import PinnedMap.Proofs.Page.Atomicity
import PinnedMap.Proofs.Json.Finding
import PinnedMap.Proofs.Json.Agreement
import PinnedMap.Proofs.ImageMap.Scaling
import PinnedMap.Proofs.Json.Legible
import PinnedMap.Proofs.Picture.Source
import PinnedMap.Proofs.Json.Outcome
import PinnedMap.Proofs.ImageMap.Framing
import PinnedMap.Proofs.Decimal.Sign
import PinnedMap.Proofs.Page.Extent
import PinnedMap.Proofs.Page.Root
import PinnedMap.Proofs.ImageMap.Gallery
import PinnedMap.Proofs.Picture.Lengths
import PinnedMap.Proofs.Replay.Legibility
