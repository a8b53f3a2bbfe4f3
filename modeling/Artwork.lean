import Artwork.Main
import Artwork.Proofs.Import.Conservation
import Artwork.Proofs.Graphics.Nesting
import Artwork.Proofs.Import.Nesting
import Artwork.Proofs.Import.Cancellation
import Artwork.Proofs.Import.Extension
import Artwork.Proofs.Decimal.Rounding
import Artwork.Proofs.Decimal.Value
import Artwork.Proofs.Decimal.Widths
import Artwork.Proofs.Import.Decoding
import Artwork.Proofs.Layer.Naming
import Artwork.Proofs.Path.Continuity
import Artwork.Proofs.Import.Clipping
import Artwork.Proofs.Import.Recognition
import Artwork.Proofs.Operator.Patterns
import Artwork.Proofs.Path.Transformation
import Artwork.Proofs.Outline.Rings
import Artwork.Proofs.Layer.Shape
import Artwork.Proofs.Layer.Pruning
import Artwork.Proofs.Layer.Agreement
import Artwork.Proofs.Import.Shape
import Artwork.Proofs.Decimal.Distance
import Artwork.Proofs.Outline.Vertices
import Artwork.Proofs.Import.Handover
import Artwork.Proofs.Path.Drafts
import Artwork.Proofs.Import.Invisible
import Artwork.Proofs.Import.Commuting
import Artwork.Proofs.Graphics.Composition
import Artwork.Proofs.Plane.Box
import Artwork.Proofs.Plane.Curve
import Artwork.Proofs.Plane.Shoelace
import Artwork.Proofs.Outline.Stroke
import Artwork.Proofs.Outline.Thinning
import Artwork.Proofs.Drill
import Artwork.Proofs.Import.Drills
