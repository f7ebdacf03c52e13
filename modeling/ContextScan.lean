import ContextScan.Cursor.Recorder
import ContextScan.Json.Codec
import ContextScan.Sample
import ContextScan.SavedState
import ContextScan.Scan
import ContextScan.Proofs.Reading
import ContextScan.Proofs.Grammar
import ContextScan.Proofs.Place
import ContextScan.Proofs.Request
import ContextScan.Proofs.Course
import ContextScan.Proofs.Tiling
import ContextScan.Proofs.Boundary
import ContextScan.Proofs.Handling
import ContextScan.Proofs.Exchange
import ContextScan.Proofs.Translation
import ContextScan.Proofs.Succession
import ContextScan.Proofs.Rendering
import ContextScan.Proofs.Growth
import ContextScan.Proofs.Bounds
import ContextScan.Proofs.Log
import ContextScan.Proofs.LineEnd
import ContextScan.Proofs.Lines
import ContextScan.Proofs.Shrinkage
import ContextScan.Proofs.Priority
import ContextScan.Proofs.Extent
import ContextScan.Proofs.History
import ContextScan.Proofs.Locality
import ContextScan.Proofs.Encoding
import ContextScan.Proofs.Relevance
import ContextScan.Proofs.Restating
import ContextScan.Proofs.Storage
