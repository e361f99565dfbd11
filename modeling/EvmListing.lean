import EvmListing.Main
import EvmListing.Decoder.Session
import EvmListing.Files.Tree
import EvmListing.Walk
import EvmListing.Proofs.Decoder.Accounting
import EvmListing.Proofs.Decoder.Assembly
import EvmListing.Proofs.Decoder.Boundary
import EvmListing.Proofs.Metadata.Append
import EvmListing.Proofs.Decoder.Cursor
import EvmListing.Proofs.Report.Pipeline
import EvmListing.Proofs.Json.Grammar
import EvmListing.Proofs.Json.Unambiguity
import EvmListing.Proofs.Json.Rendering
import EvmListing.Proofs.Text.Order
import EvmListing.Proofs.Json.Fields
import EvmListing.Proofs.Report.Json
import EvmListing.Proofs.Decoder.Resumption
import EvmListing.Proofs.Text.Lines
import EvmListing.Proofs.Mnemonic
import EvmListing.Proofs.Report.Trace
import EvmListing.Proofs.Size
import EvmListing.Proofs.CommandLine.Parts
import EvmListing.Proofs.CommandLine.Parsing
import EvmListing.Proofs.CommandLine.Outcome
import EvmListing.Proofs.Report.Log
import EvmListing.Proofs.Text.Comments
import EvmListing.Proofs.CommandLine.Printing
import EvmListing.Proofs.Cbor.Reading
import EvmListing.Proofs.Metadata.Removal
import EvmListing.Proofs.Metadata.Latest
import EvmListing.Proofs.Report.Agreement
import EvmListing.Proofs.Decoder.FaultText
import EvmListing.Proofs.Report.Determinacy
import EvmListing.Proofs.Cbor.Extent
import EvmListing.Proofs.Metadata.DeclaredLength
import EvmListing.Proofs.Metadata.Window
import EvmListing.Proofs.Metadata.Peeling
import EvmListing.Proofs.Hex
import EvmListing.Proofs.Walk
import EvmListing.Proofs.Json.Numbers
import EvmListing.Proofs.Json.Skipping
import EvmListing.Proofs.Settings.Members
import EvmListing.Proofs.Settings.Reading
import EvmListing.Proofs.Settings.RoundTrip
import EvmListing.Proofs.Immediate
