import HeaderGather.Main
import HeaderGather.Proofs.Delivery.Destinations
import HeaderGather.Proofs.Gathering.Fidelity
import HeaderGather.Proofs.BuildCache.Mining
import HeaderGather.Proofs.Catalog.History
import HeaderGather.Proofs.Scan.Tally
import HeaderGather.Proofs.Search.Directories
import HeaderGather.Proofs.Gathering.Balance
import HeaderGather.Proofs.Path.Ancestors
import HeaderGather.Proofs.Delivery.Footprint
import HeaderGather.Proofs.Gathering.Attempts
import HeaderGather.Proofs.Gathering.Preview
import HeaderGather.Proofs.Path.Spelling
import HeaderGather.Proofs.FileTree.Spelling
import HeaderGather.Proofs.Search.Composition
import HeaderGather.Proofs.Text.Decoding
import HeaderGather.Proofs.Scan.LineEnds
import HeaderGather.Proofs.Json.Quote
import HeaderGather.Proofs.Json.RoundTrip
import HeaderGather.Proofs.Catalog.Lossless
import HeaderGather.Proofs.Program.Effects
import HeaderGather.Proofs.FileTree.LinkFree
import HeaderGather.Proofs.Delivery.Mirror
import HeaderGather.Proofs.FileTree.Endings
import HeaderGather.Proofs.FileTree.Remaking
import HeaderGather.Proofs.Search.FirstMatch
import HeaderGather.Proofs.FileTree.Recopying
import HeaderGather.Proofs.Delivery.Again
import HeaderGather.Proofs.FileTree.Walking
import HeaderGather.Proofs.Scan.Selection
import HeaderGather.Proofs.Scan.CutShort
import HeaderGather.Proofs.Scan.Rescanning
import HeaderGather.Proofs.Directive.Slices
import HeaderGather.Proofs.Scan.Trailing
import HeaderGather.Proofs.Program.Overriding
