import LiveCollections.Capabilities
import LiveCollections.Comparator
import LiveCollections.Decimal.Binary
import LiveCollections.Decimal.Notation
import LiveCollections.Decimal.Reading
import LiveCollections.Decimal.Shortest
import LiveCollections.Error
import LiveCollections.Event
import LiveCollections.Hash.Element
import LiveCollections.Hash.Mix
import LiveCollections.Index.BinarySearch
import LiveCollections.Index.Strategy
import LiveCollections.Json.Element
import LiveCollections.Json.Numeral
import LiveCollections.Json.Quoted
import LiveCollections.Json.Reader
import LiveCollections.Multimap.Contents
import LiveCollections.Multimap.Encoding
import LiveCollections.Multimap.Listing
import LiveCollections.Multimap.Operations
import LiveCollections.Multimap.Parallel
import LiveCollections.Multimap.Snapshot
import LiveCollections.Multimap.Store
import LiveCollections.Multimap.ValueSet
import LiveCollections.Multimap.View
import LiveCollections.Proofs.Comparator
import LiveCollections.Proofs.Index.Positions
import LiveCollections.Proofs.Index.Search
import LiveCollections.Proofs.Multimap.Attachment
import LiveCollections.Proofs.Multimap.Changes
import LiveCollections.Proofs.Multimap.Creation
import LiveCollections.Proofs.Multimap.Decoding
import LiveCollections.Proofs.Multimap.Effect
import LiveCollections.Proofs.Multimap.Equality
import LiveCollections.Proofs.Multimap.Interleaving
import LiveCollections.Proofs.Multimap.Isolation
import LiveCollections.Proofs.Multimap.Maintenance
import LiveCollections.Proofs.Multimap.Reading
import LiveCollections.Proofs.Multimap.Refinement
import LiveCollections.Proofs.Multimap.Relation
import LiveCollections.Proofs.Multimap.Resizing
import LiveCollections.Proofs.Multimap.Restoring
import LiveCollections.Proofs.Multimap.Serializing
import LiveCollections.Proofs.Multimap.Session
import LiveCollections.Proofs.Multimap.Sweeping
import LiveCollections.Proofs.Multimap.ValueSet
import LiveCollections.Proofs.Multimap.Walking
import LiveCollections.Proofs.Multimap.WellFormed
import LiveCollections.Proofs.Run
import LiveCollections.Proofs.Storage.Commands
import LiveCollections.Proofs.Storage.Confinement
import LiveCollections.Proofs.Storage.Contents
import LiveCollections.Proofs.Storage.Edits
import LiveCollections.Proofs.Storage.Equality
import LiveCollections.Proofs.Storage.Growth
import LiveCollections.Proofs.Storage.InsertionOrder
import LiveCollections.Proofs.Storage.Iteration
import LiveCollections.Proofs.Storage.Keys
import LiveCollections.Proofs.Storage.Lawless
import LiveCollections.Proofs.Storage.Linear
import LiveCollections.Proofs.Storage.Narrowing
import LiveCollections.Proofs.Storage.OrderedMap
import LiveCollections.Proofs.Storage.Recovery
import LiveCollections.Proofs.Storage.Reference
import LiveCollections.Proofs.Storage.RunningIterators
import LiveCollections.Proofs.Storage.SelfExtension
import LiveCollections.Proofs.Storage.Sorted
import LiveCollections.Proofs.Storage.Variants
import LiveCollections.Proofs.Storage.WindowIterators
import LiveCollections.Proofs.Storage.Windows
import LiveCollections.Shelf
import LiveCollections.Storage.Basic
import LiveCollections.Storage.Cursor
import LiveCollections.Storage.Keyed
import LiveCollections.Storage.Literal
import LiveCollections.Storage.Pairs
import LiveCollections.Text.Extending
import LiveCollections.Text.Hidden
import LiveCollections.Text.Literal
import LiveCollections.Text.Quoted
import LiveCollections.Window
