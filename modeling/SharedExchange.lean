import SharedExchange.Holding
import SharedExchange.Proofs.Pool.Blocks
import SharedExchange.Ring.Values
import SharedExchange.Value.Content
import SharedExchange.Value.Equality
import SharedExchange.Value.Path
import SharedExchange.Proofs.Pool.Allocation
import SharedExchange.Proofs.Pool.Usage
import SharedExchange.Proofs.Ring.Queue
import SharedExchange.Proofs.Ring.Traffic
import SharedExchange.Proofs.Wire.Reading
import SharedExchange.Proofs.Wire.RoundTrip
import SharedExchange.Proofs.Arena.Sharing
import SharedExchange.Proofs.Arena.Written
import SharedExchange.Proofs.Arena.Building
import SharedExchange.Proofs.Arena.Room
import SharedExchange.Proofs.Arena.Outcome
import SharedExchange.Proofs.Arena.Publishing
import SharedExchange.Proofs.Arena.Session
import SharedExchange.Proofs.Arena.Measured
import SharedExchange.Proofs.Arena.Laid
import SharedExchange.Proofs.Arena.Stepping
import SharedExchange.Proofs.Arena.Laying
import SharedExchange.Proofs.Arena.InPlace
import SharedExchange.Proofs.Ring.Rounds
import SharedExchange.Proofs.Pool.Accounts
import SharedExchange.Proofs.Wire.Measure
import SharedExchange.Proofs.Delivery.Carrying
import SharedExchange.Proofs.Delivery.System
import SharedExchange.Proofs.Delivery.Keeping
import SharedExchange.Proofs.Delivery.Order
import SharedExchange.Proofs.Attaching
import SharedExchange.Proofs.LatestRecord.Sharing
import SharedExchange.Proofs.Pool.History
import SharedExchange.Proofs.Pool.References
import SharedExchange.Proofs.Wire.Canonical
import SharedExchange.Proofs.LatestRecord.Slots
import SharedExchange.Proofs.LatestRecord.Register
import SharedExchange.Proofs.LatestRecord.Making
import SharedExchange.Proofs.Making
import SharedExchange.Proofs.Arena.Lifetime
import SharedExchange.Proofs.Arena.Footprint
import SharedExchange.Proofs.Arena.Depth
import SharedExchange.Proofs.Arena.Confined
import SharedExchange.Proofs.Pool.Sparing
import SharedExchange.Proofs.Sizing
import SharedExchange.Proofs.Wire.Exceeding
import SharedExchange.Proofs.Directory.Requests
import SharedExchange.Proofs.Directory.Tenure
import SharedExchange.Proofs.LatestRecord.Abandoning
import SharedExchange.Wire.Sink
import SharedExchange.Proofs.Wire.Locality
import SharedExchange.Proofs.Wire.Filling
import SharedExchange.Proofs.Pool.Caching
import SharedExchange.Proofs.Pool.Serving
import SharedExchange.Proofs.Foreign
import SharedExchange.Proofs.Value.Comparing
import SharedExchange.Proofs.Value.Editing
import SharedExchange.Proofs.Ring.Requesting
import SharedExchange.Proofs.Ring.Waiting
import SharedExchange.Proofs.Pool.Counters
import SharedExchange.Proofs.Pool.Reuse
import SharedExchange.Proofs.Arena.Agreement
import SharedExchange.Proofs.Wire.History
import SharedExchange.Proofs.Arena.Tiling
import SharedExchange.Proofs.Arena.Tiled
import SharedExchange.Proofs.Arena.Inventory
