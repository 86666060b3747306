import SharedStages.Proofs.Cascade
import SharedStages.Proofs.Cache.Roll
import SharedStages.Proofs.World.Atomic
import SharedStages.Proofs.World.History
import SharedStages.Wire
import SharedStages.Proofs.Cache.Exchange
import SharedStages.Proofs.World.Observation
import SharedStages.Proofs.World.Journal
import SharedStages.Proofs.World.Shares
import SharedStages.Proofs.Cache.Renaming
import SharedStages.Proofs.Cache.RenamedStore
import SharedStages.Proofs.World.Independence
import SharedStages.Proofs.Wire.RoundTrip
import SharedStages.Proofs.World.Instances
import SharedStages.Proofs.World.Trips
import SharedStages.Proofs.Store.Removal
import SharedStages.Proofs.StageId
import SharedStages.Proofs.World.Erasure
import SharedStages.Proofs.Wire.Ids
import SharedStages.Proofs.Fault
import SharedStages.Proofs.Query
