import ClauseStore.Listeners
import ClauseStore.Reduction
import ClauseStore.Proofs.Outcome
import ClauseStore.Proofs.Consultation
import ClauseStore.Proofs.Fields
import ClauseStore.Proofs.Allocation
import ClauseStore.Proofs.Cell
import ClauseStore.Proofs.Tiling
import ClauseStore.Proofs.Compaction
import ClauseStore.Proofs.Holding
import ClauseStore.Proofs.Revision
import ClauseStore.Proofs.Storing
import ClauseStore.Proofs.Collection
import ClauseStore.Proofs.Scan
import ClauseStore.Proofs.Pass
import ClauseStore.Proofs.Rows
import ClauseStore.Proofs.Marking
import ClauseStore.Proofs.Eviction
import ClauseStore.Proofs.Reduction
import ClauseStore.Proofs.Operation
import ClauseStore.Proofs.Exactness
import ClauseStore.Proofs.Caching
import ClauseStore.Proofs.Ledger
import ClauseStore.Proofs.Conservation
import ClauseStore.Proofs.Flagging
import ClauseStore.Proofs.Linkage
import ClauseStore.Proofs.Relinking
import ClauseStore.Proofs.Bonding
import ClauseStore.Proofs.Integrity
import ClauseStore.Proofs.Watching
import ClauseStore.Proofs.Binding
import ClauseStore.Proofs.Attachment
import ClauseStore.Proofs.Journal
import ClauseStore.Proofs.Bookkeeping
import ClauseStore.Proofs.Accounting
import ClauseStore.Proofs.Occurring
import ClauseStore.Proofs.Widths
import ClauseStore.Proofs.Refusal
import ClauseStore.Proofs.Metering
import ClauseStore.Proofs.Carrying
import ClauseStore.Proofs.Usage
import ClauseStore.Proofs.Atomicity
import ClauseStore.Proofs.Staging
import ClauseStore.Proofs.Survey
import ClauseStore.Proofs.Export
import ClauseStore.Proofs.Departure
import ClauseStore.Proofs.Recency
import ClauseStore.Proofs.Traversal
import ClauseStore.Proofs.Shortcut
import ClauseStore.Proofs.Ranking
import ClauseStore.Proofs.Scoring
import ClauseStore.Proofs.Births
import ClauseStore.Proofs.Slots
import ClauseStore.Proofs.Selection
import ClauseStore.Proofs.Acceptance
import ClauseStore.Proofs.Counting
import ClauseStore.Proofs.Fractions
import ClauseStore.Proofs.LastIrredundant
import ClauseStore.Proofs.Aging
import ClauseStore.Proofs.Grace
import ClauseStore.Proofs.Layout
import ClauseStore.Proofs.Session
import ClauseStore.Proofs.Transcription
import ClauseStore.Proofs.Decoding
