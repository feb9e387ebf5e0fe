import UnifiedConfig.Disk.Lemmas
import UnifiedConfig.Main
import UnifiedConfig.Proofs.Additions
import UnifiedConfig.Proofs.AddressGrammar
import UnifiedConfig.Proofs.Addresses
import UnifiedConfig.Proofs.Appending
import UnifiedConfig.Proofs.Deletions
import UnifiedConfig.Proofs.Distinctness
import UnifiedConfig.Proofs.Dumps
import UnifiedConfig.Proofs.Durability
import UnifiedConfig.Proofs.Effects
import UnifiedConfig.Proofs.Failures
import UnifiedConfig.Proofs.Fragments
import UnifiedConfig.Proofs.Grammar
import UnifiedConfig.Proofs.Interruptions
import UnifiedConfig.Proofs.Lookups
import UnifiedConfig.Proofs.Meaning
import UnifiedConfig.Proofs.Merges
import UnifiedConfig.Proofs.Overlays
import UnifiedConfig.Proofs.Quotations
import UnifiedConfig.Proofs.Readahead
import UnifiedConfig.Proofs.Receivers
import UnifiedConfig.Proofs.Reprinting
import UnifiedConfig.Proofs.Selectors
import UnifiedConfig.Proofs.Slots
import UnifiedConfig.Proofs.Sync
import UnifiedConfig.Proofs.SyntheticNames
import UnifiedConfig.Proofs.Transparency
import UnifiedConfig.Proofs.Writes
