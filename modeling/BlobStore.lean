import BlobStore.Lock.Desk
import BlobStore.Main
import BlobStore.Proofs.Command
import BlobStore.Proofs.Config.Absent
import BlobStore.Proofs.Content.Draining
import BlobStore.Proofs.Database.Listing
import BlobStore.Proofs.Database.Moving
import BlobStore.Proofs.Directory.AnyTree
import BlobStore.Proofs.Directory.Listing
import BlobStore.Proofs.Directory.Pruning
import BlobStore.Proofs.Directory.Sound
import BlobStore.Proofs.Failure
import BlobStore.Proofs.Handles
import BlobStore.Proofs.Key.Derived
import BlobStore.Proofs.Key.Exclusion
import BlobStore.Proofs.Lock.Exclusion
import BlobStore.Proofs.Lock.Fairness
import BlobStore.Proofs.Lock.Handle
import BlobStore.Proofs.Lock.Progress
import BlobStore.Proofs.Lock.Pruning
import BlobStore.Proofs.Lock.Withdrawal
import BlobStore.Proofs.Logged
import BlobStore.Proofs.Memory.Listing
import BlobStore.Proofs.Registry
import BlobStore.Proofs.Report
import BlobStore.Proofs.Transaction.Scope
import BlobStore.Proofs.Transaction.Serial
import BlobStore.Proofs.Transaction.Towers
import BlobStore.Proofs.View.Composition
import BlobStore.Session
