import ReplyLedger.Proofs.Timestamp.RoundTrip
import Mathlib.Tactic.SplitIfs

/-!
# What reading a timestamp gives

However a timestamp was written, with or without an offset, as a week date, with more digits of a
fraction than count: the offset that is read is none or at least a second (`isKept_of_ofText_eq_ok`),
so the timestamp is read from what is written for it again.
-/

namespace ReplyLedger

/-- A computation in two steps gives a value exactly if its steps do. -/
theorem bind_eq_ok_iff {ε α β : Type} {x : Except ε α} {f : α → Except ε β} {b : β} :
    x >>= f = .ok b ↔ ∃ a, x = .ok a ∧ f a = .ok b := by
  rcases x with e | a
  · exact ⟨nofun, fun ⟨_, h, _⟩ => nomatch h⟩
  · exact ⟨fun h => ⟨a, rfl, h⟩, fun ⟨_, h, hf⟩ => Except.ok.inj h ▸ hf⟩

theorem eq_ok_of_toOption {ε α : Type} {x : Except ε α} {a : α} (h : x.toOption = some a) :
    x = .ok a := by
  cases x with
  | error e => exact nomatch h
  | ok b => rw [Option.some.inj h]

namespace Timestamp

theorem isKept_of_readOffset?_eq_some {t : Text} {offset : Int} (h : readOffset? t = some offset) :
    IsKept offset := by
  rw [readOffset?.eq_def] at h
  split at h
  · split at h
    · exact nomatch h
    · exact .inl (Option.some.inj h).symm
  · obtain ⟨c, -, h⟩ := Option.bind_eq_some_iff.1 h
    split at h
    · exact nomatch h
    have hsize := Option.some.inj h
    -- the fraction counts only beside at least one whole second
    have hseconds : ofParts c.hour c.minute c.second 0 = 0 ∨
        secondMicros ≤ ofParts c.hour c.minute c.second 0 := by
      rw [ofParts, Nat.add_zero]
      rcases Nat.eq_zero_or_pos ((c.hour * 60 + c.minute) * 60 + c.second) with hz | hpos
      · exact .inl (by rw [hz, Nat.zero_mul])
      · exact .inr (Nat.le_mul_of_pos_left _ hpos)
    rcases hseconds with hz | hle
    · rw [if_pos hz] at hsize
      exact .inl (by split at hsize <;> omega)
    · rw [if_neg (Nat.ne_of_gt (Nat.lt_of_lt_of_le (Nat.succ_pos _) hle))] at hsize
      exact .inr (by split at hsize <;> omega)
  · exact nomatch h

theorem isKept_of_readTime?_eq_some {t : Text} {c : Clock} {offset : Int}
    (h : readTime? t = some (c, offset)) : IsKept offset := by
  rw [readTime?] at h
  dsimp only at h
  split at h
  · obtain ⟨c', -, h⟩ := Option.bind_eq_some_iff.1 h
    split at h
    · cases h
    · exact .inl (Prod.mk.inj (Option.some.inj h)).2.symm
  · obtain ⟨c', -, h⟩ := Option.bind_eq_some_iff.1 h
    obtain ⟨offset', hoffset, h⟩ := Option.bind_eq_some_iff.1 h
    obtain ⟨-, rfl⟩ := Prod.mk.inj (Option.some.inj h)
    exact isKept_of_readOffset?_eq_some hoffset

theorem isKept_of_readNumbers?_eq_some {t : Text} {date : Nat × Nat × Nat} {c : Clock}
    {offset : Int} (h : readNumbers? t = some (date, c, offset)) : IsKept offset := by
  obtain ⟨length, -, h⟩ := Option.bind_eq_some_iff.1 h
  obtain ⟨date', -, h⟩ := Option.bind_eq_some_iff.1 h
  dsimp only at h
  split at h
  · exact .inl (Prod.mk.inj (Prod.mk.inj (Option.some.inj h)).2).2.symm
  · obtain ⟨time, htime, h⟩ := Option.bind_eq_some_iff.1 h
    obtain ⟨-, rfl⟩ := Prod.mk.inj (Option.some.inj h)
    exact isKept_of_readTime?_eq_some htime

/-- **The offset of a timestamp that has been read is kept**, whatever form it was written in. -/
theorem isKept_of_ofText_eq_ok {given : Text} {t : Timestamp} (h : ofText given = .ok t) :
    IsKept t.offset := by
  rw [ofText] at h
  split at h
  · cases h
  · rename_i hread
    split at h
    · obtain ⟨d, -, h⟩ := bind_eq_ok_iff.1 h
      dsimp only at h
      split_ifs at h
      obtain rfl := Except.ok.inj h
      exact isKept_of_readNumbers?_eq_some hread
    · cases h

end Timestamp

end ReplyLedger
