import ReplyLedger.Proofs.Text.Decoding

/-!
# Well-formed UTF-8

What UTF-8 is, without saying how it is written or read. A first byte says how many bytes follow
it; it and they carry the bits of a number (`Spells`). They are a character if no shorter spelling of
the number could have been taken, and the number is no surrogate and at most U+10FFFF
(`IsCharacter`). Bytes are well-formed if they are characters one after the other (`IsWellFormed`).

A character has one spelling, and that is how it is written (`isCharacter_iff`). So the well-formed
bytes are the bytes of the texts (`isWellFormed_iff_encode`), and those that are read
(`isWellFormed_iff_decode`).
-/

namespace ReplyLedger.Utf8

variable {b : Bytes} {n : Nat}

/-! ## Spellings -/

/-- Bytes that spell a number. -/
inductive Spells : Bytes → Nat → Prop
  | one {w : Nat} (hw : w < 0x80) : Spells [UInt8.ofNat w] w
  | two {w x : Nat} (hw : w < 32) (hx : x < 64) :
    Spells [UInt8.ofNat (0xC0 + w), tailByte x] (w * 64 + x)
  | three {w x y : Nat} (hw : w < 16) (hx : x < 64) (hy : y < 64) :
    Spells [UInt8.ofNat (0xE0 + w), tailByte x, tailByte y] ((w * 64 + x) * 64 + y)
  | four {w x y z : Nat} (hw : w < 8) (hx : x < 64) (hy : y < 64) (hz : z < 64) :
    Spells [UInt8.ofNat (0xF0 + w), tailByte x, tailByte y, tailByte z]
      (((w * 64 + x) * 64 + y) * 64 + z)

/-- Bytes that spell the number of a character, and no overlong form of it. -/
structure IsCharacter (b : Bytes) (n : Nat) : Prop where
  spells : Spells b n
  shortest : ∀ b', Spells b' n → b.length ≤ b'.length
  not_surrogate : ¬ (0xD800 ≤ n ∧ n ≤ 0xDFFF)
  le_last : n ≤ 0x10FFFF

/-- Characters, one after the other. -/
inductive IsWellFormed : Bytes → Prop
  | nil : IsWellFormed []
  | cons {b rest : Bytes} {n : Nat} (hb : IsCharacter b n) (hrest : IsWellFormed rest) :
    IsWellFormed (b ++ rest)

/-- The number of bytes that a character takes. -/
def spellingLength (n : Nat) : Nat :=
  if n < 0x80 then 1 else if n < 0x800 then 2 else if n < 0x10000 then 3 else 4

/-- The bits of a number fit into no fewer bytes. -/
theorem Spells.spellingLength_le (h : Spells b n) : spellingLength n ≤ b.length := by
  unfold spellingLength
  cases h with
  | one hw =>
    rw [if_pos hw]
    exact Nat.le_refl 1
  | two hw hx =>
    rw [List.length_cons, List.length_singleton]
    split_ifs <;> omega
  | three hw hx hy =>
    rw [List.length_cons, List.length_cons, List.length_singleton]
    split_ifs <;> omega
  | four hw hx hy hz =>
    rw [List.length_cons, List.length_cons, List.length_cons, List.length_singleton]
    split_ifs <;> omega

/-! ## Characters -/

/-- How a character is written spells its number, in as many bytes as it takes. -/
theorem spells_encodeChar (c : Char) :
    Spells (encodeChar c) c.toNat ∧ (encodeChar c).length = spellingLength c.toNat := by
  have hc := toNat_valid c
  unfold encodeChar spellingLength
  generalize c.toNat = n at hc ⊢
  dsimp only
  by_cases h1 : n < 0x80
  · rw [if_pos h1, if_pos h1]
    exact ⟨.one h1, rfl⟩
  rw [if_neg h1, if_neg h1]
  by_cases h2 : n < 0x800
  · rw [if_pos h2, if_pos h2]
    have hs : Spells _ (n / 64 * 64 + n % 64) := .two (by omega) (by omega)
    rw [show n / 64 * 64 + n % 64 = n by omega] at hs
    exact ⟨hs, rfl⟩
  rw [if_neg h2, if_neg h2]
  by_cases h3 : n < 0x10000
  · rw [if_pos h3, if_pos h3]
    have hs : Spells _ ((n / 4096 * 64 + n / 64 % 64) * 64 + n % 64) :=
      .three (by omega) (by omega) (by omega)
    rw [show (n / 4096 * 64 + n / 64 % 64) * 64 + n % 64 = n by omega] at hs
    exact ⟨hs, rfl⟩
  · rw [if_neg h3, if_neg h3]
    have hs : Spells _ (((n / 262144 * 64 + n / 4096 % 64) * 64 + n / 64 % 64) * 64 + n % 64) :=
      .four (by omega) (by omega) (by omega) (by omega)
    have hn : ((n / 262144 * 64 + n / 4096 % 64) * 64 + n / 64 % 64) * 64 + n % 64 = n := by omega
    rw [hn] at hs
    exact ⟨hs, rfl⟩

/-- Bytes that spell the number of a character, and are no more than it takes, are how it is
written. -/
theorem Spells.eq_encodeChar (h : Spells b n) (hn : n < 0xD800 ∨ 0xDFFF < n ∧ n < 0x110000)
    (hlength : b.length ≤ spellingLength n) : b = encodeChar (Char.ofNat n) := by
  rw [encodeChar_ofNat hn]
  unfold spellingLength at hlength
  cases h with
  | one hw => rw [if_pos hw]
  | @two w x hw hx =>
    rw [List.length_cons, List.length_singleton] at hlength
    have h1 : ¬ w * 64 + x < 0x80 := fun h => by rw [if_pos h] at hlength; omega
    rw [if_neg h1, if_pos (show w * 64 + x < 0x800 by omega),
      show (w * 64 + x) / 64 = w by omega, show (w * 64 + x) % 64 = x by omega]
    rfl
  | @three w x y hw hx hy =>
    rw [List.length_cons, List.length_cons, List.length_singleton] at hlength
    have h2 : ¬ (w * 64 + x) * 64 + y < 0x800 := fun h => by split_ifs at hlength <;> omega
    rw [if_neg (show ¬ (w * 64 + x) * 64 + y < 0x80 by omega), if_neg h2,
      if_pos (show (w * 64 + x) * 64 + y < 0x10000 by omega),
      show ((w * 64 + x) * 64 + y) / 4096 = w by omega,
      show ((w * 64 + x) * 64 + y) / 64 % 64 = x by omega,
      show ((w * 64 + x) * 64 + y) % 64 = y by omega]
    rfl
  | @four w x y z hw hx hy hz =>
    rw [List.length_cons, List.length_cons, List.length_cons, List.length_singleton] at hlength
    have h3 : ¬ ((w * 64 + x) * 64 + y) * 64 + z < 0x10000 := fun h => by
      split_ifs at hlength <;> omega
    rw [if_neg (show ¬ ((w * 64 + x) * 64 + y) * 64 + z < 0x80 by omega),
      if_neg (show ¬ ((w * 64 + x) * 64 + y) * 64 + z < 0x800 by omega), if_neg h3,
      show (((w * 64 + x) * 64 + y) * 64 + z) / 262144 = w by omega,
      show (((w * 64 + x) * 64 + y) * 64 + z) / 4096 % 64 = x by omega,
      show (((w * 64 + x) * 64 + y) * 64 + z) / 64 % 64 = y by omega,
      show (((w * 64 + x) * 64 + y) * 64 + z) % 64 = z by omega]
    rfl

/-- **A character has one spelling, and that is how it is written.** -/
theorem isCharacter_iff : IsCharacter b n ↔ ∃ c : Char, c.toNat = n ∧ encodeChar c = b := by
  constructor
  · rintro ⟨hs, hshort, hsurrogate, hlast⟩
    have hn : n < 0xD800 ∨ 0xDFFF < n ∧ n < 0x110000 := by omega
    obtain ⟨hwritten, hlength⟩ := spells_encodeChar (Char.ofNat n)
    rw [toNat_ofNat hn] at hwritten hlength
    have hb : b.length ≤ spellingLength n := hlength ▸ hshort _ hwritten
    exact ⟨_, toNat_ofNat hn, (hs.eq_encodeChar hn hb).symm⟩
  · rintro ⟨c, rfl, rfl⟩
    have hc := toNat_valid c
    obtain ⟨hs, hlength⟩ := spells_encodeChar c
    refine ⟨hs, fun b' hb' => ?_, by omega, by omega⟩
    rw [hlength]
    exact hb'.spellingLength_le

/-! ## Texts -/

/-- **The well-formed bytes are the bytes of the texts.** -/
theorem isWellFormed_iff_encode : IsWellFormed b ↔ ∃ t, encode t = b := by
  constructor
  · intro h
    induction h with
    | nil => exact ⟨[], rfl⟩
    | cons hb _ ih =>
      obtain ⟨c, -, rfl⟩ := isCharacter_iff.1 hb
      obtain ⟨t, rfl⟩ := ih
      exact ⟨c :: t, List.flatMap_cons⟩
  · rintro ⟨t, rfl⟩
    induction t with
    | nil => exact .nil
    | cons c t ih =>
      rw [encode, List.flatMap_cons, ← encode]
      exact .cons (isCharacter_iff.2 ⟨c, rfl, rfl⟩) ih

/-- **The well-formed bytes are those that are read as a text.** -/
theorem isWellFormed_iff_decode : IsWellFormed b ↔ ∃ t, decode b = .ok t := by
  rw [isWellFormed_iff_encode]
  constructor
  · rintro ⟨t, rfl⟩
    exact ⟨t, decode_encode t⟩
  · rintro ⟨t, ht⟩
    exact ⟨t, encode_of_decode ht⟩

/-! ## Bytes that are no text -/

/-- A broken piece is cut off the bytes. -/
theorem append_of_chunk_broken {first : UInt8} {bytes piece rest : Bytes} {flaw : Flaw}
    (h : chunk first bytes = (.broken piece flaw, rest)) :
    piece ≠ [] ∧ first :: bytes = piece ++ rest := by
  rw [chunk] at h
  split at h
  · obtain ⟨⟨rfl, -⟩, rfl⟩ : ([first] = piece ∧ Flaw.invalidStart = flaw) ∧ bytes = rest := by
      simpa using h
    exact ⟨List.cons_ne_nil _ _, rfl⟩
  · rename_i k hk
    have happend := takeTail_append k (secondLow first) (secondHigh first) bytes
    generalize takeTail k (secondLow first) (secondHigh first) bytes = taken at h happend
    obtain ⟨tail, rest'⟩ := taken
    dsimp only at h
    split at h
    · simp at h
    · obtain ⟨⟨rfl, -⟩, rfl⟩ : (first :: tail = piece ∧ _ = flaw) ∧ rest' = rest := by simpa using h
      exact ⟨List.cons_ne_nil _ _, by rw [List.cons_append, happend]⟩

theorem eq_append_of_textOfChunks {position : Nat} {fault : DecodeFault}
    (h : textOfChunks position (chunks b) = .error fault) :
    ∃ t rest, b = encode t ++ fault.piece ++ rest ∧ fault.piece ≠ [] ∧
      fault.position = position + (encode t).length := by
  fun_induction chunks b generalizing position with
  | case1 => simp [textOfChunks] at h
  | case2 first bytes ih =>
    rcases hc : chunk first bytes with ⟨c | ⟨piece, flaw⟩, rest⟩
    · rw [hc] at h ih
      rw [textOfChunks] at h
      rcases ht : textOfChunks (position + (encodeChar c).length) (chunks rest) with fault' | t'
      · rw [ht] at h
        obtain rfl : fault' = fault := Except.error.inj h
        obtain ⟨t, r, hr, hpiece, hposition⟩ := ih ht
        have hcons : encode (c :: t) = encodeChar c ++ encode t := List.flatMap_cons
        dsimp only at hr
        refine ⟨c :: t, r, ?_, hpiece, ?_⟩
        · rw [← encodeChar_of_chunk hc, hcons, hr]
          simp only [List.append_assoc]
        · rw [hposition, hcons, List.length_append, Nat.add_assoc]
      · simp [ht, Except.map] at h
    · rw [hc] at h
      obtain rfl : ⟨position, piece, flaw⟩ = fault := Except.error.inj h
      obtain ⟨hpiece, happend⟩ := append_of_chunk_broken hc
      exact ⟨[], rest, happend, hpiece, rfl⟩

/-- **Bytes that are not read as a text are well-formed up to the piece that is reported.** -/
theorem eq_append_of_decode {fault : DecodeFault} (h : decode b = .error fault) :
    ∃ good rest, IsWellFormed good ∧ b = good ++ fault.piece ++ rest ∧ fault.piece ≠ [] ∧
      fault.position = good.length := by
  obtain ⟨t, rest, happend, hpiece, hposition⟩ := eq_append_of_textOfChunks h
  rw [Nat.zero_add] at hposition
  exact ⟨encode t, rest, isWellFormed_iff_encode.2 ⟨t, rfl⟩, happend, hpiece, hposition⟩

end ReplyLedger.Utf8
