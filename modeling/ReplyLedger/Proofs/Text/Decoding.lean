import ReplyLedger.Proofs.Text.Utf8
import Mathlib.Data.List.Basic

/-!
# UTF-8 back and there

Bytes that are read as a text are the bytes of that text (`encode_of_decode`): a chunk that is a
character is what the character is written as (`encodeChar_of_chunk`). The bounds of the second byte
leave no longer form of a character, no surrogate and no number above U+10FFFF.
-/

namespace ReplyLedger.Utf8

/-! ## Bytes by their numbers -/

theorem exists_byte (b : UInt8) : ∃ m < 256, b = UInt8.ofNat m :=
  ⟨b.toNat, b.toNat_lt, UInt8.ofNat_toNat.symm⟩

theorem exists_tailByte {b : UInt8} (h : 0x80 ≤ b ∧ b ≤ 0xBF) : ∃ x < 64, b = tailByte x := by
  obtain ⟨m, hm, rfl⟩ := exists_byte b
  have hlow := (ofNat_le_iff (m := 0x80) (by omega) hm).1 h.1
  have hhigh := (ofNat_le_iff (n := 0xBF) hm (by omega)).1 h.2
  refine ⟨m - 0x80, by omega, ?_⟩
  rw [tailByte, show 0x80 + (m - 0x80) = m by omega]

/-- The second byte of a character continues it, and is within bounds that depend on the first. -/
theorem exists_second {m : Nat} (hm : m < 256) {b : UInt8}
    (h : secondLow (UInt8.ofNat m) ≤ b ∧ b ≤ secondHigh (UInt8.ofNat m)) :
    ∃ x < 64, b = tailByte x ∧ (m = 0xE0 → 0x20 ≤ x) ∧ (m = 0xF0 → 0x10 ≤ x) ∧
      (m = 0xED → x < 0x20) ∧ (m = 0xF4 → x < 0x10) := by
  obtain ⟨n, hn, rfl⟩ := exists_byte b
  have heq (k : Nat) (hk : k < 256) := ofNat_eq_iff hm hk
  have hle (k : Nat) (hk : k < 256) := ofNat_le_iff hk hn
  have hge (k : Nat) (hk : k < 256) := ofNat_le_iff hn hk
  have hlow : 0x80 ≤ n ∧ (m = 0xE0 → 0xA0 ≤ n) ∧ (m = 0xF0 → 0x90 ≤ n) := by
    have hlow := h.1
    unfold secondLow at hlow
    split at hlow
    · rename_i he
      have := (heq 0xE0 (by omega)).1 he
      have := (hle 0xA0 (by omega)).1 hlow
      omega
    · rename_i he
      have := mt (heq 0xE0 (by omega)).2 he
      split at hlow
      · rename_i hf
        have := (heq 0xF0 (by omega)).1 hf
        have := (hle 0x90 (by omega)).1 hlow
        omega
      · rename_i hf
        have := mt (heq 0xF0 (by omega)).2 hf
        have := (hle 0x80 (by omega)).1 hlow
        omega
  have hhigh : n ≤ 0xBF ∧ (m = 0xED → n ≤ 0x9F) ∧ (m = 0xF4 → n ≤ 0x8F) := by
    have hhigh := h.2
    unfold secondHigh at hhigh
    split at hhigh
    · rename_i he
      have := (heq 0xED (by omega)).1 he
      have := (hge 0x9F (by omega)).1 hhigh
      omega
    · rename_i he
      have := mt (heq 0xED (by omega)).2 he
      split at hhigh
      · rename_i hf
        have := (heq 0xF4 (by omega)).1 hf
        have := (hge 0x8F (by omega)).1 hhigh
        omega
      · rename_i hf
        have := mt (heq 0xF4 (by omega)).2 hf
        have := (hge 0xBF (by omega)).1 hhigh
        omega
  refine ⟨n - 0x80, by omega, ?_, by omega, by omega, by omega, by omega⟩
  rw [tailByte, show 0x80 + (n - 0x80) = n by omega]

/-- What is taken continues a character. -/
theorem isTail_takeTail (k : Nat) (low high : UInt8) (t : Bytes) :
    IsTail low high (takeTail k low high t).1 := by
  induction k generalizing low high t with
  | zero => exact ⟨by simp [takeTail], by simp [takeTail]⟩
  | succ k ih =>
    cases t with
    | nil => exact ⟨by simp [takeTail], by simp [takeTail]⟩
    | cons b t =>
      rw [takeTail]
      split
      · rename_i hb
        obtain ⟨hfirst, hlater⟩ := ih 0x80 0xBF t
        refine ⟨by simpa using hb, fun x hx => ?_⟩
        dsimp only [List.tail_cons] at hx
        generalize (takeTail k 0x80 0xBF t).1 = tail at hfirst hlater hx
        cases tail with
        | nil => simp at hx
        | cons y tail =>
          rcases List.mem_cons.1 hx with rfl | hx
          · exact hfirst x rfl
          · exact hlater x hx
      · exact ⟨by simp, by simp⟩

/-- The bytes that continue a character, by the bits that they carry. -/
theorem exists_tailBytes {m : Nat} (hm : m < 256) {tail : Bytes}
    (h : IsTail (secondLow (UInt8.ofNat m)) (secondHigh (UInt8.ofNat m)) tail) :
    ∃ xs : List Nat, tail = xs.map tailByte ∧ (∀ x ∈ xs, x < 64) ∧
      ∀ x ∈ xs.head?, (m = 0xE0 → 0x20 ≤ x) ∧ (m = 0xF0 → 0x10 ≤ x) ∧
        (m = 0xED → x < 0x20) ∧ (m = 0xF4 → x < 0x10) := by
  have hlater {tail : Bytes} (ht : ∀ b ∈ tail, 0x80 ≤ b ∧ b ≤ 0xBF) :
      ∃ xs : List Nat, tail = xs.map tailByte ∧ ∀ x ∈ xs, x < 64 := by
    induction tail with
    | nil => exact ⟨[], rfl, by simp⟩
    | cons b tail ih =>
      obtain ⟨x, hx, rfl⟩ := exists_tailByte (ht b List.mem_cons_self)
      obtain ⟨xs, rfl, hxs⟩ := ih fun c hc => ht c (List.mem_cons_of_mem _ hc)
      exact ⟨x :: xs, rfl, by simpa [hx] using hxs⟩
  cases tail with
  | nil => exact ⟨[], rfl, by simp, by simp⟩
  | cons b tail =>
    obtain ⟨x, hx, rfl, hbounds⟩ := exists_second hm (h.first b rfl)
    obtain ⟨xs, rfl, hxs⟩ := hlater h.later
    exact ⟨x :: xs, rfl, by simpa [hx] using hxs, by simpa using hbounds⟩

/-! ## Characters -/

theorem toNat_ofNat {n : Nat} (h : n < 0xD800 ∨ 0xDFFF < n ∧ n < 0x110000) :
    (Char.ofNat n).toNat = n := by
  rw [Char.ofNat, dif_pos h]
  rfl

/-- How the character with a number is written. -/
theorem encodeChar_ofNat {n : Nat} (h : n < 0xD800 ∨ 0xDFFF < n ∧ n < 0x110000) :
    encodeChar (Char.ofNat n) =
      if n < 0x80 then [UInt8.ofNat n]
      else if n < 0x800 then UInt8.ofNat (0xC0 + n / 64) :: [n % 64].map tailByte
      else if n < 0x10000 then
        UInt8.ofNat (0xE0 + n / 4096) :: [n / 64 % 64, n % 64].map tailByte
      else
        UInt8.ofNat (0xF0 + n / 262144) :: [n / 4096 % 64, n / 64 % 64, n % 64].map tailByte := by
  simp only [encodeChar, toNat_ofNat h, List.map_cons, List.map_nil, tailByte]

/-- A first byte with the bytes that continue it is what the character is written as. -/
theorem encodeChar_assemble {b : UInt8} {tail : Bytes} (hl : tailLength? b = some tail.length)
    (h : IsTail (secondLow b) (secondHigh b) tail) : encodeChar (assemble b tail) = b :: tail := by
  obtain ⟨m, hm, rfl⟩ := exists_byte b
  obtain ⟨xs, rfl, hx, hsecond⟩ := exists_tailBytes hm h
  rw [tailLength?_ofNat hm, List.length_map] at hl
  rw [assemble, List.length_map, foldl_tailByte hx]
  have hlead : (UInt8.ofNat m).toNat = m := toNat_byte hm
  split at hl
  · rename_i h1
    obtain rfl : xs = [] := List.length_eq_zero_iff.1 (Option.some.inj hl).symm
    have hbits : leadBits 0 (UInt8.ofNat m) = m := hlead
    rw [List.length_nil, List.foldl_nil, hbits, encodeChar_ofNat (by omega), if_pos h1,
      List.map_nil]
  split at hl
  · simp at hl
  split at hl
  · obtain ⟨x, rfl⟩ := List.length_eq_one_iff.1 (Option.some.inj hl).symm
    have hx0 := hx x (by simp)
    have hbits : leadBits 1 (UInt8.ofNat m) = m - 0xC0 := congrArg (· - 0xC0) hlead
    rw [List.length_singleton, List.foldl_cons, List.foldl_nil, hbits, encodeChar_ofNat (by omega),
      if_neg (by omega), if_pos (by omega), show 0xC0 + ((m - 0xC0) * 64 + x) / 64 = m by omega,
      show ((m - 0xC0) * 64 + x) % 64 = x by omega]
  split at hl
  · obtain ⟨x, y, rfl⟩ := List.length_eq_two.1 (Option.some.inj hl).symm
    have hx0 := hx x (by simp)
    have hy0 := hx y (by simp)
    obtain ⟨h1, -, h2, -⟩ := hsecond x rfl
    have hbits : leadBits 2 (UInt8.ofNat m) = m - 0xE0 := congrArg (· - 0xE0) hlead
    rw [List.length_cons, List.length_singleton, List.foldl_cons, List.foldl_cons, List.foldl_nil,
      hbits, encodeChar_ofNat (by omega), if_neg (by omega), if_neg (by omega), if_pos (by omega),
      show 0xE0 + (((m - 0xE0) * 64 + x) * 64 + y) / 4096 = m by omega,
      show (((m - 0xE0) * 64 + x) * 64 + y) / 64 % 64 = x by omega,
      show (((m - 0xE0) * 64 + x) * 64 + y) % 64 = y by omega]
  split at hl
  · obtain ⟨x, y, z, rfl⟩ := List.length_eq_three.1 (Option.some.inj hl).symm
    have hx0 := hx x (by simp)
    have hy0 := hx y (by simp)
    have hz0 := hx z (by simp)
    obtain ⟨-, h1, -, h2⟩ := hsecond x rfl
    have hbits : leadBits 3 (UInt8.ofNat m) = m - 0xF0 := congrArg (· - 0xF0) hlead
    rw [List.length_cons, List.length_cons, List.length_singleton, List.foldl_cons, List.foldl_cons,
      List.foldl_cons, List.foldl_nil, hbits, encodeChar_ofNat (by omega), if_neg (by omega),
      if_neg (by omega), if_neg (by omega),
      show 0xF0 + ((((m - 0xF0) * 64 + x) * 64 + y) * 64 + z) / 262144 = m by omega,
      show ((((m - 0xF0) * 64 + x) * 64 + y) * 64 + z) / 4096 % 64 = x by omega,
      show ((((m - 0xF0) * 64 + x) * 64 + y) * 64 + z) / 64 % 64 = y by omega,
      show ((((m - 0xF0) * 64 + x) * 64 + y) * 64 + z) % 64 = z by omega]
  · simp at hl

theorem encodeChar_of_chunk {b : UInt8} {t rest : Bytes} {c : Char}
    (h : chunk b t = (.char c, rest)) : encodeChar c ++ rest = b :: t := by
  rw [chunk] at h
  split at h
  · simp at h
  · rename_i k hk
    have htail := isTail_takeTail k (secondLow b) (secondHigh b) t
    have happend := takeTail_append k (secondLow b) (secondHigh b) t
    generalize takeTail k (secondLow b) (secondHigh b) t = taken at h htail happend
    obtain ⟨tail, rest'⟩ := taken
    dsimp only at h
    split at h
    · rename_i hlength
      obtain ⟨rfl, rfl⟩ : assemble b tail = c ∧ rest' = rest := by simpa using h
      rw [encodeChar_assemble (by rw [hk, hlength]) htail, List.cons_append, happend]
    · simp at h

theorem encode_of_textOfChunks {b : Bytes} {position : Nat} {t : Text}
    (h : textOfChunks position (chunks b) = .ok t) : encode t = b := by
  fun_induction chunks b generalizing position t with
  | case1 =>
    obtain rfl := Except.ok.inj h
    rfl
  | case2 b bytes ih =>
    rcases hc : chunk b bytes with ⟨c | ⟨piece, flaw⟩, rest⟩
    · rw [hc] at h ih
      rw [textOfChunks] at h
      rcases ht : textOfChunks (position + (encodeChar c).length) (chunks rest) with fault | t'
      · simp [ht, Except.map] at h
      · rw [ht] at h
        obtain rfl := Except.ok.inj h
        rw [encode, List.flatMap_cons, ← encode, ih ht, encodeChar_of_chunk hc]
    · rw [hc] at h
      simp [textOfChunks] at h

/-- **Bytes that are read as a text are the bytes of the text.** -/
theorem encode_of_decode {b : Bytes} {t : Text} (h : decode b = .ok t) : encode t = b :=
  encode_of_textOfChunks h

end ReplyLedger.Utf8
