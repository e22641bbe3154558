import ReplyLedger.Text.Utf8

/-!
# UTF-8 there and back

The bytes of a text are read as the text (`decode_encode`): the bytes of a character are one chunk,
whatever comes after them (`chunk_encodeChar`). Its first byte says how many bytes continue it, and
the bounds of the second byte hold because the character is none that a shorter form would write, no
surrogate and no number above U+10FFFF.
-/

namespace ReplyLedger.Utf8

/-- Bytes that continue a character, the first of them within the given bounds. -/
structure IsTail (low high : UInt8) (tail : Bytes) : Prop where
  first : ∀ b ∈ tail.head?, low ≤ b ∧ b ≤ high
  later : ∀ b ∈ tail.tail, 0x80 ≤ b ∧ b ≤ 0xBF

theorem takeTail_of_isTail {low high : UInt8} {tail : Bytes} (h : IsTail low high tail)
    (rest : Bytes) : takeTail tail.length low high (tail ++ rest) = (tail, rest) := by
  induction tail generalizing low high with
  | nil => rw [List.length_nil, takeTail, List.nil_append]; simp
  | cons b tail ih =>
    have hb := h.first b rfl
    have htail : IsTail 0x80 0xBF tail := by
      refine ⟨fun x hx => ?_, fun x hx => ?_⟩
      · exact h.later x (List.mem_of_mem_head? hx)
      · exact h.later x (List.mem_of_mem_tail hx)
    rw [List.length_cons, List.cons_append, takeTail, if_pos (by simpa using hb), ih htail]

theorem chunk_of_isTail {b : UInt8} {tail : Bytes} (hl : tailLength? b = some tail.length)
    (h : IsTail (secondLow b) (secondHigh b) tail) (rest : Bytes) :
    chunk b (tail ++ rest) = (.char (assemble b tail), rest) := by
  rw [chunk, hl]
  simp only [takeTail_of_isTail h, if_true]

/-! ## Bytes by their numbers -/

theorem toNat_byte {n : Nat} (h : n < 256) : (UInt8.ofNat n).toNat = n := by
  rw [UInt8.toNat_ofNat', Nat.mod_eq_of_lt (by omega)]

theorem ofNat_lt_iff {m n : Nat} (hm : m < 256) (hn : n < 256) :
    UInt8.ofNat m < UInt8.ofNat n ↔ m < n := by
  rw [UInt8.lt_iff_toNat_lt, toNat_byte hm, toNat_byte hn]

theorem ofNat_le_iff {m n : Nat} (hm : m < 256) (hn : n < 256) :
    UInt8.ofNat m ≤ UInt8.ofNat n ↔ m ≤ n := by
  rw [UInt8.le_iff_toNat_le, toNat_byte hm, toNat_byte hn]

theorem ofNat_eq_iff {m n : Nat} (hm : m < 256) (hn : n < 256) :
    UInt8.ofNat m = UInt8.ofNat n ↔ m = n := by
  rw [← UInt8.toNat_inj, toNat_byte hm, toNat_byte hn]

theorem tailLength?_ofNat {m : Nat} (hm : m < 256) : tailLength? (UInt8.ofNat m) =
    if m < 0x80 then some 0 else if m < 0xC2 then none else if m < 0xE0 then some 1
    else if m < 0xF0 then some 2 else if m < 0xF5 then some 3 else none := by
  have hlt (n : Nat) (hn : n < 256) := ofNat_lt_iff hm hn
  have h1 := hlt 0x80 (by omega)
  have h2 := hlt 0xC2 (by omega)
  have h3 := hlt 0xE0 (by omega)
  have h4 := hlt 0xF0 (by omega)
  have h5 := hlt 0xF5 (by omega)
  simp only [tailLength?, ← h1, ← h2, ← h3, ← h4, ← h5]
  rfl

/-- The second byte after a first byte, by numbers. -/
theorem second_ofNat {m x : Nat} (hm : m < 256) (hx : x < 64)
    (hlow : m = 0xE0 → 0x20 ≤ x) (hlow' : m = 0xF0 → 0x10 ≤ x) (hhigh : m = 0xED → x < 0x20)
    (hhigh' : m = 0xF4 → x < 0x10) :
    secondLow (UInt8.ofNat m) ≤ UInt8.ofNat (0x80 + x) ∧
      UInt8.ofNat (0x80 + x) ≤ secondHigh (UInt8.ofNat m) := by
  have heq (n : Nat) (hn : n < 256) := ofNat_eq_iff hm hn
  have hle (n : Nat) (hn : n < 256) := ofNat_le_iff hn (show 0x80 + x < 256 by omega)
  have hge (n : Nat) (hn : n < 256) := ofNat_le_iff (show 0x80 + x < 256 by omega) hn
  constructor
  · unfold secondLow
    split
    · rename_i h
      have := hlow ((heq 0xE0 (by omega)).1 h)
      exact (hle 0xA0 (by omega)).2 (by omega)
    · split
      · rename_i h
        have := hlow' ((heq 0xF0 (by omega)).1 h)
        exact (hle 0x90 (by omega)).2 (by omega)
      · exact (hle 0x80 (by omega)).2 (by omega)
  · unfold secondHigh
    split
    · rename_i h
      have := hhigh ((heq 0xED (by omega)).1 h)
      exact (hge 0x9F (by omega)).2 (by omega)
    · split
      · rename_i h
        have := hhigh' ((heq 0xF4 (by omega)).1 h)
        exact (hge 0x8F (by omega)).2 (by omega)
      · exact (hge 0xBF (by omega)).2 (by omega)

/-- A byte that continues a character with six bits. -/
def tailByte (x : Nat) : UInt8 := UInt8.ofNat (0x80 + x)

theorem tailByte_bounds {x : Nat} (hx : x < 64) :
    (0x80 : UInt8) ≤ tailByte x ∧ tailByte x ≤ 0xBF :=
  ⟨(ofNat_le_iff (m := 0x80) (by omega) (by omega)).2 (by omega),
    (ofNat_le_iff (n := 0xBF) (by omega) (by omega)).2 (by omega)⟩

theorem foldl_tailByte {xs : List Nat} (hx : ∀ x ∈ xs, x < 64) (n : Nat) :
    (xs.map tailByte).foldl (fun n c => n * 64 + (c.toNat - 0x80)) n =
      xs.foldl (fun n x => n * 64 + x) n := by
  induction xs generalizing n with
  | nil => rfl
  | cons x xs ih =>
    have hx0 := hx x List.mem_cons_self
    have hbyte : (tailByte x).toNat - 0x80 = x := by
      rw [tailByte, toNat_byte (by omega)]
      omega
    rw [List.map_cons, List.foldl_cons, List.foldl_cons, hbyte]
    exact ih (fun y hy => hx y (List.mem_cons_of_mem _ hy)) _

/-- A first byte and the right number of continuing bytes are a character, if the second byte is
within its bounds. -/
theorem chunk_tailBytes {m : Nat} {xs : List Nat} (hm : m < 256)
    (hl : tailLength? (UInt8.ofNat m) = some xs.length) (hx : ∀ x ∈ xs, x < 64)
    (hsecond : ∀ x ∈ xs.head?, (m = 0xE0 → 0x20 ≤ x) ∧ (m = 0xF0 → 0x10 ≤ x) ∧
      (m = 0xED → x < 0x20) ∧ (m = 0xF4 → x < 0x10)) (rest : Bytes) :
    chunk (UInt8.ofNat m) (xs.map tailByte ++ rest) = (.char (Char.ofNat
      (xs.foldl (fun n x => n * 64 + x) (leadBits xs.length (UInt8.ofNat m)))), rest) := by
  have htail : IsTail (secondLow (UInt8.ofNat m)) (secondHigh (UInt8.ofNat m))
      (xs.map tailByte) := by
    constructor
    · intro b hb
      rw [List.head?_map] at hb
      obtain ⟨x, hxh, rfl⟩ := Option.map_eq_some_iff.1 hb
      obtain ⟨h1, h2, h3, h4⟩ := hsecond x hxh
      exact second_ofNat hm (hx x (List.mem_of_mem_head? hxh)) h1 h2 h3 h4
    · intro b hb
      rw [← List.map_tail] at hb
      obtain ⟨x, hxt, rfl⟩ := List.mem_map.1 hb
      exact tailByte_bounds (hx x (List.mem_of_mem_tail hxt))
  have hl' : tailLength? (UInt8.ofNat m) = some (xs.map tailByte).length := by
    rw [hl, List.length_map]
  rw [chunk_of_isTail hl' htail, assemble, List.length_map, foldl_tailByte hx]

/-! ## Characters -/

/-- The number of a character is no surrogate. -/
theorem toNat_valid (c : Char) : c.toNat < 0xD800 ∨ 0xDFFF < c.toNat ∧ c.toNat < 0x110000 := c.valid

/-- Bytes that carry the bits of a character in the right places are a chunk. -/
theorem exists_chunk {c : Char} (m : Nat) (xs : List Nat) (hm : m < 256)
    (hl : tailLength? (UInt8.ofNat m) = some xs.length) (hx : ∀ x ∈ xs, x < 64)
    (hsecond : ∀ x ∈ xs.head?, (m = 0xE0 → 0x20 ≤ x) ∧ (m = 0xF0 → 0x10 ≤ x) ∧
      (m = 0xED → x < 0x20) ∧ (m = 0xF4 → x < 0x10))
    (hbits : xs.foldl (fun n x => n * 64 + x) (leadBits xs.length (UInt8.ofNat m)) = c.toNat)
    (he : encodeChar c = UInt8.ofNat m :: xs.map tailByte) : ∃ b tail,
      encodeChar c = b :: tail ∧ ∀ rest, chunk b (tail ++ rest) = (.char c, rest) := by
  refine ⟨_, _, he, fun rest => ?_⟩
  rw [chunk_tailBytes hm hl hx hsecond, hbits, Char.ofNat_toNat]

/-- **The bytes of a character are one chunk, whatever comes after them.** -/
theorem chunk_encodeChar (c : Char) : ∃ b tail, encodeChar c = b :: tail ∧
    ∀ rest, chunk b (tail ++ rest) = (.char c, rest) := by
  have hc := toNat_valid c
  have hchar := @exists_chunk c
  generalize hn : c.toNat = n at hc hchar
  by_cases h1 : n < 0x80
  · refine hchar n [] (by omega) ?_ (by simp) (by simp) ?_ ?_
    · rw [tailLength?_ofNat (by omega), if_pos h1]
      rfl
    · exact toNat_byte (by omega)
    · simp [encodeChar, hn, h1]
  by_cases h2 : n < 0x800
  · refine hchar (0xC0 + n / 64) [n % 64] (by omega) ?_ ?_ ?_ ?_ ?_
    · rw [tailLength?_ofNat (by omega), if_neg (by omega), if_neg (by omega), if_pos (by omega)]
      rfl
    · simp only [List.mem_singleton]
      omega
    · simp only [List.head?_cons, Option.mem_some_iff]
      omega
    · change ((UInt8.ofNat (0xC0 + n / 64)).toNat - 0xC0) * 64 + n % 64 = n
      rw [toNat_byte (by omega)]
      omega
    · simp [encodeChar, hn, h1, h2, tailByte]
  by_cases h3 : n < 0x10000
  · refine hchar (0xE0 + n / 4096) [n / 64 % 64, n % 64] (by omega) ?_ ?_ ?_ ?_ ?_
    · rw [tailLength?_ofNat (by omega), if_neg (by omega), if_neg (by omega), if_neg (by omega),
        if_pos (by omega)]
      rfl
    · simp only [List.mem_cons, List.not_mem_nil, or_false]
      omega
    · simp only [List.head?_cons, Option.mem_some_iff]
      omega
    · change (((UInt8.ofNat (0xE0 + n / 4096)).toNat - 0xE0) * 64 + n / 64 % 64) * 64 + n % 64 = n
      rw [toNat_byte (by omega)]
      omega
    · simp [encodeChar, hn, h1, h2, h3, tailByte]
  · refine hchar (0xF0 + n / 262144) [n / 4096 % 64, n / 64 % 64, n % 64] (by omega)
      ?_ ?_ ?_ ?_ ?_
    · rw [tailLength?_ofNat (by omega), if_neg (by omega), if_neg (by omega), if_neg (by omega),
        if_neg (by omega), if_pos (by omega)]
      rfl
    · simp only [List.mem_cons, List.not_mem_nil, or_false]
      omega
    · simp only [List.head?_cons, Option.mem_some_iff]
      omega
    · change ((((UInt8.ofNat (0xF0 + n / 262144)).toNat - 0xF0) * 64 + n / 4096 % 64) * 64 +
        n / 64 % 64) * 64 + n % 64 = n
      rw [toNat_byte (by omega)]
      omega
    · simp [encodeChar, hn, h1, h2, h3, tailByte]

theorem chunks_encodeChar_append (c : Char) (rest : Bytes) :
    chunks (encodeChar c ++ rest) = .char c :: chunks rest := by
  obtain ⟨b, tail, he, hchunk⟩ := chunk_encodeChar c
  rw [he, List.cons_append, chunks, hchunk]

theorem chunks_encode (t : Text) : chunks (encode t) = t.map .char := by
  induction t with
  | nil => rw [encode, List.flatMap_nil, chunks, List.map_nil]
  | cons c t ih => rw [encode, List.flatMap_cons, chunks_encodeChar_append, ← encode, ih, List.map_cons]

theorem textOfChunks_map_char (position : Nat) (t : Text) :
    textOfChunks position (t.map .char) = .ok t := by
  induction t generalizing position with
  | nil => rfl
  | cons c t ih => rw [List.map_cons, textOfChunks, ih]; rfl

/-- **The bytes of a text are read as the text.** -/
theorem decode_encode (t : Text) : decode (encode t) = .ok t := by
  rw [decode, chunks_encode, textOfChunks_map_char]

theorem encode_append (s t : Text) : encode (s ++ t) = encode s ++ encode t := List.flatMap_append

/-- A character has at most four bytes. -/
theorem length_encode_le (t : Text) : (encode t).length ≤ 4 * t.length := by
  induction t with
  | nil => simp [encode]
  | cons c t ih =>
    have hc : (encodeChar c).length ≤ 4 := by
      simp only [encodeChar]
      split
      · simp
      split
      · simp
      split <;> simp
    rw [encode] at ih
    rw [encode, List.flatMap_cons, List.length_append, List.length_cons]
    omega

end ReplyLedger.Utf8
