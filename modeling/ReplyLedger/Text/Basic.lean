/-!
# Texts

A text is the list of its Unicode characters, so that positions, counts and cuts are those of
characters. This module holds the searches that the rest of the library is built from:

* `cut mark t` splits `t` at the first occurrence of `mark`, and `eq_append_of_cut` puts the two
  sides together again;
* `pieces mark t` cuts at every occurrence, left to right and without overlap; `occurrences` and
  `replaceAll` are read off the pieces, and `joinWith_pieces` says that nothing else is changed;
* `segments sep t` is the list of the parts between the separators `sep`.
-/

namespace ReplyLedger

/-- A text is the list of its characters. -/
abbrev Text := List Char

instance : Coe String Text := ⟨String.toList⟩

namespace Text

/-- Whether `t` begins with `mark`. -/
def startsWith (mark t : Text) : Bool := mark.isPrefixOf t

/-- The texts before and after the first occurrence of `mark`. -/
def cut (mark : Text) : Text → Option (Text × Text)
  | [] => if mark.isEmpty then some ([], []) else none
  | c :: t =>
    if startsWith mark (c :: t) then some ([], (c :: t).drop mark.length)
    else (cut mark t).map fun (before, after) => (c :: before, after)

theorem eq_append_drop_of_startsWith {mark t : Text} (h : startsWith mark t) :
    t = mark ++ t.drop mark.length := by
  obtain ⟨r, rfl⟩ := List.isPrefixOf_iff_prefix.1 h
  simp

/-- A cut loses nothing but the mark. -/
theorem eq_append_of_cut {mark t before after : Text} (h : cut mark t = some (before, after)) :
    t = before ++ mark ++ after := by
  induction t generalizing before with
  | nil =>
    simp only [cut] at h
    split at h <;> simp_all
  | cons c t ih =>
    simp only [cut] at h
    split at h
    · rename_i hc
      obtain ⟨rfl, rfl⟩ := by simpa using h
      simpa using eq_append_drop_of_startsWith hc
    · obtain ⟨p, hp, he⟩ := Option.map_eq_some_iff.1 h
      obtain ⟨rfl, rfl⟩ := by simpa using he
      simp [ih hp]

theorem length_lt_of_cut {mark t before after : Text} (hm : mark ≠ [])
    (h : cut mark t = some (before, after)) : after.length < t.length := by
  have := List.length_pos_iff.2 hm
  rw [eq_append_of_cut h]
  simp only [List.length_append]
  omega

/-- Whether `mark` occurs in `t`. -/
def has (mark t : Text) : Bool := (cut mark t).isSome

/-- The texts between the occurrences of `mark`, found left to right without overlap. The empty
mark cuts nowhere. -/
def pieces (mark t : Text) : List Text :=
  if _ : mark = [] then [t]
  else
    match _h : cut mark t with
    | none => [t]
    | some (before, after) => before :: pieces mark after
termination_by t.length
decreasing_by exact length_lt_of_cut ‹_› ‹_›

/-- The texts `ts` with `sep` between neighbours. -/
def joinWith (sep : Text) : List Text → Text
  | [] => []
  | [t] => t
  | t :: u :: r => t ++ sep ++ joinWith sep (u :: r)

theorem pieces_ne_nil (mark t : Text) : pieces mark t ≠ [] := by
  unfold pieces
  split
  · simp
  · split <;> simp

/-- The pieces, joined by the mark, are the text. -/
theorem joinWith_pieces (mark t : Text) : joinWith mark (pieces mark t) = t := by
  fun_induction pieces mark t with
  | case1 | case2 => simp [joinWith]
  | case3 t hm before after h ih =>
    obtain ⟨p, r, hp⟩ := List.exists_cons_of_ne_nil (pieces_ne_nil mark after)
    rw [hp, joinWith, ← hp, ih, eq_append_of_cut h]

/-- How often `mark` occurs in `t`, counted left to right without overlap. -/
def occurrences (mark t : Text) : Nat := (pieces mark t).length - 1

/-- `t` with every occurrence of `mark` written as `new`. -/
def replaceAll (mark new t : Text) : Text := joinWith new (pieces mark t)

/-- The parts of `t` between the separators: one more than there are separators. -/
def segments (sep : Char) : Text → List Text
  | [] => [[]]
  | c :: t =>
    if c = sep then [] :: segments sep t
    else
      match segments sep t with
      | [] => [[c]]
      | s :: r => (c :: s) :: r

/-- The decimal digits of `n`. -/
def ofNat (n : Nat) : Text := Nat.toDigits 10 n

/-- The decimal digits of `n`, with zeros in front up to `width` characters. -/
def ofNatPadded (width n : Nat) : Text :=
  List.replicate (width - (ofNat n).length) '0' ++ ofNat n

/-- The decimal digits of `n`, with a minus sign when it is negative. -/
def ofInt : Int → Text
  | .ofNat n => ofNat n
  | .negSucc n => '-' :: ofNat (n + 1)

/-- The value of a list of decimal digits. -/
def digitsValue (t : Text) : Nat := Nat.ofDigitChars 10 t 0

/-- The lower-case hexadecimal digits of `n`, with zeros in front up to `width` characters. -/
def ofHexPadded (width n : Nat) : Text :=
  List.replicate (width - (Nat.toDigits 16 n).length) '0' ++ Nat.toDigits 16 n

/-- `t` with spaces in front up to `width` characters. -/
def padLeft (width : Nat) (t : Text) : Text := List.replicate (width - t.length) ' ' ++ t

/-- `t` with spaces behind up to `width` characters. -/
def padRight (width : Nat) (t : Text) : Text := t ++ List.replicate (width - t.length) ' '

end Text

end ReplyLedger
