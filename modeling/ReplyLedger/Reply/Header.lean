import ReplyLedger.Text.Basic

/-!
# Block headers

A block of a reply opens with a header such as `<<<CREATE: notes.txt>>>`: a marker, an argument on
the same line, and the first closing bracket after it. `findHeader` looks for the first header of a
text; `eq_append_of_findHeader` says that it returns the whole text in three parts.
-/

namespace ReplyLedger.Reply

open Text

/-- What a header announces. -/
inductive Marker
  | create
  | delete
  | rename
  | file
  deriving DecidableEq, Repr

namespace Marker

/-- The word inside a header. -/
def word : Marker → Text
  | .create => ['C', 'R', 'E', 'A', 'T', 'E']
  | .delete => ['D', 'E', 'L', 'E', 'T', 'E']
  | .rename => ['R', 'E', 'N', 'A', 'M', 'E']
  | .file => ['F', 'I', 'L', 'E']

/-- The text that a header begins with. -/
def opening (m : Marker) : Text := '<' :: '<' :: '<' :: m.word ++ [':']

/-- The marker whose opening a text begins with. -/
def ofText? (t : Text) : Option Marker :=
  [create, delete, rename, file].find? fun m => startsWith m.opening t

theorem startsWith_of_ofText? {t : Text} {m : Marker} (h : ofText? t = some m) :
    startsWith m.opening t := by
  simpa using List.find?_some h

end Marker

/-- The bracket that ends a header. -/
def closing : Text := ['>', '>', '>']

/-- A header: its marker, and the text from the colon to the closing bracket. -/
structure Header where
  marker : Marker
  inner : Text
  deriving DecidableEq, Repr

namespace Header

/-- The header as it stands in the reply. -/
def written (h : Header) : Text := h.marker.opening ++ h.inner ++ closing

/-- The argument of a header: its inner text without the leading spaces and tabs. -/
def argument (h : Header) : Text := h.inner.dropWhile fun c => c = ' ' || c = '\t'

theorem length_written_pos (h : Header) : 0 < h.written.length := by
  simp [written, Marker.opening]

/-- The header that a text begins with, and what follows it. -/
def ofText? (t : Text) : Option (Header × Text) :=
  match Marker.ofText? t with
  | none => none
  | some m =>
    let tail := t.drop m.opening.length
    match cut closing (tail.takeWhile (· ≠ '\n')) with
    | none => none
    | some (inner, _) => some (⟨m, inner⟩, tail.drop (inner.length + closing.length))

theorem eq_append_of_ofText? {t rest : Text} {h : Header} (e : ofText? t = some (h, rest)) :
    t = h.written ++ rest := by
  unfold ofText? at e
  split at e
  · simp at e
  · rename_i m hm
    dsimp only at e
    split at e
    · simp at e
    · rename_i inner after hc
      have ht := eq_append_drop_of_startsWith (Marker.startsWith_of_ofText? hm)
      generalize t.drop m.opening.length = tail at *
      obtain ⟨rfl, rfl⟩ := by simpa only [Option.some.injEq, Prod.mk.injEq] using e
      have hl := List.takeWhile_append_dropWhile (p := (· ≠ '\n')) (l := tail)
      rw [eq_append_of_cut hc] at hl
      generalize tail.dropWhile _ = line at hl
      subst hl ht
      simp [written]

end Header

/-- The first header of a text, with the texts before and after it. -/
def findHeader : Text → Option (Text × Header × Text)
  | [] => none
  | c :: t =>
    match Header.ofText? (c :: t) with
    | some (h, rest) => some ([], h, rest)
    | none => (findHeader t).map fun (before, h, rest) => (c :: before, h, rest)

theorem eq_append_of_findHeader {t before rest : Text} {h : Header}
    (e : findHeader t = some (before, h, rest)) : t = before ++ h.written ++ rest := by
  induction t generalizing before with
  | nil => simp [findHeader] at e
  | cons c t ih =>
    unfold findHeader at e
    split at e
    · rename_i h' rest' hf
      obtain ⟨rfl, rfl, rfl⟩ := by simpa using e
      simpa using Header.eq_append_of_ofText? hf
    · obtain ⟨⟨before', h', rest'⟩, hp, he⟩ := Option.map_eq_some_iff.1 e
      simp only [Prod.mk.injEq] at he
      obtain ⟨rfl, rfl, rfl⟩ := he
      simp [ih hp]

theorem length_lt_of_findHeader {t before rest : Text} {h : Header}
    (e : findHeader t = some (before, h, rest)) : rest.length < t.length := by
  have := h.length_written_pos
  rw [eq_append_of_findHeader e]
  simp only [List.length_append]
  omega

end ReplyLedger.Reply
