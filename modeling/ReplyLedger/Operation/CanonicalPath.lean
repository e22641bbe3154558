import ReplyLedger.Text.Blank

/-!
# Canonical paths

The form in which operations hold their paths: forward slashes, no segment `.`, no empty segment, no
slash at the end. Segments `..` stay, and so does a leading slash.
-/

namespace ReplyLedger

/-- The text with every backslash written as a slash. -/
def slashed (p : Text) : Text := p.map fun c => if c = '\\' then '/' else c

/-- The text with every run of slashes written as one. -/
def collapseSlashes : Text → Text
  | [] => []
  | c :: t =>
    if c = '/' && t.head? = some '/' then collapseSlashes t else c :: collapseSlashes t

/-- The text without the slashes at its end. -/
def dropEndSlashes (p : Text) : Text := (p.reverse.dropWhile (· = '/')).reverse

/-- The path in canonical form. Between its first and its last segment none is empty, since runs of
slashes have been collapsed. -/
def canonicalPath (path : Text) : Text :=
  let p := collapseSlashes (slashed (Text.strip path))
  let parts := (Text.segments '/' p).filter (· ≠ ['.'])
  if p.head? = some '/' then '/' :: Text.joinWith ['/'] (parts.filter (· ≠ []))
  else dropEndSlashes (Text.joinWith ['/'] parts)

end ReplyLedger
