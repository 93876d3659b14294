/-!
# File paths

A path is its text. Joining is the only operation that changes it: nothing here normalises `.`,
`..` or repeated slashes.

* `Path.join`: an absolute second path replaces the first; otherwise one slash separates the two.
-/

namespace LinkageAudit

/-- A file path, as the user wrote it. -/
structure Path where
  text : String
  deriving DecidableEq, Repr

namespace Path

/-- Starts with a slash. -/
def isAbsolute (p : Path) : Bool := p.text.startsWith "/"

/-- The path `rel` as seen from the directory `base`. -/
def join (base rel : Path) : Path :=
  if rel.isAbsolute || base.text.isEmpty then rel
  else if base.text.endsWith "/" then ⟨base.text ++ rel.text⟩
  else ⟨base.text ++ "/" ++ rel.text⟩

theorem join_absolute (base : Path) {rel : Path} (h : rel.isAbsolute = true) :
    base.join rel = rel := by
  simp [join, h]

theorem empty_join (rel : Path) : Path.join ⟨""⟩ rel = rel := by
  simp [join]

end Path

end LinkageAudit
