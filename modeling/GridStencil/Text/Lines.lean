/-!
Lines of a text, measured in bytes.

A newline byte ends the line it stands in, so a text with `n` newlines has `n + 1` lines, the last
of them possibly empty. `joined_lines` says that nothing is lost: the lines, joined by newlines,
are the text again.
-/

namespace GridStencil.Text

/-- The number of bytes a run of characters takes in UTF-8. -/
def byteCount : List Char → Nat
  | [] => 0
  | c :: cs => c.utf8Size + byteCount cs

/-- The lines of a text without the newlines that end them. -/
def lines : List Char → List (List Char)
  | [] => [[]]
  | c :: cs =>
    if c = '\n' then
      [] :: lines cs
    else
      match lines cs with
      | [] => [[c]]
      | line :: rest => (c :: line) :: rest

/-- The lines of a text with a newline between neighbours. -/
def joined : List (List Char) → List Char
  | [] => []
  | [line] => line
  | line :: rest => line ++ '\n' :: joined rest

@[simp] theorem byteCount_append (a b : List Char) :
    byteCount (a ++ b) = byteCount a + byteCount b := by
  induction a with
  | nil => simp [byteCount]
  | cons c cs ih => simp [byteCount, ih, Nat.add_assoc]

theorem lines_ne_nil (cs : List Char) : lines cs ≠ [] := by
  cases cs with
  | nil => simp [lines]
  | cons c cs =>
    unfold lines
    split
    · simp
    · split <;> simp

theorem joined_lines (cs : List Char) : joined (lines cs) = cs := by
  induction cs with
  | nil => rfl
  | cons c cs ih =>
    unfold lines
    split
    next newline =>
      cases rest : lines cs with
      | nil => exact absurd rest (lines_ne_nil cs)
      | cons line more => simp [joined, newline, ← rest, ih]
    next =>
      cases rest : lines cs with
      | nil => exact absurd rest (lines_ne_nil cs)
      | cons line more =>
        rw [rest] at ih
        cases more with
        | nil => simpa [joined] using ih
        | cons next more => simpa [joined] using ih

end GridStencil.Text
