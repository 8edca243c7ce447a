import GridStencil.Text.Lines
import Mathlib.Tactic.SplitIfs

/-!
**Lines and newlines of a text, in characters and in bytes.**

A text is one of its lines, the lines above it, each with the newline that ends it (`closed`), and
the lines below it, each behind a newline (`opened`). No byte of a character other than the newline
is a newline byte, so newlines may be counted in the bytes of a text (`count_newline_bytes`).
-/

namespace GridStencil.Text

/-- Lines, each with the newline that ends it. -/
def closed (lines : List (List Char)) : List Char := lines.flatMap (· ++ ['\n'])

/-- Lines, each behind the newline that ends the line above it. -/
def opened (lines : List (List Char)) : List Char := lines.flatMap ('\n' :: ·)

@[simp] theorem closed_nil : closed [] = [] := rfl

@[simp] theorem closed_cons (line : List Char) (rest : List (List Char)) :
    closed (line :: rest) = line ++ '\n' :: closed rest := by
  simp [closed]

theorem closed_concat (above : List (List Char)) (last : List Char) :
    closed (above ++ [last]) = closed above ++ last ++ ['\n'] := by
  simp [closed]

@[simp] theorem opened_nil : opened [] = [] := rfl

@[simp] theorem opened_cons (line : List Char) (rest : List (List Char)) :
    opened (line :: rest) = '\n' :: (line ++ opened rest) := by
  simp [opened]

theorem joined_cons (line : List Char) (rest : List (List Char)) :
    joined (line :: rest) = line ++ opened rest := by
  induction rest generalizing line with
  | nil => simp [joined]
  | cons next rest ih => simp [joined, ih]

/-- A text with a line set apart. -/
theorem joined_append (above : List (List Char)) (row : List Char) (below : List (List Char)) :
    joined (above ++ row :: below) = closed above ++ (row ++ opened below) := by
  induction above with
  | nil => exact joined_cons row below
  | cons line above ih =>
    have more : above ++ row :: below ≠ [] := by simp
    obtain ⟨next, rest, shape⟩ := List.exists_cons_of_ne_nil more
    rw [shape] at ih
    simp [shape, joined, ih]

theorem byteCount_closed (line : List Char) (rest : List (List Char)) :
    byteCount (closed (line :: rest)) = byteCount line + 1 + byteCount (closed rest) := by
  rw [closed_cons, byteCount_append, byteCount, Nat.add_assoc]
  rfl

theorem byteCount_joined {line : List Char} {rest : List (List Char)} (more : rest ≠ []) :
    byteCount (joined (line :: rest)) = byteCount line + 1 + byteCount (joined rest) := by
  obtain ⟨next, rest, rfl⟩ := List.exists_cons_of_ne_nil more
  rw [joined, byteCount_append, byteCount, Nat.add_assoc]
  · rfl
  · exact more

theorem newline_not_mem_line {cs line : List Char} (member : line ∈ lines cs) : '\n' ∉ line := by
  induction cs generalizing line with
  | nil =>
    obtain rfl : line = [] := by simpa [lines] using member
    exact List.not_mem_nil
  | cons c cs ih =>
    unfold lines at member
    split at member
    next =>
      rcases List.mem_cons.mp member with rfl | later
      · exact List.not_mem_nil
      · exact ih later
    next other =>
      split at member
      next =>
        obtain rfl : line = [c] := by simpa using member
        simpa using fun same => other same.symm
      next front rest shape =>
        rcases List.mem_cons.mp member with rfl | later
        · have bare : '\n' ∉ front := ih (shape ▸ List.mem_cons_self)
          simp [bare, Ne.symm other]
        · exact ih (shape ▸ List.mem_cons_of_mem front later)

theorem count_closed {above : List (List Char)} (bare : ∀ line ∈ above, '\n' ∉ line) :
    (closed above).count '\n' = above.length := by
  induction above with
  | nil => rfl
  | cons line above ih =>
    have first : line.count '\n' = 0 := List.count_eq_zero.mpr (bare line List.mem_cons_self)
    have rest := ih fun other member => bare other (List.mem_cons_of_mem line member)
    simp [first, rest]

/-- Characters that start with a line and go on to a newline hold the whole line before it. -/
theorem covers_line {row below front rest : List Char} (bare : '\n' ∉ row)
    (split : row ++ below = front ++ '\n' :: rest) : ∃ gap, front = row ++ gap := by
  rcases List.append_eq_append_iff.mp split with ⟨gap, covers, -⟩ | ⟨gap, covers, tail⟩
  · exact ⟨gap, covers⟩
  · cases gap with
    | nil => exact ⟨[], by simpa using covers.symm⟩
    | cons c gap =>
      obtain ⟨rfl, -⟩ := List.cons.inj tail
      exact absurd (covers ▸ List.mem_append_right front List.mem_cons_self) bare

/-- Two fronts of one text are the same if neither goes on behind the other. -/
theorem eq_of_append_eq {front rest front' rest' : List Char}
    (same : front ++ rest = front' ++ rest')
    (right : ∀ more, front' = front ++ more → rest = more ++ rest' → more = [])
    (left : ∀ more, front = front' ++ more → rest' = more ++ rest → more = []) :
    front = front' := by
  rcases List.append_eq_append_iff.mp same with ⟨more, longer, tail⟩ | ⟨more, longer, tail⟩
  · rw [longer, right more longer tail, List.append_nil]
  · rw [longer, left more longer tail, List.append_nil]

/-! ### Bytes -/

/-- The bytes of some characters. -/
def bytes (cs : List Char) : List UInt8 := cs.flatMap String.utf8EncodeChar

theorem bytes_append (a b : List Char) : bytes (a ++ b) = bytes a ++ bytes b :=
  List.flatMap_append

theorem toUTF8_eq (text : String) : text.toUTF8.data.toList = bytes text.toList := by
  rw [String.toUTF8_eq_toByteArray, ← String.ofList_toList (s := text), String.toByteArray_ofList,
    String.ofList_toList]
  exact List.toList_data_toByteArray

theorem length_bytes (cs : List Char) : (bytes cs).length = byteCount cs := by
  induction cs with
  | nil => rfl
  | cons c cs ih =>
    rw [bytes, List.flatMap_cons, List.length_append, String.length_utf8EncodeChar]
    exact congrArg (c.utf8Size + ·) ih

theorem utf8ByteSize_eq (text : String) : text.utf8ByteSize = byteCount text.toList := by
  rw [← length_bytes, ← toUTF8_eq]
  exact Array.length_toList.symm

/-- No byte of another character is a newline: in a sequence of several bytes each is at least
`0x80`. -/
theorem newline_not_mem_bytes {c : Char} (other : c ≠ '\n') :
    '\n'.toUInt8 ∉ String.utf8EncodeChar c := by
  have apart : c.val.toNat ≠ 10 := fun same => other (Char.ext (UInt32.toNat_inj.mp same))
  have byte : ∀ n, n % 256 ≠ 10 → '\n'.toUInt8 ≠ UInt8.ofNat n := fun n differs same =>
    differs (congrArg UInt8.toNat same).symm
  unfold String.utf8EncodeChar
  dsimp only
  split_ifs <;> simp only [List.mem_cons, List.not_mem_nil, or_false, not_or]
  · exact byte _ (by omega)
  · exact ⟨byte _ (by omega), byte _ (by omega)⟩
  · exact ⟨byte _ (by omega), byte _ (by omega), byte _ (by omega)⟩
  · exact ⟨byte _ (by omega), byte _ (by omega), byte _ (by omega), byte _ (by omega)⟩

/-- Newlines may be counted in the bytes. -/
theorem count_newline_bytes (cs : List Char) :
    (bytes cs).count '\n'.toUInt8 = cs.count '\n' := by
  induction cs with
  | nil => rfl
  | cons c cs ih =>
    rw [bytes, List.flatMap_cons, List.count_append, ← bytes, ih, List.count_cons]
    by_cases newline : c = '\n'
    · subst newline
      exact Nat.add_comm 1 _
    · rw [List.count_eq_zero.mpr (newline_not_mem_bytes newline), if_neg (by simpa using newline),
        Nat.zero_add, Nat.add_zero]

end GridStencil.Text
