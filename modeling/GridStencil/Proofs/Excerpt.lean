import GridStencil.Source
import GridStencil.Proofs.Text.Lines
import Mathlib.Data.List.Basic

/-!
**An excerpt points at the right place.**

The scan for the lines of a span passes the lines that end before the span starts
(`Scan.Waiting.behind`), finds the line on which it starts (`Scan.Waiting.finds`), and behind that
line keeps what it has found (`Scan.Found.stays`). So it finds the one full line of the text that
holds the first byte of the span (`Line.Full`), and counts the newlines before that byte.

* `Place.line_full`: the line that the scan finds.
* `Place.excerpt_exact`: the excerpt of a place, and its carets.
-/

namespace GridStencil

namespace Line

/-- A full line of a text: the one on which byte `index` stands, or which that byte ends. -/
structure Full (text : String) (index : Nat) where
  above : String
  row : String
  below : String
  whole : text = above ++ row ++ below
  single : '\n' ∉ row.toList
  /-- The line starts the text or stands behind a newline. -/
  opens : above = "" ∨ ∃ front, above = front ++ "\n"
  /-- The line ends the text or stands before a newline. -/
  closes : below = "" ∨ ∃ rest, below = "\n" ++ rest
  reached : above.utf8ByteSize ≤ index
  held : index ≤ above.utf8ByteSize + row.utf8ByteSize

theorem render_eq (line : Line) :
    line.render = toString line.number ++ " " ++ "|" ++ String.ofList line.chars := by
  have mark : " |" = " " ++ "|" := rfl
  rw [render, mark, ← String.append_assoc]

/-- How many of the bytes before byte `index` are newlines. -/
def newlinesBefore (text : String) (index : Nat) : Nat :=
  (text.toUTF8.data.toList.take index).count '\n'.toUInt8

namespace Full

variable {text : String} {index : Nat}

/-- The first byte of the line. -/
def start (full : Full text index) : Nat := full.above.utf8ByteSize

/-- The byte behind the line: the newline that ends it, or the end of the text. -/
def stop (full : Full text index) : Nat := full.start + full.row.utf8ByteSize

theorem toList_whole (full : Full text index) :
    text.toList = full.above.toList ++ (full.row.toList ++ full.below.toList) := by
  have whole := congrArg String.toList full.whole
  rwa [String.toList_append, String.toList_append, List.append_assoc] at whole

/-- One of the lines of a text. -/
def ofLines {above below : List (List Char)} {row : List Char}
    (shape : Text.lines text.toList = above ++ row :: below)
    (reached : Text.byteCount (Text.closed above) ≤ index)
    (held : index ≤ Text.byteCount (Text.closed above) + Text.byteCount row) :
    Full text index where
  above := String.ofList (Text.closed above)
  row := String.ofList row
  below := String.ofList (Text.opened below)
  whole := by
    have joined := Text.joined_lines text.toList
    rw [shape, Text.joined_append] at joined
    rw [← String.ofList_append, ← String.ofList_append, List.append_assoc, joined,
      String.ofList_toList]
  single := by
    rw [String.toList_ofList]
    exact Text.newline_not_mem_line (shape ▸ List.mem_append_right above List.mem_cons_self)
  opens := by
    rcases List.eq_nil_or_concat' above with rfl | ⟨front, last, rfl⟩
    · exact .inl rfl
    · refine .inr ⟨String.ofList (Text.closed front ++ last), ?_⟩
      rw [Text.closed_concat, String.ofList_append]
  closes := by
    cases below with
    | nil => exact .inl rfl
    | cons next rest =>
      refine .inr ⟨String.ofList (next ++ Text.opened rest), ?_⟩
      rw [Text.opened_cons, ← List.singleton_append, String.ofList_append]
  reached := by rwa [Text.utf8ByteSize_eq, String.toList_ofList]
  held := by
    rwa [Text.utf8ByteSize_eq, Text.utf8ByteSize_eq, String.toList_ofList, String.toList_ofList]

theorem opens_toList (full : Full text index) :
    full.above.toList = [] ∨ ∃ front, full.above.toList = front ++ ['\n'] := by
  rcases full.opens with empty | ⟨front, ends⟩
  · exact .inl (by rw [empty]; rfl)
  · exact .inr ⟨front.toList, by rw [ends, String.toList_append]; rfl⟩

theorem closes_toList (full : Full text index) :
    full.below.toList = [] ∨ ∃ rest, full.below.toList = '\n' :: rest := by
  rcases full.closes with empty | ⟨rest, starts⟩
  · exact .inl (by rw [empty]; rfl)
  · exact .inr ⟨rest.toList, by rw [starts, String.toList_append]; rfl⟩

/-- The bytes before one on a line are those of the lines above, and some of the line. -/
theorem take_bytes (full : Full text index) :
    text.toUTF8.data.toList.take index =
      Text.bytes full.above.toList ++ (Text.bytes full.row.toList).take (index - full.start) := by
  have size : (Text.bytes full.above.toList).length = full.start := by
    rw [Text.length_bytes, ← Text.utf8ByteSize_eq]
    rfl
  have fits : index - full.start ≤ (Text.bytes full.row.toList).length := by
    rw [Text.length_bytes, ← Text.utf8ByteSize_eq]
    exact Nat.sub_le_iff_le_add'.mpr full.held
  rw [Text.toUTF8_eq, full.toList_whole, Text.bytes_append, Text.bytes_append, List.take_append,
    List.take_of_length_le (size ▸ full.reached), size, List.take_append_of_le_length fits]

/-- A byte on a line has those newlines before it which the lines above have. -/
theorem newlinesBefore_eq (full : Full text index) :
    newlinesBefore text index = full.above.toList.count '\n' := by
  have bare : (Text.bytes full.row.toList).count '\n'.toUInt8 = 0 := by
    rw [Text.count_newline_bytes]
    exact List.count_eq_zero.mpr full.single
  have front : ((Text.bytes full.row.toList).take (index - full.start)).count '\n'.toUInt8 = 0 :=
    Nat.le_zero.mp (bare ▸ (List.take_sublist _ _).count_le _)
  rw [newlinesBefore, full.take_bytes, List.count_append, front, Text.count_newline_bytes,
    Nat.add_zero]

section OfLines

variable {above below : List (List Char)} {row : List Char}
  (shape : Text.lines text.toList = above ++ row :: below)
  (reached : Text.byteCount (Text.closed above) ≤ index)
  (held : index ≤ Text.byteCount (Text.closed above) + Text.byteCount row)

theorem start_ofLines : (ofLines shape reached held).start = Text.byteCount (Text.closed above) := by
  rw [start, Text.utf8ByteSize_eq]
  exact congrArg Text.byteCount String.toList_ofList

theorem toList_row_ofLines : (ofLines shape reached held).row.toList = row :=
  String.toList_ofList

include shape reached held in
/-- Each line above ends with a newline, and holds no other. -/
theorem newlinesBefore_of_lines : newlinesBefore text index = above.length := by
  have bare : ∀ line ∈ above, '\n' ∉ line := fun line member =>
    Text.newline_not_mem_line (shape ▸ List.mem_append_left _ member)
  rw [(ofLines shape reached held).newlinesBefore_eq, ← Text.count_closed bare]
  exact congrArg (List.count '\n') String.toList_ofList

end OfLines

/-! ### There is one full line -/

/-- What is above the line is no longer in another split of the text: the further part would hold
the whole line and a newline. -/
theorem not_longer (a b : Full text index) {more : List Char}
    (longer : b.above.toList = a.above.toList ++ more) : more = [] := by
  rcases List.eq_nil_or_concat' more with none | ⟨front, last, rfl⟩
  · exact none
  exfalso
  obtain rfl : last = '\n' := by
    rw [← List.append_assoc] at longer
    rcases b.opens_toList with empty | ⟨text, ends⟩
    · rw [empty] at longer
      simp at longer
    · rw [ends] at longer
      exact (List.singleton_inj.mp (List.append_inj_right' longer rfl)).symm
  have split : a.row.toList ++ a.below.toList =
      front ++ '\n' :: (b.row.toList ++ b.below.toList) := by
    have same := a.toList_whole.symm.trans b.toList_whole
    rw [longer] at same
    simpa using same
  obtain ⟨gap, rfl⟩ := Text.covers_line a.single split
  have reached := b.reached
  have held := a.held
  rw [Text.utf8ByteSize_eq, longer] at reached
  rw [Text.utf8ByteSize_eq, Text.utf8ByteSize_eq] at held
  have width : Text.byteCount ['\n'] = 1 := rfl
  simp only [Text.byteCount_append, width] at reached
  omega

/-- The line goes no further in another split that starts it at the same byte. -/
theorem row_not_longer (a b : Full text index) {more : List Char}
    (longer : b.row.toList = a.row.toList ++ more) (rest : a.below.toList = more ++ b.below.toList) :
    more = [] := by
  cases more with
  | nil => rfl
  | cons c more =>
    exfalso
    rcases a.closes_toList with empty | ⟨below, starts⟩
    · rw [empty] at rest
      cases rest
    · rw [starts] at rest
      obtain ⟨rfl, -⟩ := List.cons.inj rest
      exact b.single (longer ▸ List.mem_append_right _ List.mem_cons_self)

/-- A text has one full line around a byte. -/
theorem unique (a b : Full text index) : a = b := by
  have same := a.toList_whole.symm.trans b.toList_whole
  have above : a.above = b.above := String.toList_inj.mp <|
    Text.eq_of_append_eq same (fun _ longer _ => not_longer a b longer)
      fun _ longer _ => not_longer b a longer
  rw [above] at same
  have tails := List.append_cancel_left same
  have row : a.row = b.row := String.toList_inj.mp <|
    Text.eq_of_append_eq tails (fun _ => row_not_longer a b) fun _ => row_not_longer b a
  rw [row] at tails
  have below : a.below = b.below := String.toList_inj.mp (List.append_cancel_left tails)
  cases a
  cases b
  cases above
  cases row
  cases below
  rfl

end Full

namespace Scan

variable {span : Span} {scan : Scan} {line : Line} {chars : List Char} {lines : List (List Char)}

/-- The scan has not come to the line on which the span starts. -/
structure Waiting (span : Span) (scan : Scan) : Prop where
  outside : scan.inside = false
  nothing : scan.kept = []
  ahead : scan.start ≤ span.start

/-- The scan has come to the line on which the span starts. -/
structure Found (line : Line) (scan : Scan) : Prop where
  inside : scan.inside = true
  number : scan.firstNumber = line.number
  start : scan.firstStart = line.start
  kept : ∃ more, scan.kept = line.chars :: more

theorem Found.first (found : Found line scan) : scan.first = line := by
  obtain ⟨more, kept⟩ := found.kept
  unfold Scan.first
  rw [found.number, found.start, kept]
  rfl

theorem waiting_fresh (span : Span) : Waiting span fresh := ⟨rfl, rfl, Nat.zero_le _⟩

/-! ### One line -/

/-- A line that ends before the span starts is passed. -/
theorem Waiting.pass (waiting : Waiting span scan)
    (before : scan.start + Text.byteCount chars < span.start) :
    (scan.enter span chars).keep span chars = scan := by
  have entered : scan.enter span chars = scan := if_neg fun within => by omega
  rw [entered]
  exact if_neg fun kept => by simp [waiting.outside] at kept

theorem Waiting.behind (waiting : Waiting span scan)
    (before : scan.start + Text.byteCount chars < span.start) : Waiting span (scan.leave chars) :=
  ⟨waiting.outside, waiting.nothing, before⟩

/-- The line on which the span starts is found. -/
theorem Waiting.finds (waiting : Waiting span scan) (ordered : span.start ≤ span.stop)
    (here : span.start ≤ scan.start + Text.byteCount chars) :
    Found ⟨scan.number, scan.start, chars⟩ ((scan.enter span chars).keep span chars) := by
  have entered : scan.enter span chars =
      { scan with inside := true, firstNumber := scan.number, firstStart := scan.start } :=
    if_pos ⟨waiting.ahead, here⟩
  have reached : scan.start ≤ span.stop := Nat.le_trans waiting.ahead ordered
  rw [entered, keep, if_pos ⟨rfl, reached⟩]
  exact ⟨rfl, rfl, rfl, [], by rw [waiting.nothing]; rfl⟩

/-- Behind its line the span does not start again. -/
theorem Found.meet (found : Found line scan) (behind : span.start < scan.start) :
    Found line ((scan.enter span chars).keep span chars) := by
  have entered : scan.enter span chars = scan := if_neg fun within => by omega
  rw [entered]
  obtain ⟨more, kept⟩ := found.kept
  unfold keep
  split
  · exact ⟨found.inside, found.number, found.start, more ++ [chars], by rw [kept]; rfl⟩
  · exact found

theorem Found.behind (found : Found line scan) : Found line (scan.leave chars) :=
  ⟨found.inside, found.number, found.start, found.kept⟩

@[simp] theorem start_leave (scan : Scan) (chars : List Char) :
    (scan.leave chars).start = scan.start + Text.byteCount chars + 1 := rfl

@[simp] theorem number_leave (scan : Scan) (chars : List Char) :
    (scan.leave chars).number = scan.number + 1 := rfl

@[simp] theorem start_enter_keep (scan : Scan) (span : Span) (chars : List Char) :
    ((scan.enter span chars).keep span chars).start = scan.start := by
  unfold keep enter
  split <;> split <;> rfl

/-! ### All lines -/

/-- What was found stays. -/
theorem Found.stays (found : Found line scan) (behind : span.start < scan.start) :
    Found line (scan.run span lines) := by
  induction lines generalizing scan with
  | nil => exact found
  | cons chars rest ih =>
    have met : Found line ((scan.enter span chars).keep span chars) := found.meet behind
    rw [Scan.run]
    split
    · exact met
    · refine ih met.behind ?_
      rw [start_leave, start_enter_keep]
      omega

/-- **The scan finds the line on which the span starts**, if the lines to come reach so far. -/
theorem Waiting.run_finds (waiting : Waiting span scan) (ordered : span.start ≤ span.stop)
    (nonempty : lines ≠ [])
    (within : span.start ≤ scan.start + Text.byteCount (Text.joined lines)) :
    ∃ above row below, lines = above ++ row :: below ∧
      scan.start + Text.byteCount (Text.closed above) ≤ span.start ∧
      span.start ≤ scan.start + Text.byteCount (Text.closed above) + Text.byteCount row ∧
      Found ⟨scan.number + above.length, scan.start + Text.byteCount (Text.closed above), row⟩
        (scan.run span lines) := by
  -- over the lines to come: the scan waits as long as they end before the span starts
  induction lines generalizing scan with
  | nil => exact absurd rfl nonempty
  | cons chars rest ih =>
    rw [Scan.run, start_enter_keep]
    by_cases here : span.start ≤ scan.start + Text.byteCount chars
    case pos =>
      have found := waiting.finds ordered here
      refine ⟨[], chars, rest, rfl, waiting.ahead, here, ?_⟩
      split
      · exact found
      · refine found.behind.stays ?_
        rw [start_leave, start_enter_keep]
        omega
    case neg =>
      have before : scan.start + Text.byteCount chars < span.start := Nat.lt_of_not_le here
      have more : rest ≠ [] := by
        rintro rfl
        exact here within
      have further : span.start ≤
          (scan.leave chars).start + Text.byteCount (Text.joined rest) := by
        rw [Text.byteCount_joined more] at within
        rw [start_leave]
        omega
      rw [waiting.pass before, if_neg (by omega)]
      obtain ⟨above, row, below, rfl, reached, held, found⟩ := ih (waiting.behind before) more further
      have start : (scan.leave chars).start + Text.byteCount (Text.closed above) =
          scan.start + Text.byteCount (Text.closed (chars :: above)) := by
        rw [Text.byteCount_closed, start_leave]
        omega
      have number : (scan.leave chars).number + above.length =
          scan.number + (chars :: above).length := by
        rw [number_leave, List.length_cons]
        omega
      rw [start] at reached held found
      rw [number] at found
      exact ⟨chars :: above, row, below, rfl, reached, held, found⟩

end Scan

end Line

namespace Place

open Line (Full newlinesBefore)

/-- The line of a place is the full line of its text around the first byte of its span. -/
theorem line_full (place : Place) (ordered : place.span.start ≤ place.span.stop)
    (inside : place.span.start ≤ place.source.text.utf8ByteSize) :
    ∃ full : Full place.source.text place.span.start,
      place.line = ⟨1 + newlinesBefore place.source.text place.span.start, full.start,
        full.row.toList⟩ := by
  have within : place.span.start ≤
      Line.Scan.fresh.start + Text.byteCount (Text.joined (Text.lines place.source.text.toList)) := by
    rw [Text.joined_lines, ← Text.utf8ByteSize_eq]
    exact Nat.le_trans inside (Nat.le_add_left _ _)
  obtain ⟨above, row, below, shape, reached, held, found⟩ :=
    (Line.Scan.waiting_fresh place.span).run_finds ordered (Text.lines_ne_nil _) within
  have start : Line.Scan.fresh.start + Text.byteCount (Text.closed above) =
      Text.byteCount (Text.closed above) := Nat.zero_add _
  rw [start] at reached held found
  refine ⟨.ofLines shape reached held, ?_⟩
  rw [Full.newlinesBefore_of_lines shape reached held, Full.start_ofLines, Full.toList_row_ofLines]
  exact found.first

/-- **The excerpt of a place shows the full line that holds the first byte of its span**, under the
number of newlines before that byte and one. The carets stand below the bytes of the span on that
line. They do not reach past it, unless a single one marks its end. The span may end on a later line
or behind the text. -/
theorem excerpt_exact (place : Place) (message : String)
    (ordered : place.span.start ≤ place.span.stop)
    (inside : place.span.start ≤ place.source.text.utf8ByteSize) :
    place.line.number = 1 + newlinesBefore place.source.text place.span.start ∧
      Nonempty (Full place.source.text place.span.start) ∧
      ∀ full : Full place.source.text place.span.start,
        let gutter := toString place.line.number ++ " "
        let column := place.span.start - full.start
        let carets := max 1 (min (place.span.stop - place.span.start) (full.stop - place.span.start))
        place.excerpt message =
            place.source.name ++ "\n" ++
              (gutter ++ "|" ++ full.row ++ "\n") ++
              (Text.blanks gutter.length ++ "|" ++ Text.blanks column ++
                String.ofList (List.replicate carets '^') ++ " " ++ message) ∧
          (place.span.start + carets ≤ full.stop ∨ carets = 1 ∧ place.span.start = full.stop) := by
  obtain ⟨found, line⟩ := place.line_full ordered inside
  refine ⟨congrArg Line.number line, ⟨found⟩, fun full => ?_⟩
  obtain rfl := found.unique full
  intro gutter column carets
  have reached : found.start ≤ place.span.start := found.reached
  have held : place.span.start ≤ found.stop := found.held
  have sameColumn : place.column = column := by
    rw [Place.column, line]
  have rest : found.row.utf8ByteSize - column = found.stop - place.span.start := by
    show _ = found.start + found.row.utf8ByteSize - place.span.start
    omega
  have sameCarets : place.carets = carets := by
    rw [Place.carets, sameColumn, line, ← Text.utf8ByteSize_eq, rest]
  have width : (toString place.line.number).length + 1 = gutter.length := by
    rw [String.length_append]
    rfl
  have row : String.ofList place.line.chars = found.row := by
    rw [line, String.ofList_toList]
  have shown : place.line.render = gutter ++ "|" ++ found.row := by
    rw [Line.render_eq, row]
  constructor
  · rw [Place.excerpt, sameColumn, sameCarets, width, shown]
    simp only [String.append_assoc]
  · omega

/-- Three lines, of which the second is empty and the third has a character of two bytes, and a
newline at the end. -/
def sample : Source := ⟨"t.st", "a = 1\n\nb = é + c\n"⟩

/-- A span that goes on behind its line, and an empty one at the end of the text. -/
theorem excerpt_exact_sample :
    (Place.mk sample ⟨14, 18⟩).excerpt "m" = "t.st\n3 |b = é + c\n  |       ^^^ m" ∧
      (Place.mk sample ⟨18, 18⟩).excerpt "m" = "t.st\n4 |\n  |^ m" := by
  constructor
  · obtain ⟨-, -, shows⟩ := excerpt_exact ⟨sample, ⟨14, 18⟩⟩ "m" (by decide) (by decide)
    refine (shows ⟨"a = 1\n\n", "b = é + c", "\n", by decide, by decide, .inr ⟨"a = 1\n", by decide⟩,
      .inr ⟨"", by decide⟩, by decide, by decide⟩).1.trans ?_
    decide
  · obtain ⟨-, -, shows⟩ := excerpt_exact ⟨sample, ⟨18, 18⟩⟩ "m" (by decide) (by decide)
    refine (shows ⟨"a = 1\n\nb = é + c\n", "", "", by decide, by decide,
      .inr ⟨"a = 1\n\nb = é + c", by decide⟩, .inl rfl, by decide, by decide⟩).1.trans ?_
    decide

end Place

end GridStencil
