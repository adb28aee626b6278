import MiddleEnd.Source

/-! Rows and columns of a text. The row of a position is found by counting newlines from the front, its
column by looking for one from the position back; both scans agree on the line, so that a row and a
column identify a position. -/

namespace MiddleEnd

open List

variable {first second : Nat} {line : List Char} {source : Source} {position : Nat}
  {before after : List Char}

/-! ### Offsets -/

@[simp] theorem byteLength_append (first second : List Char) :
    byteLength (first ++ second) = byteLength first + byteLength second := by
  induction first with
  | nil => simp [byteLength]
  | cons c cs ih => simp [byteLength, ih, Nat.add_assoc]

theorem byteLength_pos (filled : before ≠ []) : 0 < byteLength before := by
  obtain ⟨c, cs, rfl⟩ := exists_cons_of_ne_nil filled
  exact Nat.add_pos_left c.utf8Size_pos _

theorem exists_between {first second rest : List Char} (same : first ++ rest = second ++ after)
    (le : byteLength first ≤ byteLength second) :
    ∃ between, second = first ++ between ∧ rest = between ++ after := by
  rcases append_eq_append_iff.mp same with found | ⟨between, rfl, rest_eq⟩
  · exact found
  · by_cases filled : between = []
    · exact ⟨[], by simp [filled], by simp [filled, rest_eq]⟩
    · have := byteLength_pos filled
      rw [byteLength_append] at le
      omega

theorem splitAtByte_byteLength (before after : List Char) :
    splitAtByte (byteLength before) (before ++ after) = some (before, after) := by
  induction before with
  | nil => simp [byteLength, splitAtByte]
  | cons c cs ih =>
    obtain ⟨size, size_eq⟩ := Nat.exists_eq_add_one.mpr c.utf8Size_pos
    simp [byteLength, size_eq, Nat.add_right_comm, splitAtByte, ih]

theorem newlinesBefore_byteLength (before after : List Char) :
    newlinesBefore (byteLength before) (before ++ after) = before.count '\n' := by
  induction before with
  | nil => simp [byteLength, newlinesBefore]
  | cons c cs ih =>
    obtain ⟨size, size_eq⟩ := Nat.exists_eq_add_one.mpr c.utf8Size_pos
    simp [byteLength, size_eq, newlinesBefore, ih, count_cons, Nat.add_comm]

/-! ### Lines -/

def EndsLine (before : List Char) : Prop := before = [] ∨ ∃ earlier, before = earlier ++ ['\n']

def StartsWithNewline (after : List Char) : Prop := after = [] ∨ ∃ later, after = '\n' :: later

theorem newline_not_mem_firstLine (after : List Char) : '\n' ∉ firstLine after :=
  fun mem => by simpa using all_eq_true.mp all_takeWhile _ mem

theorem exists_firstLine (after : List Char) : ∃ later, after = firstLine after ++ later ∧ StartsWithNewline later := by
  refine ⟨after.dropWhile (· ≠ '\n'), takeWhile_append_dropWhile.symm, ?_⟩
  have newline := head?_dropWhile_not (· ≠ '\n') after
  cases rest : after.dropWhile (· ≠ '\n') with
  | nil => exact .inl rfl
  | cons c cs =>
    rw [rest] at newline
    exact .inr ⟨cs, by simpa using newline⟩

theorem newline_not_mem_lastLine (before : List Char) : '\n' ∉ lastLine before :=
  fun mem => newline_not_mem_firstLine before.reverse (mem_reverse.mp mem)

theorem exists_lastLine (before : List Char) : ∃ earlier, before = earlier ++ lastLine before ∧ EndsLine earlier := by
  obtain ⟨later, cut, starts⟩ := exists_firstLine before.reverse
  refine ⟨later.reverse, ?_, starts.imp (by simp [·]) fun ⟨rest, eq⟩ => ⟨rest.reverse, by simp [eq]⟩⟩
  rw [← reverse_inj, reverse_append, reverse_reverse]
  exact cut.trans (congrArg (· ++ later) (reverse_reverse _).symm)

theorem firstLine_append (clear : '\n' ∉ line) (rest : List Char) :
    firstLine (line ++ rest) = line ++ firstLine rest :=
  takeWhile_append_of_pos fun c mem => by simpa using fun same : c = '\n' => clear (same ▸ mem)

theorem lastLine_append (before : List Char) (clear : '\n' ∉ line) :
    lastLine (before ++ line) = lastLine before ++ line := by
  have reversed := firstLine_append (mt mem_reverse.mp clear) before.reverse
  rw [← reverse_append] at reversed
  exact (congrArg reverse reversed).trans (by rw [reverse_append, reverse_reverse]; rfl)

def newlineEnds (offset : Nat) : List Char → List Nat
  | [] => []
  | c :: cs =>
    if c = '\n' then (offset + c.utf8Size) :: newlineEnds (offset + c.utf8Size) cs
    else newlineEnds (offset + c.utf8Size) cs

theorem newlineEnds_append (offset : Nat) (first second : List Char) : newlineEnds offset (first ++ second) =
    newlineEnds offset first ++ newlineEnds (offset + byteLength first) second := by
  induction first generalizing offset with
  | nil => simp [newlineEnds, byteLength]
  | cons c cs ih =>
    simp only [cons_append, newlineEnds, byteLength, ih, Nat.add_assoc]
    split <;> rfl

theorem length_newlineEnds (offset : Nat) (text : List Char) :
    (newlineEnds offset text).length = text.count '\n' := by
  induction text generalizing offset with
  | nil => rfl
  | cons c cs ih => by_cases newline : c = '\n' <;> simp [newlineEnds, newline, ih]

namespace Source

def lineStarts (source : Source) : List Nat := 0 :: newlineEnds 0 source.chars

/-- Whether an offset lies between two characters of a text or at one of its ends. -/
def Boundary (source : Source) (position : Nat) : Prop :=
  ∃ before after, source.chars = before ++ after ∧ byteLength before = position

def NewlineAt (source : Source) (position : Nat) : Prop :=
  ∃ before after, source.chars = before ++ '\n' :: after ∧ byteLength before = position

/-- Whether a row is the line of a text in which a position lies, at a column of it. -/
structure Locates (source : Source) (position row column : Nat) : Prop where
  row_pos : 0 < row
  column_pos : 0 < column
  start_le : column - 1 ≤ position
  starts : source.lineStarts[row - 1]? = some (position - (column - 1))
  clear : ∀ offset, position - (column - 1) ≤ offset → offset < position → ¬ source.NewlineAt offset

theorem lineStarts_of_endsLine {earlier : List Char} (cut : source.chars = earlier ++ after)
    (ends : EndsLine earlier) : source.lineStarts[earlier.count '\n']? = some (byteLength earlier) := by
  rw [lineStarts, cut, newlineEnds_append]
  rcases ends with rfl | ⟨lines, rfl⟩
  · rfl
  · rw [count_append, count_singleton_self, getElem?_cons_succ, newlineEnds_append]
    rw [append_assoc, getElem?_append_right (Nat.le_of_eq (length_newlineEnds ..)), length_newlineEnds, Nat.sub_self]
    simp [newlineEnds, byteLength]

section Cut

variable (cut : source.chars = before ++ after)
include cut

theorem cut?_byteLength : source.cut? (byteLength before) = some (before, after) := by
  have le : byteLength before ≤ source.size := by simp [size, cut]
  rw [cut?, clamp, Nat.min_eq_left le, cut]
  exact splitAtByte_byteLength before after

theorem row_byteLength : source.row (byteLength before) = before.count '\n' + 1 := by
  rw [row, cut, newlinesBefore_byteLength]

theorem column?_byteLength : source.column? (byteLength before) = some (byteLength (lastLine before) + 1) := by
  rw [column?, cut?_byteLength cut]
  rfl

theorem locates_byteLength : source.Locates (byteLength before) (source.row (byteLength before))
    (byteLength (lastLine before) + 1) := by
  obtain ⟨earlier, lines, ends⟩ := exists_lastLine before
  have sizes : byteLength before = byteLength earlier + byteLength (lastLine before) := by
    rw [← byteLength_append, ← lines]
  have start : byteLength before - byteLength (lastLine before) = byteLength earlier := by omega
  have clear := newline_not_mem_lastLine before
  have rows : before.count '\n' = earlier.count '\n' := by
    rw [lines, count_append, count_eq_zero_of_not_mem clear, Nat.add_zero]
  refine ⟨?_, Nat.succ_pos _, ?_, ?_, ?_⟩
  · exact row_byteLength cut ▸ Nat.succ_pos _
  · exact sizes ▸ Nat.le_add_left ..
  · rw [row_byteLength cut, Nat.add_sub_cancel, Nat.add_sub_cancel, start, rows]
    exact lineStarts_of_endsLine (by rw [cut, ← append_assoc, ← lines]) ends
  · rw [Nat.add_sub_cancel, start]
    rintro _ from_start lt ⟨first, rest, newline, rfl⟩
    -- The newline would stand after the lines before and before the cut, so in the line itself.
    obtain ⟨inside, before_eq, rest_eq⟩ := exists_between (newline.symm.trans cut) (Nat.le_of_lt lt)
    obtain ⟨lead, rfl, line_eq⟩ := exists_between (lines.symm.trans before_eq) from_start
    cases inside with
    | nil => simp [before_eq] at lt
    | cons c cs =>
      obtain ⟨rfl, -⟩ := cons.inj rest_eq
      exact clear (line_eq ▸ by simp)

end Cut

theorem place_lt (here : source.Boundary first) (there : source.Boundary second) (lt : first < second)
    {left right : Nat} (left_eq : source.column? first = some left)
    (right_eq : source.column? second = some right) :
    source.row first < source.row second ∨ source.row first = source.row second ∧ left < right := by
  obtain ⟨before, after, cut, rfl⟩ := here
  obtain ⟨_, rest, cut', rfl⟩ := there
  obtain ⟨between, rfl, -⟩ := exists_between (cut.symm.trans cut') (Nat.le_of_lt lt)
  rw [row_byteLength cut, row_byteLength cut', count_append]
  by_cases newline : '\n' ∈ between
  · have := count_pos_iff.mpr newline
    exact .inl (by omega)
  · refine .inr ⟨by rw [count_eq_zero_of_not_mem newline], ?_⟩
    obtain rfl := Option.some.inj ((column?_byteLength cut).symm.trans left_eq)
    obtain rfl := Option.some.inj ((column?_byteLength cut').symm.trans right_eq)
    rw [byteLength_append] at lt
    rw [lastLine_append before newline, byteLength_append]
    omega

/-- A row and a column identify a position. The line that the row counts starts as many bytes before the
position as the column says, with no newline between, and positions are in the order of their rows, those
of one row in the order of their columns. -/
theorem place_identifies (here : source.Boundary first) (there : source.Boundary second) :
    ∃ left right, source.column? first = some left ∧ source.column? second = some right ∧
      source.Locates first (source.row first) left ∧
      (first < second → source.row first < source.row second ∨
        source.row first = source.row second ∧ left < right) ∧
      (first ≠ second → (source.row first, left) ≠ (source.row second, right)) := by
  obtain ⟨before, after, cut, rfl⟩ := id here
  obtain ⟨other, rest, cut', rfl⟩ := id there
  have left_eq := column?_byteLength cut
  have right_eq := column?_byteLength cut'
  refine ⟨_, _, left_eq, right_eq, locates_byteLength cut, fun lt => place_lt here there lt left_eq right_eq, ?_⟩
  intro differ same
  obtain ⟨same_row, same_column⟩ := Prod.mk.inj same
  rcases Nat.lt_or_gt_of_ne differ with lt | lt
  · have := place_lt here there lt left_eq right_eq
    omega
  · have := place_lt there here lt right_eq left_eq
    omega

/-- An empty line between two others. -/
def gapped : Source := { text := "é\n\nb" }

theorem place_identifies_gapped : gapped.Boundary 3 ∧ gapped.Boundary 4 ∧
    ∃ left right, gapped.column? 3 = some left ∧ gapped.column? 4 = some right ∧ gapped.Locates 3 2 left ∧
      (gapped.row 3 < gapped.row 4 ∨ gapped.row 3 = gapped.row 4 ∧ left < right) := by
  have here : gapped.Boundary 3 := ⟨['é', '\n'], ['\n', 'b'], rfl, rfl⟩
  have there : gapped.Boundary 4 := ⟨['é', '\n', '\n'], ['b'], rfl, rfl⟩
  obtain ⟨left, right, left_eq, right_eq, locates, ordered, -⟩ := place_identifies here there
  exact ⟨here, there, left, right, left_eq, right_eq, locates, ordered (by decide)⟩

end Source

end MiddleEnd
