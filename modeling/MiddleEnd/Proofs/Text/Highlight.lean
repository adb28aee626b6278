import MiddleEnd.Proofs.Code.Names
import MiddleEnd.Proofs.Text.Position

/-! The excerpt of a text that shows a span: the line in which the span starts, as it is, and carets below
it. The carets are placed and counted by bytes, so that they stand under the span exactly where its line has
one byte for each character up to the end of the span. -/

namespace MiddleEnd

open List

variable {source : Source} {span : Span} {lead part tail : List Char}

/-! ### Text without its colours -/

structure Fragment where
  colour : Option Colour := none
  text : String

namespace Fragment

variable (terminal : Terminal)

def shown (fragment : Fragment) : String :=
  match fragment.colour with
  | some colour => terminal.paint colour fragment.text
  | none => fragment.text

def Printable (fragment : Fragment) : Prop :=
  ∀ c ∈ fragment.text.toList, 32 ≤ c.toNat ∧ c.toNat < 127

theorem printable_digits (colour : Option Colour) (number : Nat) :
    Printable ⟨colour, toString number⟩ := by
  intro c mem
  have digit := isDigit_of_mem_digits mem
  simp only [Char.isDigit, Bool.and_eq_true, decide_eq_true_eq, UInt32.le_iff_toNat_le] at digit
  have low : 48 ≤ c.toNat := digit.1
  have high : c.toNat ≤ 57 := digit.2
  omega

theorem printable_replicate (colour : Option Colour) (n : Nat) {c : Char}
    (printable : 32 ≤ c.toNat ∧ c.toNat < 127) : Printable ⟨colour, String.ofList (replicate n c)⟩ := by
  intro other mem
  rw [String.toList_ofList] at mem
  exact eq_of_mem_replicate mem ▸ printable

theorem Printable.newline_not_mem {fragment : Fragment} (printable : fragment.Printable) :
    '\n' ∉ fragment.text.toList := by
  intro mem
  have low : 32 ≤ '\n'.toNat := (printable _ mem).1
  exact absurd low (by decide)

end Fragment

/-- What is asked of a terminal: to take the colours out of a line leaves its text, and to colour a
text starts no line. -/
structure Terminal.Lawful (terminal : Terminal) : Prop where
  strip_shown : ∀ fragments : List Fragment, (∀ fragment ∈ fragments, fragment.Printable) →
    terminal.strip (String.join (fragments.map (Fragment.shown terminal))) =
      String.join (fragments.map Fragment.text)
  newline_paint : ∀ colour text, '\n' ∉ text.toList → '\n' ∉ (terminal.paint colour text).toList

theorem Terminal.Lawful.newline_shown {terminal : Terminal} (lawful : terminal.Lawful)
    {fragment : Fragment} (printable : fragment.Printable) :
    '\n' ∉ (fragment.shown terminal).toList := by
  obtain ⟨colour, text⟩ := fragment
  cases colour with
  | none => exact printable.newline_not_mem
  | some colour => exact lawful.newline_paint colour text printable.newline_not_mem

/-- A terminal whose colours are switched off. -/
def Terminal.colourless : Terminal := ⟨fun _ text => text, id⟩

theorem Terminal.lawful_colourless : colourless.Lawful where
  strip_shown fragments _ := by
    have shown (fragment : Fragment) : fragment.shown colourless = fragment.text := by
      unfold Fragment.shown
      split <;> rfl
    exact congrArg String.join (map_congr_left fun fragment _ => shown fragment)
  newline_paint _ _ clear := clear

/-! ### The line of a span -/

theorem length_le_byteLength (text : List Char) : text.length ≤ byteLength text := by
  induction text with
  | nil => exact Nat.le_refl _
  | cons c cs ih =>
    have := c.utf8Size_pos
    simp only [length_cons, byteLength]
    omega

theorem byteLength_eq_length_iff (text : List Char) :
    byteLength text = text.length ↔ ∀ c ∈ text, c.utf8Size = 1 := by
  induction text with
  | nil => simp [byteLength]
  | cons c cs ih =>
    have := c.utf8Size_pos
    have := length_le_byteLength cs
    rw [forall_mem_cons, ← ih, byteLength, length_cons]
    omega

namespace Source

def LineAt (source : Source) (position : Nat) (lead rest : List Char) : Prop :=
  ∃ earlier later, source.chars = earlier ++ lead ++ (rest ++ later) ∧ byteLength (earlier ++ lead) = position ∧
    EndsLine earlier ∧ '\n' ∉ lead ++ rest ∧ StartsWithNewline later

/-- What stands before, in and after the part of a line that a span covers, where the span starts in the line. -/
structure Covers (source : Source) (span : Span) (lead part tail : List Char) : Prop where
  line : source.LineAt span.start lead (part ++ tail)
  stop : span.stop = span.start + byteLength part ∨ tail = [] ∧ span.start + byteLength part ≤ span.stop

theorem exists_covers (ordered : span.start ≤ span.stop) (starts : source.Boundary span.start)
    (stops : source.Boundary span.stop ∨ source.size ≤ span.stop) :
    ∃ lead part tail, source.Covers span lead part tail := by
  obtain ⟨before, after, cut, start⟩ := starts
  obtain ⟨earlier, lines, ends⟩ := exists_lastLine before
  obtain ⟨later, after_eq, newline⟩ := exists_firstLine after
  have clear : '\n' ∉ lastLine before ++ firstLine after := fun mem =>
    (mem_append.mp mem).elim (newline_not_mem_lastLine before) (newline_not_mem_firstLine after)
  suffices ∃ part tail, firstLine after = part ++ tail ∧
      (span.stop = span.start + byteLength part ∨ tail = [] ∧ span.start + byteLength part ≤ span.stop) by
    obtain ⟨part, tail, line, stop⟩ := this
    refine ⟨lastLine before, part, tail, ⟨earlier, _, ?_, lines ▸ start, ends, line ▸ clear, newline⟩, stop⟩
    rw [← lines, cut, ← line, ← after_eq]
  by_cases past : span.start + byteLength (firstLine after) ≤ span.stop
  · exact ⟨firstLine after, [], (append_nil _).symm, .inr ⟨rfl, past⟩⟩
  · have inside : byteLength before + byteLength (firstLine after) ≤ source.size := by
      have sizes := congrArg byteLength after_eq
      simp only [size, cut, byteLength_append] at sizes ⊢
      omega
    obtain ⟨front, rest, cut', stop⟩ := stops.resolve_right (by omega)
    obtain ⟨part, rfl, part_eq⟩ := exists_between (cut.symm.trans cut') (by omega)
    rw [byteLength_append] at stop
    obtain ⟨tail, line, -⟩ := exists_between (part_eq.symm.trans after_eq) (by omega)
    exact ⟨part, tail, line, .inl (by omega)⟩

theorem excerpt?_of_covers (covers : source.Covers span lead part tail) :
    source.excerpt? span = some (lead ++ (part ++ tail), byteLength lead, byteLength part) := by
  obtain ⟨⟨earlier, later, cut, start, ends, clear, newline⟩, stop⟩ := covers
  have clear_lead := mt (mem_append_left (part ++ tail)) clear
  have clear_rest := mt (mem_append_right lead) clear
  have last : lastLine (earlier ++ lead) = lead := by
    rw [lastLine_append earlier clear_lead]
    rcases ends with rfl | ⟨lines, rfl⟩ <;> simp [lastLine]
  have first : firstLine (part ++ tail ++ later) = part ++ tail := by
    rw [firstLine_append clear_rest]
    rcases newline with rfl | ⟨more, rfl⟩ <;> simp [firstLine]
  rw [excerpt?, ← start, cut?_byteLength cut]
  simp only [Option.bind_some, last, first]
  rw [byteLength_append] at start
  -- In bytes from the start of the line the span goes from `lead` to the end of `part`.
  have start_eq : min (span.start - byteLength earlier) (byteLength (lead ++ (part ++ tail))) = byteLength lead := by
    simp only [byteLength_append]
    omega
  have stop_eq : min (span.stop - byteLength earlier) (byteLength (lead ++ (part ++ tail))) =
      byteLength lead + byteLength part := by
    simp only [byteLength_append]
    rcases stop with stop | ⟨rfl, stop⟩
    · omega
    · simp only [byteLength]
      omega
  rw [byteLength_append, Nat.add_sub_cancel, start, start_eq, stop_eq, if_neg (by omega), Nat.add_sub_cancel_left]

def carets (width : Nat) : String := String.ofList (replicate width '^')

/-- Whether a text has a line as it is, after its number and a bar, and below that line, colours apart,
carets so many columns into it. -/
def Underlines (terminal : Terminal) (text number : String) (line : List Char) (indent width : Nat) :
    Prop :=
  ∃ top margin below, text = top ++ "\n" ++ margin ++ String.ofList line ++ "\n" ++ below ∧
    (∀ part ∈ [top, margin, below], '\n' ∉ part.toList) ∧ terminal.strip margin = number ++ " | " ∧
    terminal.strip below = spaces number.length ++ " | " ++ spaces indent ++ carets width

theorem highlight?_underlines {terminal : Terminal} (lawful : terminal.Lawful) {line : List Char}
    {indent width : Nat} (excerpt : source.excerpt? span = some (line, indent, width)) :
    ∃ text, source.highlight? terminal span = some text ∧
      Underlines terminal text (toString (source.row span.start)) line indent (max width 1) := by
  have row_printable (colour : Option Colour) :=
    Fragment.printable_digits colour (source.row span.start)
  rw [highlight?, excerpt, Option.map_some]
  dsimp only
  generalize toString (source.row span.start) = row at row_printable ⊢
  generalize max width 1 = width
  have blanks (n : Nat) : Fragment.Printable ⟨none, spaces n⟩ := Fragment.printable_replicate _ n (by decide)
  have bar : Fragment.Printable ⟨some .blue, "|"⟩ := Fragment.printable_replicate _ 1 (by decide)
  have marks : Fragment.Printable ⟨some .red, carets width⟩ := Fragment.printable_replicate _ width (by decide)
  let top : List Fragment := [⟨none, spaces row.length⟩, ⟨none, spaces 1⟩, ⟨some .blue, "|"⟩]
  let margin : List Fragment := [⟨some .blue, row⟩, ⟨none, spaces 1⟩, ⟨some .blue, "|"⟩, ⟨none, spaces 1⟩]
  let below : List Fragment :=
    top ++ [⟨none, spaces 1⟩, ⟨none, spaces indent⟩, ⟨some .red, carets width⟩]
  have printable_top : ∀ fragment ∈ top, fragment.Printable := by simp [top, blanks, bar]
  have printable_margin : ∀ fragment ∈ margin, fragment.Printable := by
    simp [margin, blanks, bar, row_printable]
  have printable_below : ∀ fragment ∈ below, fragment.Printable := by simp [below, top, blanks, bar, marks]
  have clear (fragments : List Fragment) (printable : ∀ fragment ∈ fragments, fragment.Printable) :
      '\n' ∉ (String.join (fragments.map (Fragment.shown terminal))).toList := by
    rw [String.toList_join]
    simp only [mem_flatMap, mem_map, not_exists]
    rintro _ ⟨⟨fragment, mem, rfl⟩, inside⟩
    exact lawful.newline_shown (printable fragment mem) inside
  refine ⟨_, rfl, _, _, _, ?_, forall_mem_cons.mpr ⟨clear top printable_top, forall_mem_cons.mpr
    ⟨clear margin printable_margin, forall_mem_singleton.mpr (clear below printable_below)⟩⟩,
    (lawful.strip_shown margin printable_margin).trans ?_,
    (lawful.strip_shown below printable_below).trans ?_⟩
  all_goals
    rw [← String.toList_inj]
    simp [top, margin, below, Fragment.shown, spaces, carets, String.toList_append]

/-- A span is shown with the line in which it starts, as it is. The carets below begin as many columns into
the line as there are bytes before the span and are as many as the bytes that the span covers, or one. They
are under the span if and only if its line has one byte for each character up to the end of the span. -/
theorem highlight_underlines (terminal : Terminal) (lawful : terminal.Lawful)
    (ordered : span.start ≤ span.stop) (starts : source.Boundary span.start)
    (stops : source.Boundary span.stop ∨ source.size ≤ span.stop) :
    ∃ lead part tail, source.Covers span lead part tail ∧
      (∃ text, source.highlight? terminal span = some text ∧
        Underlines terminal text (toString (source.row span.start)) (lead ++ (part ++ tail))
          (byteLength lead) (max (byteLength part) 1)) ∧
      (byteLength lead = lead.length ∧ max (byteLength part) 1 = max part.length 1 ↔
        ∀ c ∈ lead ++ part, c.utf8Size = 1) := by
  obtain ⟨lead, part, tail, covers⟩ := exists_covers ordered starts stops
  refine ⟨lead, part, tail, covers, highlight?_underlines lawful (excerpt?_of_covers covers), ?_⟩
  rw [forall_mem_append, ← byteLength_eq_length_iff, ← byteLength_eq_length_iff]
  have le := length_le_byteLength part
  have empty (none : part.length = 0) : byteLength part = 0 := length_eq_zero_iff.mp none ▸ rfl
  omega

/-- A line with a character of two bytes before the last word. -/
def accented : Source := { text := "é = oops" }

theorem boundary_accented : accented.Boundary 5 ∧ accented.Boundary 9 :=
  ⟨⟨['é', ' ', '=', ' '], ['o', 'o', 'p', 's'], rfl, rfl⟩, ⟨_, [], (append_nil _).symm, rfl⟩⟩

theorem highlight_underlines_accented :
    Terminal.colourless.Lawful ∧ accented.Boundary 5 ∧ accented.Boundary 9 ∧
    ∃ lead part tail, accented.Covers ⟨5, 9⟩ lead part tail ∧
      ∃ text, accented.highlight? .colourless ⟨5, 9⟩ = some text ∧
        Underlines .colourless text "1" (lead ++ (part ++ tail)) (byteLength lead)
          (max (byteLength part) 1) := by
  have lawful := Terminal.lawful_colourless
  obtain ⟨starts, stops⟩ := boundary_accented
  obtain ⟨lead, part, tail, covers, shown, -⟩ :=
    @highlight_underlines accented ⟨5, 9⟩ .colourless lawful (by decide) starts (.inl stops)
  exact ⟨lawful, starts, stops, lead, part, tail, covers, shown⟩

/-- The last word starts after four characters, but the carets after five columns. -/
theorem accented_shifted :
    accented.Covers ⟨5, 9⟩ ['é', ' ', '=', ' '] ['o', 'o', 'p', 's'] [] ∧
      accented.highlight? .colourless ⟨5, 9⟩ = some "  |\n1 | é = oops\n  |      ^^^^" ∧
      ∀ terminal, accented.highlight? terminal ⟨5, 9⟩ =
        some (" " ++ " " ++ terminal.paint .blue "|" ++ "\n" ++
          terminal.paint .blue "1" ++ " " ++ terminal.paint .blue "|" ++ " " ++ "é = oops" ++ "\n" ++
          " " ++ " " ++ terminal.paint .blue "|" ++ " " ++ "     " ++ terminal.paint .red "^^^^") := by
  refine ⟨⟨⟨[], [], rfl, rfl, .inl rfl, by decide, .inl rfl⟩, .inl rfl⟩, by decide +kernel, fun terminal => ?_⟩
  have excerpt : accented.excerpt? ⟨5, 9⟩ = some ("é = oops".toList, 5, 4) := by decide +kernel
  rw [highlight?, excerpt]
  rfl

end Source

end MiddleEnd
