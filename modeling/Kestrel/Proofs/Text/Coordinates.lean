import Kestrel.Proofs.Text.Positions
import Kestrel.Text.Pieces
import Mathlib.Data.Prod.Lex

/-!
# Line indices as coordinate systems

The lines of a line index are the pieces of its source between newlines. Every place where a
character starts or the source ends has a position of its own, on the line whose bytes it is among,
and places further on have later lines, or later columns of the same line.

## Main definitions

- `Text.lineRanges` — the bytes of some lines with newlines between them
- `Text.IsLine` — a line of a text, cut out of it
- `LineIndex.IsExact` — the lines and positions of an index are those of a source

## Main statements

- `LineIndex.range?_succ`, `LineIndex.range?_of_isLine` — the bytes of the lines
- `LineIndex.exists_range?_of_isPlace` — a position lies on its line
- `LineIndex.position_lt_position` — positions come in the order of the offsets
- `LineIndex.isExact_ofString` — the index of a source is exact
-/

namespace Kestrel

open Text

/-! ### Lines -/

/-- The bytes of each of some lines with newlines between them, the first of which stands at
`offset`. -/
def Text.lineRanges (offset : Nat) : List (List Char) → List (Nat × Nat)
  | [] => []
  | line :: rest =>
    (offset, offset + byteLength line) :: lineRanges (offset + byteLength line + 1) rest

theorem Text.length_lineRanges (offset : Nat) (lines : List (List Char)) :
    (lineRanges offset lines).length = lines.length := by
  induction lines generalizing offset with
  | nil => rfl
  | cons line rest ih => rw [lineRanges, List.length_cons, List.length_cons, ih]

namespace LineIndex

/-- The bytes of the lines that start at some offsets, up to the newlines in front of the next ones;
the last line ends at `size`. -/
def rangesBetween (size : Nat) : List Nat → List (Nat × Nat)
  | [] => []
  | [start] => [(start, size)]
  | start :: next :: rest => (start, next - 1) :: rangesBetween size (next :: rest)

theorem getElem?_rangesBetween (size i : Nat) (starts : List Nat) :
    (rangesBetween size starts)[i]? = starts[i]?.map fun start =>
      (start, match starts[i + 1]? with
        | some next => next - 1
        | none => size) := by
  fun_induction rangesBetween size starts generalizing i with
  | case1 => rfl
  | case2 start => cases i <;> rfl
  | case3 start next rest ih =>
    cases i with
    | zero => rfl
    | succ i => exact ih i

theorem startsFrom_of_notMem {line : List Char} (h : '\n' ∉ line) (offset : Nat) :
    startsFrom offset line = [] := by
  rw [← List.length_eq_zero_iff, length_startsFrom, List.count_eq_zero_of_not_mem h]

/-- The lines between the starts are the pieces of the text. -/
theorem rangesBetween_startsFrom (offset : Nat) (cs : List Char) :
    rangesBetween (offset + byteLength cs) (offset :: startsFrom offset cs) =
      lineRanges offset (pieces '\n' cs) := by
  induction cs using pieces_induction '\n' generalizing offset with
  | last line h =>
    rw [startsFrom_of_notMem h, pieces_of_notMem h]
    rfl
  | next line cs h ih =>
    have hsize : '\n'.utf8Size = 1 := rfl
    have hend : offset + byteLength (line ++ '\n' :: cs) =
        offset + byteLength line + 1 + byteLength cs := by
      rw [byteLength_append, byteLength_cons, hsize]
      omega
    rw [startsFrom_append, startsFrom_of_notMem h, List.nil_append, startsFrom, if_pos rfl, hsize,
      pieces_append h, lineRanges, hend, rangesBetween, ih, Nat.add_sub_cancel]

variable (source : String)

/-- The lines of an index are the pieces of its source. -/
theorem range?_succ (i : Nat) :
    (ofString source).range? (i + 1) source.utf8ByteSize =
      (lineRanges 0 (pieces '\n' source.toList))[i]? := by
  have hsize : source.utf8ByteSize = 0 + byteLength source.toList := by
    rw [utf8ByteSize_eq, Nat.zero_add]
  rw [← rangesBetween_startsFrom, getElem?_rangesBetween, ← toList_starts, Array.getElem?_toList,
    Array.getElem?_toList, ← hsize]
  rfl

theorem lineCount_eq : (ofString source).lineCount = (pieces '\n' source.toList).length := by
  rw [← length_lineRanges 0, ← rangesBetween_startsFrom, ← toList_starts, lineCount,
    ← Array.length_toList]
  generalize (ofString source).starts.toList = starts
  fun_induction rangesBetween _ starts with
  | case1 => rfl
  | case2 => rfl
  | case3 start next rest ih => rw [List.length_cons, ih, List.length_cons]

end LineIndex

/-! ### Lines between cuts -/

/-- A line of a text: whole lines stand in front of it, and behind it the text ends or there is a
newline. Its number is one more than there are newlines in front of it. -/
structure Text.IsLine (cs : List Char) (number : Nat) (front line behind : List Char) : Prop where
  cut : cs = front ++ (line ++ behind)
  front_endsLines : EndsLines front
  newline_notMem : '\n' ∉ line
  behind_atLineEnd : AtLineEnd behind
  number_eq : number = front.count '\n' + 1

/-- A text has a line for each of its newlines, and one more. -/
theorem Text.exists_isLine {cs : List Char} {i : Nat} (h : i ≤ cs.count '\n') :
    ∃ front line behind, IsLine cs (i + 1) front line behind := by
  induction cs using pieces_induction '\n' generalizing i with
  | last line hline =>
    rw [List.count_eq_zero_of_not_mem hline, Nat.le_zero] at h
    subst h
    exact ⟨[], line, [], by simp, .inl rfl, hline, .inl rfl, rfl⟩
  | next line cs hline ih =>
    cases i with
    | zero => exact ⟨[], line, '\n' :: cs, rfl, .inl rfl, hline, .inr ⟨cs, rfl⟩, rfl⟩
    | succ i =>
      have hcount : (line ++ ['\n']).count '\n' = 1 := by
        rw [List.count_append, List.count_eq_zero_of_not_mem hline, List.count_singleton_self]
      rw [List.append_cons, List.count_append, hcount] at h
      obtain ⟨front, line', behind, rfl, hfront, hline', hbehind, hnumber⟩ := ih (i := i) (by omega)
      refine ⟨(line ++ ['\n']) ++ front, line', behind, by simp, .inr ?_, hline', hbehind, ?_⟩
      · rcases hfront with rfl | ⟨lines, rfl⟩
        · exact ⟨line, by simp⟩
        · exact ⟨line ++ '\n' :: lines, by simp⟩
      · rw [List.count_append, hcount]
        omega

/-- A line index finds the bytes of a line. -/
theorem LineIndex.range?_of_isLine {source : String} {number : Nat}
    {front line behind : List Char} (h : IsLine source.toList number front line behind) :
    (ofString source).range? number source.utf8ByteSize =
      some (byteLength front, byteLength front + byteLength line) := by
  obtain ⟨hcut, hfront, hline, hbehind, rfl⟩ := h
  rw [← List.append_assoc] at hcut
  have hstart := start_of_cut hcut hfront
  have hstop : (match (ofString source).starts[front.count '\n' + 1]? with
      | some next => next - 1
      | none => source.utf8ByteSize) = byteLength front + byteLength line := by
    rcases hbehind with rfl | ⟨more, rfl⟩
    · have hnone : (ofString source).starts[front.count '\n' + 1]? = none := by
        rw [← Array.getElem?_toList, toList_starts, List.getElem?_cons_succ,
          List.getElem?_eq_none_iff, length_startsFrom, hcut, List.append_nil, count_newline hline]
      rw [hnone, utf8ByteSize_eq, hcut, List.append_nil, byteLength_append]
    · have hcut' : source.toList = ((front ++ line ++ ['\n']) ++ []) ++ more := by
        rw [hcut]
        simp
      have hnext := start_of_cut hcut' (.inr ⟨front ++ line, rfl⟩)
      rw [List.count_append, count_newline hline, List.count_singleton_self] at hnext
      have hsize : '\n'.utf8Size = 1 := rfl
      rw [hnext, byteLength_append, byteLength_append, byteLength_cons, hsize]
      exact Nat.add_sub_cancel _ _
  have hrange : (ofString source).range? (front.count '\n' + 1) source.utf8ByteSize =
      some (byteLength front, match (ofString source).starts[front.count '\n' + 1]? with
        | some next => next - 1
        | none => source.utf8ByteSize) := congrArg (Option.map _) hstart
  rw [hrange, hstop]

/-! ### Positions -/

section Positions

variable {source : String} {offset line column : Nat}

/-- A place lies on its line, behind as many characters of it as its column says. -/
theorem LineIndex.exists_range?_of_isPlace (h : IsPlace source offset line column) :
    ∃ start stop before, (ofString source).range? line source.utf8ByteSize = some (start, stop) ∧
      start ≤ offset ∧ offset ≤ stop ∧ slice? source.toList start offset = some before ∧
      column = before.length + 1 := by
  obtain ⟨front, rest, behind, hsource, rfl, hfront, hrest, rfl, rfl⟩ := h
  obtain ⟨more, tail, rfl, hmore, htail⟩ := exists_atLineEnd behind
  have hline : IsLine source.toList ((front ++ rest).count '\n' + 1) front (rest ++ more) tail := by
    refine ⟨by rw [hsource]; simp, hfront, ?_, htail, by rw [count_newline hrest]⟩
    rw [List.mem_append, not_or]
    exact ⟨hrest, hmore⟩
  have hbefore : slice? source.toList (byteLength front) (byteLength (front ++ rest)) =
      some rest := by
    rw [byteLength_append]
    exact slice?_of_eq (hsource.trans (List.append_assoc front rest _))
  refine ⟨_, _, rest, range?_of_isLine hline, ?_, ?_, hbefore, rfl⟩
  · rw [byteLength_append]
    omega
  · rw [byteLength_append, byteLength_append]
    omega

/-- The last line of a text is what stands behind its last newline. -/
theorem Text.EndsLines.line_unique {front line front' line' : List Char} (h : EndsLines front)
    (h' : EndsLines front') (hline : '\n' ∉ line) (hline' : '\n' ∉ line')
    (heq : front ++ line = front' ++ line') : line = line' := by
  rw [← List.reverse_inj, ← h.takeWhile_reverse hline, ← h'.takeWhile_reverse hline', heq]

/-- A place further on has a later line, or a later column of the same line. -/
theorem Text.IsPlace.lt {offset' line' column' : Nat} (h : IsPlace source offset line column)
    (h' : IsPlace source offset' line' column') (hlt : offset < offset') :
    toLex (line, column) < toLex (line', column') := by
  obtain ⟨front, rest, behind, hsource, rfl, hfront, hrest, rfl, rfl⟩ := h
  obtain ⟨front', rest', behind', hsource', rfl, hfront', hrest', rfl, rfl⟩ := h'
  obtain ⟨between, hbetween⟩ : ∃ between, front' ++ rest' = (front ++ rest) ++ between := by
    rcases List.append_eq_append_iff.1 (hsource.symm.trans hsource') with
      ⟨between, hbetween, -⟩ | ⟨between, hbetween, -⟩
    · exact ⟨between, hbetween⟩
    · rw [hbetween, byteLength_append] at hlt
      omega
  have hcount : (front' ++ rest').count '\n' =
      (front ++ rest).count '\n' + between.count '\n' := by
    rw [hbetween, List.count_append]
  rw [Prod.Lex.toLex_lt_toLex, hcount]
  by_cases hnewline : '\n' ∈ between
  · have hpos := List.count_pos_iff.2 hnewline
    left
    omega
  · right
    -- without a newline in between, the places are behind the same whole lines
    have hline : '\n' ∉ rest ++ between := by
      rw [List.mem_append, not_or]
      exact ⟨hrest, hnewline⟩
    have hrest_eq : rest ++ between = rest' :=
      hfront.line_unique hfront' hline hrest' (by rw [hbetween, List.append_assoc])
    have hne : between ≠ [] := by
      rintro rfl
      rw [hbetween, List.append_nil] at hlt
      exact Nat.lt_irrefl _ hlt
    have hpos := List.length_pos_iff.2 hne
    rw [List.count_eq_zero_of_not_mem hnewline, ← hrest_eq, List.length_append]
    omega

/-- Positions of places come in the order of their offsets. -/
theorem LineIndex.position_lt_position {offset' : Nat}
    (h : String.Pos.Raw.IsValid source ⟨offset⟩) (h' : String.Pos.Raw.IsValid source ⟨offset'⟩)
    (hlt : offset < offset') : toLex ((ofString source).position source offset) <
      toLex ((ofString source).position source offset') := by
  obtain ⟨line, column, hplace⟩ := exists_isPlace h
  obtain ⟨line', column', hplace'⟩ := exists_isPlace h'
  rw [hplace.position_eq, hplace'.position_eq]
  exact hplace.lt hplace' hlt

/-- An offset past the end counts as the end. -/
theorem LineIndex.position_of_size_le (h : source.utf8ByteSize ≤ offset) :
    (ofString source).position source offset =
      (ofString source).position source source.utf8ByteSize := by
  have hline : (ofString source).lineOf offset = (ofString source).lineOf source.utf8ByteSize := by
    simp only [lineOf, ← Array.countP_toList, toList_starts]
    congr 1
    refine List.countP_congr fun start hmem => ?_
    have hle : start ≤ source.utf8ByteSize := by
      rcases List.mem_cons.1 hmem with rfl | hmem
      · exact Nat.zero_le _
      · have hstart := lt_of_mem_startsFrom hmem
        rw [utf8ByteSize_eq]
        omega
    simp only [decide_eq_true_eq, hle, iff_true]
    exact Nat.le_trans hle h
  simp only [position, hline, Nat.min_eq_right h, Nat.min_self]

end Positions

/-- The lines of an index are those of a source, and so are its positions. -/
structure LineIndex.IsExact (index : LineIndex) (source : String) : Prop where
  /-- The pieces of the source between newlines, joined with newlines, are the source. -/
  joined : List.intercalate ['\n'] (pieces '\n' source.toList) = source.toList
  newline_notMem : ∀ line ∈ pieces '\n' source.toList, '\n' ∉ line
  /-- There are as many lines as pieces. -/
  lineCount_eq : index.lineCount = (pieces '\n' source.toList).length
  /-- The lines have the bytes of the pieces, in order. -/
  range?_succ : ∀ i, index.range? (i + 1) source.utf8ByteSize =
    (lineRanges 0 (pieces '\n' source.toList))[i]?
  /-- There are no other lines. -/
  range?_eq_none : ∀ line, line = 0 ∨ index.lineCount < line →
    index.range? line source.utf8ByteSize = none
  /-- A position names the line on which an offset lies, and one column more than there are
  characters of this line in front of it. -/
  position_on_line : ∀ offset, String.Pos.Raw.IsValid source ⟨offset⟩ →
    ∃ line column start stop before, index.position source offset = (line, column) ∧
      index.range? line source.utf8ByteSize = some (start, stop) ∧
      start ≤ offset ∧ offset ≤ stop ∧
      slice? source.toList start offset = some before ∧ column = before.length + 1
  /-- Positions come in the order of the offsets, so different offsets have different ones. -/
  position_lt : ∀ offset offset', String.Pos.Raw.IsValid source ⟨offset⟩ →
    String.Pos.Raw.IsValid source ⟨offset'⟩ → offset < offset' →
    toLex (index.position source offset) < toLex (index.position source offset')
  /-- Offsets past the end have the position of the end. -/
  position_past_end : ∀ offset, source.utf8ByteSize ≤ offset →
    index.position source offset = index.position source source.utf8ByteSize

/-- The index of a source is an exact coordinate system for it. -/
theorem LineIndex.isExact_ofString (source : String) : (ofString source).IsExact source where
  joined := intercalate_pieces '\n' source.toList
  newline_notMem _ := notMem_of_mem_pieces
  lineCount_eq := lineCount_eq source
  range?_succ := range?_succ source
  range?_eq_none := by
    rintro line (rfl | hlt)
    · rfl
    · obtain ⟨i, rfl⟩ := Nat.exists_eq_add_one_of_ne_zero (Nat.ne_zero_of_lt hlt)
      rw [lineCount_eq] at hlt
      rw [range?_succ, List.getElem?_eq_none_iff, length_lineRanges]
      omega
  position_on_line := by
    intro offset h
    obtain ⟨line, column, hplace⟩ := exists_isPlace h
    obtain ⟨start, stop, before, hline⟩ := exists_range?_of_isPlace hplace
    exact ⟨line, column, start, stop, before, hplace.position_eq, hline⟩
  position_lt _ _ := position_lt_position
  position_past_end _ := position_of_size_le

/-- The é takes two bytes, and the last line is empty. -/
example : (LineIndex.ofString "é\nb\n").range? 2 5 = some (3, 4) ∧
    (LineIndex.ofString "é\nb\n").range? 3 5 = some (5, 5) ∧
    (LineIndex.ofString "é\nb\n").position "é\nb\n" 2 = (1, 2) := by
  decide +kernel

end Kestrel
