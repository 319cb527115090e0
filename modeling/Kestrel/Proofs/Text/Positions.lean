import Kestrel.Proofs.Text.Slices
import Kestrel.Text.Lines
import Kestrel.Text.Pieces
import Kestrel.Text.Span

/-!
# Lines and columns

Where a text is cut, the place has a line and a column: the line is one more than there are newlines
in front of the cut, and the column is one more than there are characters behind the last of them.
Spans and line indices compute both, each in its own way. They agree at every cut.

## Main definitions

- `Text.EndsLines`, `Text.AtLineEnd` — a text is empty, or ends or starts with a newline
- `Text.IsPlace` — line and column of a cut
- `LineIndex.startsFrom` — the starts of the lines after the first one

## Main statements

- `Text.exists_isPlace` — where a character starts or the text ends, there is a line and a column
- `Text.IsPlace.location_eq`, `Text.IsPlace.position_eq` — spans and line indices find them
-/

namespace Kestrel

open Text

/-! ### Whole lines -/

/-- A text is empty, or its last character is a newline. -/
def Text.EndsLines (front : List Char) : Prop :=
  front = [] ∨ ∃ lines, front = lines ++ ['\n']

/-- A text is some whole lines and the beginning of one more. -/
theorem Text.exists_endsLines (pre : List Char) :
    ∃ front line, pre = front ++ line ∧ EndsLines front ∧ '\n' ∉ line :=
  exists_endsPieces '\n' pre

/-- A text is empty, or its first character is a newline. -/
def Text.AtLineEnd (behind : List Char) : Prop :=
  behind = [] ∨ ∃ more, behind = '\n' :: more

/-- A text goes on to the end of its first line. -/
theorem Text.exists_atLineEnd (cs : List Char) :
    ∃ line behind, cs = line ++ behind ∧ '\n' ∉ line ∧ AtLineEnd behind := by
  by_cases h : '\n' ∈ cs
  · obtain ⟨line, more, rfl, hline⟩ := List.eq_append_cons_of_mem h
    exact ⟨line, '\n' :: more, rfl, hline, .inr ⟨more, rfl⟩⟩
  · exact ⟨cs, [], by simp, h, .inl rfl⟩

/-- A line is found as what stands in front of its end. -/
theorem Text.AtLineEnd.takeWhile_append {line behind : List Char} (h : AtLineEnd behind)
    (hline : '\n' ∉ line) : (line ++ behind).takeWhile (· != '\n') = line := by
  rw [List.takeWhile_append_of_pos (bne_of_notMem hline)]
  rcases h with rfl | ⟨more, rfl⟩
  · simp
  · simp

/-- What stands behind the last newline is found from the end. -/
theorem Text.EndsLines.takeWhile_reverse {front line : List Char} (h : EndsLines front)
    (hline : '\n' ∉ line) :
    (front ++ line).reverse.takeWhile (· != '\n') = line.reverse :=
  EndsPieces.takeWhile_reverse h hline

theorem Text.count_newline {front line : List Char} (hline : '\n' ∉ line) :
    (front ++ line).count '\n' = front.count '\n' := by
  rw [List.count_append, List.count_eq_zero_of_not_mem hline, Nat.add_zero]

/-- The line and the column of a byte offset at which a source is cut. The line is one more than
there are newlines in front of the cut, the column one more than there are characters since the last
of them. -/
def Text.IsPlace (source : String) (offset line column : Nat) : Prop :=
  ∃ front rest behind, source.toList = (front ++ rest) ++ behind ∧
    byteLength (front ++ rest) = offset ∧ EndsLines front ∧ '\n' ∉ rest ∧
    line = (front ++ rest).count '\n' + 1 ∧ column = rest.length + 1

/-- Where a character starts or the source ends, there is a line and a column. -/
theorem Text.exists_isPlace {source : String} {offset : Nat}
    (h : String.Pos.Raw.IsValid source ⟨offset⟩) :
    ∃ line column, IsPlace source offset line column := by
  obtain ⟨before, behind, hsource, hoffset⟩ := String.Pos.Raw.isValid_iff_exists_append.1 h
  obtain ⟨front, rest, hbefore, hfront, hrest⟩ := exists_endsLines before.toList
  refine ⟨_, _, front, rest, behind.toList, ?_, ?_, hfront, hrest, rfl, rfl⟩
  · rw [hsource, String.toList_append, hbefore]
  · rw [← hbefore, ← utf8ByteSize_eq]
    exact (congrArg String.Pos.Raw.byteIdx hoffset).symm

/-! ### Spans -/

section Cuts

variable {source : String} {front line post : List Char}

theorem Text.slice_of_eq {cs pre text post : List Char} (h : cs = pre ++ (text ++ post)) :
    slice cs (byteLength pre) (byteLength pre + byteLength text) = text := by
  rw [slice, slice?_of_eq h, Option.getD_some]

theorem Text.min_byteLength {pre post : List Char} (h : source.toList = pre ++ post) :
    min (byteLength pre) source.utf8ByteSize = byteLength pre := by
  rw [utf8ByteSize_eq, h, byteLength_append]
  exact Nat.min_eq_left (Nat.le_add_right _ _)

/-- The location of a span is the place of its start. -/
theorem Text.IsPlace.location_eq {span : Span} {line column : Nat}
    (h : IsPlace source span.start line column) :
    span.location source = ⟨line, column, span.start⟩ := by
  obtain ⟨front, rest, behind, hsource, hstart, hfront, hrest, rfl, rfl⟩ := h
  have hbefore : slice source.toList 0 (byteLength (front ++ rest)) = front ++ rest := by
    have hslice := slice_of_eq (hsource.trans (List.nil_append _).symm)
    rwa [byteLength_nil, Nat.zero_add] at hslice
  simp only [Span.location, ← hstart, min_byteLength hsource, hbefore,
    hfront.takeWhile_reverse hrest, List.length_reverse]

/-! ### Line indices -/

namespace LineIndex

/-- The starts of the lines that begin after a newline in a text, which stands at `offset`. -/
def startsFrom (offset : Nat) : List Char → List Nat
  | [] => []
  | c :: cs =>
    if c = '\n' then (offset + c.utf8Size) :: startsFrom (offset + c.utf8Size) cs
    else startsFrom (offset + c.utf8Size) cs

theorem collect_eq (starts : Array Nat) (offset : Nat) (cs : List Char) :
    collect starts offset cs = starts ++ (startsFrom offset cs).toArray := by
  induction cs generalizing starts offset with
  | nil => simp [collect, startsFrom]
  | cons c cs ih =>
    rw [collect, startsFrom, ih]
    by_cases hc : c = '\n'
    · simp [hc]
    · simp [hc]

theorem toList_starts (source : String) :
    (ofString source).starts.toList = 0 :: startsFrom 0 source.toList := by
  simp [ofString, collect_eq]

theorem startsFrom_append (offset : Nat) (cs ds : List Char) :
    startsFrom offset (cs ++ ds) =
      startsFrom offset cs ++ startsFrom (offset + byteLength cs) ds := by
  induction cs generalizing offset with
  | nil => simp [startsFrom]
  | cons c cs ih =>
    simp only [List.cons_append, startsFrom, ih, byteLength_cons, Nat.add_assoc]
    split <;> rfl

theorem length_startsFrom (offset : Nat) (cs : List Char) :
    (startsFrom offset cs).length = cs.count '\n' := by
  induction cs generalizing offset with
  | nil => rfl
  | cons c cs ih =>
    rw [startsFrom]
    by_cases hc : c = '\n'
    · simp [hc, ih]
    · simp [hc, ih]

/-- A line starts behind the newline in front of it and not behind the end of the text. -/
theorem lt_of_mem_startsFrom {offset start : Nat} {cs : List Char}
    (h : start ∈ startsFrom offset cs) : offset < start ∧ start ≤ offset + byteLength cs := by
  induction cs generalizing offset with
  | nil => cases h
  | cons c cs ih =>
    have hc := c.utf8Size_pos
    rw [byteLength_cons]
    have hrest : start ∈ startsFrom (offset + c.utf8Size) cs →
        offset < start ∧ start ≤ offset + (c.utf8Size + byteLength cs) := by
      intro hmem
      have := ih hmem
      omega
    rw [startsFrom] at h
    split at h
    · rcases List.mem_cons.1 h with rfl | h
      · omega
      · exact hrest h
    · exact hrest h

/-- As many lines start in front of a cut as there are newlines. -/
theorem lineOf_of_cut {pre post : List Char} (h : source.toList = pre ++ post) :
    (ofString source).lineOf (byteLength pre) = pre.count '\n' := by
  have hbefore : ∀ start ∈ startsFrom 0 pre, decide (start ≤ byteLength pre) = true := by
    intro start hmem
    have := lt_of_mem_startsFrom hmem
    simp only [decide_eq_true_eq]
    omega
  have hbehind : ∀ start ∈ startsFrom (0 + byteLength pre) post,
      ¬ decide (start ≤ byteLength pre) = true := by
    intro start hmem
    have := lt_of_mem_startsFrom hmem
    simp only [decide_eq_true_eq]
    omega
  rw [lineOf, ← Array.countP_toList, toList_starts, h, startsFrom_append, List.countP_cons,
    List.countP_append, List.countP_eq_length.2 hbefore, List.countP_eq_zero.2 hbehind,
    length_startsFrom]
  simp

/-- The line that a cut is on starts behind the whole lines in front of it. -/
theorem start_of_cut (h : source.toList = (front ++ line) ++ post) (hfront : EndsLines front) :
    (ofString source).starts[front.count '\n']? = some (byteLength front) := by
  rcases hfront with rfl | ⟨lines, rfl⟩
  · simp [← Array.getElem?_toList, toList_starts]
  · -- the start is the last of those that the whole lines in front of the cut give
    have hlast : (startsFrom 0 (lines ++ ['\n'])) =
        startsFrom 0 lines ++ [byteLength (lines ++ ['\n'])] := by
      simp [startsFrom_append, startsFrom]
    rw [← Array.getElem?_toList, toList_starts, h, List.append_assoc, startsFrom_append, hlast,
      List.count_append, List.count_singleton_self, List.getElem?_cons_succ,
      List.append_assoc, List.getElem?_append_right (Nat.le_of_eq (length_startsFrom 0 lines)),
      length_startsFrom, Nat.sub_self]
    rfl

end LineIndex

/-- A line index finds the place of an offset. -/
theorem Text.IsPlace.position_eq {offset line column : Nat}
    (h : IsPlace source offset line column) :
    (LineIndex.ofString source).position source offset = (line, column) := by
  obtain ⟨front, rest, behind, hsource, rfl, hfront, hrest, rfl, rfl⟩ := h
  have hbefore : slice source.toList (byteLength front) (byteLength (front ++ rest)) = rest := by
    rw [byteLength_append]
    exact slice_of_eq (hsource.trans (List.append_assoc front rest behind))
  simp only [LineIndex.position, LineIndex.lineOf_of_cut hsource, count_newline hrest,
    LineIndex.start_of_cut hsource hfront, Option.getD_some, min_byteLength hsource, hbefore]

end Cuts

end Kestrel
