/-!
# Pieces of a text

## Main definitions

- `pieces` — a text cut at every occurrence of a character
- `EndsPieces` — a text can stand in front of a piece

## Main statements

- `pieces_append` — cutting undoes putting the character between two texts
- `intercalate_pieces` — putting the character between the pieces undoes cutting
- `exists_endsPieces`, `EndsPieces.takeWhile_reverse`, `EndsPieces.dropWhile_reverse` — the last piece
  of a text is found from its end

## Design notes

There is one piece more than there are cuts, so that a text without the character is one piece, and
pieces between neighbouring cuts are empty.
-/

namespace Kestrel.Text

/-- Adds a character in front of a text that is already cut. -/
def prependTo (separator c : Char) (pieces : List (List Char)) : List (List Char) :=
  if c = separator then [] :: pieces
  else match pieces with
    | piece :: rest => (c :: piece) :: rest
    | [] => [[c]]

/-- The pieces of a text between the occurrences of a character. -/
def pieces (separator : Char) (cs : List Char) : List (List Char) :=
  cs.foldr (prependTo separator) [[]]

@[simp] theorem pieces_nil (separator : Char) : pieces separator [] = [[]] := rfl

@[simp] theorem pieces_cons (separator c : Char) (cs : List Char) :
    pieces separator (c :: cs) = prependTo separator c (pieces separator cs) := rfl

/-- A text without the separator is one piece; behind it, every other text is cut on its own. -/
theorem pieces_append {separator : Char} {cs : List Char} (h : separator ∉ cs) (ds : List Char) :
    pieces separator (cs ++ separator :: ds) = cs :: pieces separator ds := by
  induction cs with
  | nil => simp [prependTo]
  | cons c cs ih =>
    obtain ⟨hc, hcs⟩ := not_or.1 (mt List.mem_cons.2 h)
    simp [ih hcs, prependTo, Ne.symm hc]

theorem pieces_of_notMem {separator : Char} {cs : List Char} (h : separator ∉ cs) :
    pieces separator cs = [cs] := by
  induction cs with
  | nil => rfl
  | cons c cs ih =>
    obtain ⟨hc, hcs⟩ := not_or.1 (mt List.mem_cons.2 h)
    simp [ih hcs, prependTo, Ne.symm hc]

/-- Every text is one piece, or a piece in front of a separator and another text. -/
theorem pieces_induction (separator : Char) {motive : List Char → Prop}
    (last : ∀ piece, separator ∉ piece → motive piece)
    (next : ∀ piece cs, separator ∉ piece → motive cs → motive (piece ++ separator :: cs))
    (cs : List Char) : motive cs := by
  by_cases h : separator ∈ cs
  · obtain ⟨piece, rest, rfl, hpiece⟩ := List.eq_append_cons_of_mem h
    exact next piece rest hpiece (pieces_induction separator last next rest)
  · exact last cs h
termination_by cs.length

theorem pieces_ne_nil (separator : Char) (cs : List Char) : pieces separator cs ≠ [] := by
  induction cs using pieces_induction separator with
  | last piece h => simp [pieces_of_notMem h]
  | next piece cs h _ => simp [pieces_append h]

theorem notMem_of_mem_pieces {separator : Char} {cs piece : List Char}
    (h : piece ∈ pieces separator cs) : separator ∉ piece := by
  induction cs using pieces_induction separator with
  | last cs hcs =>
    rw [pieces_of_notMem hcs] at h
    rwa [List.mem_singleton.1 h]
  | next front cs hfront ih =>
    rw [pieces_append hfront] at h
    rcases List.mem_cons.1 h with rfl | h
    · exact hfront
    · exact ih h

/-- Behind its last separator, a text has its last piece. -/
theorem pieces_append_last {separator : Char} {last : List Char} (h : separator ∉ last)
    (cs : List Char) :
    pieces separator (cs ++ separator :: last) = pieces separator cs ++ [last] := by
  induction cs using pieces_induction separator with
  | last piece hpiece =>
    rw [pieces_append hpiece, pieces_of_notMem hpiece, pieces_of_notMem h, List.singleton_append]
  | next piece cs hpiece ih =>
    rw [List.append_assoc, List.cons_append, pieces_append hpiece, ih, pieces_append hpiece,
      List.cons_append]

/-- The pieces with a separator between each two of them are the text. -/
theorem intercalate_pieces (separator : Char) (cs : List Char) :
    List.intercalate [separator] (pieces separator cs) = cs := by
  induction cs using pieces_induction separator with
  | last piece h => rw [pieces_of_notMem h, List.intercalate_singleton]
  | next piece cs h ih =>
    rw [pieces_append h, List.intercalate_cons_of_ne_nil (pieces_ne_nil separator cs), ih,
      List.append_assoc, List.singleton_append]

/-! ### The last piece -/

/-- A text is empty, or its last character is the separator. -/
def EndsPieces (separator : Char) (front : List Char) : Prop :=
  front = [] ∨ ∃ before, front = before ++ [separator]

/-- Every text has a last piece. -/
theorem exists_endsPieces (separator : Char) (cs : List Char) :
    ∃ front last, cs = front ++ last ∧ EndsPieces separator front ∧ separator ∉ last := by
  by_cases h : separator ∈ cs
  · obtain ⟨last, before, hreverse, hlast⟩ := List.eq_append_cons_of_mem (List.mem_reverse.2 h)
    refine ⟨before.reverse ++ [separator], last.reverse, ?_, .inr ⟨before.reverse, rfl⟩, ?_⟩
    · rw [← List.reverse_inj, hreverse]
      simp
    · rwa [List.mem_reverse]
  · exact ⟨[], cs, rfl, .inl rfl, h⟩

theorem bne_of_notMem {separator : Char} {cs : List Char} (h : separator ∉ cs) :
    ∀ c ∈ cs, (c != separator) = true := by
  intro c hc
  have hne : c ≠ separator := fun heq => h (heq ▸ hc)
  simpa using hne

namespace EndsPieces

variable {separator : Char} {front last : List Char} (h : EndsPieces separator front)
  (hlast : separator ∉ last)

include h hlast

/-- The last piece is what stands behind the last separator. -/
theorem takeWhile_reverse :
    (front ++ last).reverse.takeWhile (· != separator) = last.reverse := by
  rw [List.reverse_append,
    List.takeWhile_append_of_pos (bne_of_notMem (mt List.mem_reverse.1 hlast))]
  rcases h with rfl | ⟨before, rfl⟩
  · simp
  · simp

theorem dropWhile_reverse :
    (front ++ last).reverse.dropWhile (· != separator) = front.reverse := by
  rw [List.reverse_append,
    List.dropWhile_append_of_pos (bne_of_notMem (mt List.mem_reverse.1 hlast))]
  rcases h with rfl | ⟨before, rfl⟩
  · simp
  · simp

end EndsPieces

end Kestrel.Text
