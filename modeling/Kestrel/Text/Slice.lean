/-!
# Byte offsets in a text

Positions in a text count the bytes of its UTF-8 form. A byte offset may fall inside a character;
a slice exists only between offsets that do not.

## Main definitions

- `byteLength` — the bytes that a list of characters takes
- `dropBytes?`, `takeBytes?` — what follows and what precedes a byte offset
- `slice?` — the characters between two byte offsets
-/

namespace Kestrel.Text

/-- The number of bytes that some characters take. -/
def byteLength (cs : List Char) : Nat :=
  cs.foldl (fun n c => n + c.utf8Size) 0

theorem foldl_utf8Size_add (cs : List Char) (n : Nat) :
    cs.foldl (fun n c => n + c.utf8Size) n = n + byteLength cs := by
  induction cs generalizing n with
  | nil => simp [byteLength]
  | cons c cs ih => simp only [byteLength, List.foldl_cons]; rw [ih, ih (0 + c.utf8Size)]; omega

@[simp] theorem byteLength_nil : byteLength [] = 0 := rfl

@[simp] theorem byteLength_cons (c : Char) (cs : List Char) :
    byteLength (c :: cs) = c.utf8Size + byteLength cs := by
  simp only [byteLength, List.foldl_cons]
  rw [foldl_utf8Size_add, byteLength]
  omega

@[simp] theorem byteLength_append (cs ds : List Char) :
    byteLength (cs ++ ds) = byteLength cs + byteLength ds := by
  induction cs with
  | nil => simp
  | cons c cs ih => simp [ih]; omega

/-- The characters after the first `n` bytes, if `n` is the start of a character or the end. -/
def dropBytes? : Nat → List Char → Option (List Char)
  | 0, cs => some cs
  | _ + 1, [] => none
  | n + 1, c :: cs => if c.utf8Size ≤ n + 1 then dropBytes? (n + 1 - c.utf8Size) cs else none

/-- Moves characters of the first `n` bytes onto `taken`, the last one in front. -/
def takeBytesOnto? (taken : List Char) : Nat → List Char → Option (List Char)
  | 0, _ => some taken
  | _ + 1, [] => none
  | n + 1, c :: cs =>
    if c.utf8Size ≤ n + 1 then takeBytesOnto? (c :: taken) (n + 1 - c.utf8Size) cs else none

/-- The characters of the first `n` bytes, if `n` is the start of a character or the end. -/
def takeBytes? (n : Nat) (cs : List Char) : Option (List Char) :=
  (takeBytesOnto? [] n cs).map List.reverse

/-- The characters from the byte offset `start` up to the byte offset `stop`, if both are starts of
characters or the end and come in this order. -/
def slice? (cs : List Char) (start stop : Nat) : Option (List Char) :=
  if start ≤ stop then (dropBytes? start cs).bind (takeBytes? (stop - start)) else none

/-- The characters between two byte offsets, or nothing where there is no such slice. -/
def slice (cs : List Char) (start stop : Nat) : List Char :=
  (slice? cs start stop).getD []

end Kestrel.Text
