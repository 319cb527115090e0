import Kestrel.Text.Slice

/-!
# Slices are pieces of the text

A slice between two byte offsets exists if and only if the text can be cut at both of them, and then
it is what lies between the cuts.

## Main statements

- `append_inj_of_byteLength` — a text is cut at an offset in one way only
- `slice?_eq_some_iff` — the slice between two offsets
-/

namespace Kestrel.Text

theorem byteLength_pos {cs : List Char} (h : cs ≠ []) : 0 < byteLength cs := by
  cases cs with
  | nil => exact absurd rfl h
  | cons c cs =>
    have hc := c.utf8Size_pos
    rw [byteLength_cons]
    omega

/-- A text is cut at an offset in one way only. -/
theorem append_inj_of_byteLength {pre pre' post post' : List Char} (h : pre ++ post = pre' ++ post')
    (hlength : byteLength pre = byteLength pre') : pre = pre' ∧ post = post' := by
  induction pre generalizing pre' with
  | nil =>
    cases pre' with
    | nil => exact ⟨rfl, h⟩
    | cons c pre' =>
      have hpos := byteLength_pos (List.cons_ne_nil c pre')
      rw [byteLength_nil] at hlength
      omega
  | cons c pre ih =>
    cases pre' with
    | nil =>
      have hpos := byteLength_pos (List.cons_ne_nil c pre)
      rw [byteLength_nil] at hlength
      omega
    | cons c' pre' =>
      obtain ⟨rfl, hrest⟩ := List.cons.inj h
      rw [byteLength_cons, byteLength_cons] at hlength
      obtain ⟨rfl, rfl⟩ := ih hrest (by omega)
      exact ⟨rfl, rfl⟩

theorem dropBytes?_eq_some_iff {n : Nat} {cs rest : List Char} :
    dropBytes? n cs = some rest ↔ ∃ pre, cs = pre ++ rest ∧ byteLength pre = n := by
  constructor
  · intro h
    fun_induction dropBytes? n cs with
    | case1 cs =>
      cases h
      exact ⟨[], rfl, rfl⟩
    | case2 => cases h
    | case3 n c cs hle ih =>
      obtain ⟨pre, rfl, hpre⟩ := ih h
      exact ⟨c :: pre, rfl, by rw [byteLength_cons]; omega⟩
    | case4 => cases h
  · rintro ⟨pre, rfl, rfl⟩
    induction pre with
    | nil => simp [dropBytes?]
    | cons c pre ih =>
      have hc := c.utf8Size_pos
      obtain ⟨n, hn⟩ : ∃ n, byteLength (c :: pre) = n + 1 :=
        Nat.exists_eq_add_one_of_ne_zero (by rw [byteLength_cons]; omega)
      rw [byteLength_cons] at hn
      rw [byteLength_cons, hn, List.cons_append, dropBytes?, if_pos (by omega)]
      rwa [show n + 1 - c.utf8Size = byteLength pre by omega]

theorem takeBytesOnto?_eq_some_iff {taken : List Char} {n : Nat} {cs out : List Char} :
    takeBytesOnto? taken n cs = some out ↔
      ∃ text rest, cs = text ++ rest ∧ byteLength text = n ∧ out = text.reverse ++ taken := by
  constructor
  · intro h
    fun_induction takeBytesOnto? taken n cs with
    | case1 taken cs =>
      cases h
      exact ⟨[], cs, rfl, rfl, rfl⟩
    | case2 => cases h
    | case3 taken n c cs hle ih =>
      obtain ⟨text, rest, rfl, htext, rfl⟩ := ih h
      exact ⟨c :: text, rest, rfl, by rw [byteLength_cons]; omega, by simp⟩
    | case4 => cases h
  · rintro ⟨text, rest, rfl, rfl, rfl⟩
    induction text generalizing taken with
    | nil => simp [takeBytesOnto?]
    | cons c text ih =>
      have hc := c.utf8Size_pos
      obtain ⟨n, hn⟩ : ∃ n, byteLength (c :: text) = n + 1 :=
        Nat.exists_eq_add_one_of_ne_zero (by rw [byteLength_cons]; omega)
      rw [byteLength_cons] at hn
      rw [byteLength_cons, hn, List.cons_append, takeBytesOnto?, if_pos (by omega),
        show n + 1 - c.utf8Size = byteLength text by omega, ih]
      simp

theorem takeBytes?_eq_some_iff {n : Nat} {cs text : List Char} :
    takeBytes? n cs = some text ↔ ∃ rest, cs = text ++ rest ∧ byteLength text = n := by
  simp only [takeBytes?, Option.map_eq_some_iff, takeBytesOnto?_eq_some_iff, List.append_nil]
  constructor
  · rintro ⟨_, ⟨text', rest, rfl, hlength, rfl⟩, rfl⟩
    exact ⟨rest, by simp, by simpa using hlength⟩
  · rintro ⟨rest, rfl, hlength⟩
    exact ⟨text.reverse, ⟨text, rest, rfl, hlength, rfl⟩, List.reverse_reverse text⟩

/-- The slice between two offsets is what lies between two cuts of the text. -/
theorem slice?_eq_some_iff {cs text : List Char} {start stop : Nat} :
    slice? cs start stop = some text ↔
      ∃ pre post, cs = pre ++ (text ++ post) ∧ byteLength pre = start ∧
        start + byteLength text = stop := by
  unfold slice?
  constructor
  · intro h
    split at h
    · next hle =>
      obtain ⟨rest, hdrop, htake⟩ := Option.bind_eq_some_iff.1 h
      obtain ⟨pre, rfl, hpre⟩ := dropBytes?_eq_some_iff.1 hdrop
      obtain ⟨post, rfl, htext⟩ := takeBytes?_eq_some_iff.1 htake
      exact ⟨pre, post, rfl, hpre, by omega⟩
    · cases h
  · rintro ⟨pre, post, rfl, rfl, rfl⟩
    rw [if_pos (Nat.le_add_right _ _), Option.bind_eq_some_iff]
    refine ⟨text ++ post, dropBytes?_eq_some_iff.2 ⟨pre, rfl, rfl⟩, ?_⟩
    rw [Nat.add_sub_cancel_left]
    exact takeBytes?_eq_some_iff.2 ⟨post, rfl, rfl⟩

/-- The slice that starts at a cut is what the text behind the cut starts with. -/
theorem slice?_behind_iff {cs pre behind text : List Char} {stop : Nat} (h : cs = pre ++ behind) :
    slice? cs (byteLength pre) stop = some text ↔
      ∃ post, behind = text ++ post ∧ byteLength pre + byteLength text = stop := by
  rw [slice?_eq_some_iff]
  constructor
  · rintro ⟨pre', post, heq, hpre, hstop⟩
    obtain ⟨rfl, hbehind⟩ := append_inj_of_byteLength (h.symm.trans heq) hpre.symm
    exact ⟨post, hbehind, hstop⟩
  · rintro ⟨post, rfl, hstop⟩
    exact ⟨pre, post, h, rfl, hstop⟩

theorem slice?_of_eq {cs pre text post : List Char} (h : cs = pre ++ (text ++ post)) :
    slice? cs (byteLength pre) (byteLength pre + byteLength text) = some text :=
  (slice?_behind_iff h).2 ⟨post, rfl, rfl⟩

section Ends

variable {cs pre text post : List Char} {c : Char}

theorem slice?_head_iff (hc : c.utf8Size = 1) (hne : text ≠ []) (h : cs = pre ++ (text ++ post)) :
    slice? cs (byteLength pre) (byteLength pre + 1) = some [c] ↔ text.head? = some c := by
  obtain ⟨d, text, rfl⟩ := List.exists_cons_of_ne_nil hne
  rw [List.head?_cons, slice?_behind_iff h]
  constructor
  · rintro ⟨post', heq, -⟩
    rw [(List.cons.inj heq).1]
  · rintro ⟨rfl⟩
    refine ⟨text ++ post, rfl, ?_⟩
    rw [byteLength_cons, hc, byteLength_nil]

theorem slice?_getLast_iff (hc : c.utf8Size = 1) (hne : text ≠ [])
    (h : cs = pre ++ (text ++ post)) :
    slice? cs (byteLength pre + byteLength text - 1) (byteLength pre + byteLength text) = some [c] ↔
      text.getLast? = some c := by
  have hsingle : byteLength [c] = 1 := by rw [byteLength_cons, hc, byteLength_nil]
  have hpos := byteLength_pos hne
  rw [slice?_eq_some_iff, List.getLast?_eq_some_iff]
  constructor
  · rintro ⟨pre', post', heq, hpre, -⟩
    have hcut : (pre ++ text) ++ post = (pre' ++ [c]) ++ post' := by
      rw [List.append_assoc, List.append_assoc, ← h, ← heq]
    have hlength : byteLength (pre ++ text) = byteLength (pre' ++ [c]) := by
      rw [byteLength_append, byteLength_append, hpre, hsingle]
      omega
    obtain ⟨hends, -⟩ := append_inj_of_byteLength hcut hlength
    rcases List.append_eq_append_iff.1 hends with ⟨more, rfl, rfl⟩ | ⟨more, rfl, hmore⟩
    · exact ⟨more, rfl⟩
    · rcases List.append_eq_singleton_iff.1 hmore.symm with ⟨rfl, rfl⟩ | ⟨-, rfl⟩
      · exact ⟨[], rfl⟩
      · exact absurd rfl hne
  · rintro ⟨front, rfl⟩
    rw [byteLength_append, hsingle] at hpos ⊢
    refine ⟨pre ++ front, post, by rw [h]; simp, ?_, ?_⟩
    · rw [byteLength_append]
      omega
    · omega

end Ends

/-! ### Offsets in a string -/

theorem utf8ByteSize_ofList (cs : List Char) : (String.ofList cs).utf8ByteSize = byteLength cs := by
  induction cs with
  | nil => rfl
  | cons c cs ih =>
    rw [String.ofList_cons, String.utf8ByteSize_append, String.utf8ByteSize_singleton, ih,
      byteLength_cons]

theorem utf8ByteSize_eq (source : String) : source.utf8ByteSize = byteLength source.toList := by
  rw [← utf8ByteSize_ofList, String.ofList_toList]

/-- Where a text is cut, a character starts or the text ends. -/
theorem isValid_of_append {source : String} {pre post : List Char}
    (h : source.toList = pre ++ post) : String.Pos.Raw.IsValid source ⟨byteLength pre⟩ := by
  rw [String.Pos.Raw.isValid_iff_exists_append]
  refine ⟨String.ofList pre, String.ofList post, ?_, ?_⟩
  · rw [← String.ofList_append, ← h, String.ofList_toList]
  · apply String.Pos.Raw.ext
    rw [String.byteIdx_rawEndPos, utf8ByteSize_ofList]

end Kestrel.Text
