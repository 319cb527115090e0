import Kestrel.Files.Path
import Kestrel.Text.Pieces

/-!
# Extensions of paths

A path is cut behind its last slash, and a name of a file may stand behind the cut. The path with
another extension has the same folders and a name with that extension. So a path stays as it is only
if it has the extension already, or if it does not end in a name of a file.

## Main definitions

- `Path.IsFolder`, `Path.IsFileName` — what may stand in front of the last cut, and behind it
- `Path.HasExtension` — a path has an extension

## Main statements

- `Path.splitName_append`, `Path.cut_unique` — a path is cut in one way only
- `Path.withExtension_append` — the path of a file with another extension
- `Path.withExtension_eq_self_iff` — which paths stay as they are
-/

namespace Kestrel.Path

open Text

/-- Folders, each followed by a slash: what stands in front of the last name of a path. -/
def IsFolder (folder : List Char) : Prop :=
  EndsPieces '/' folder

/-- A name that a file can have: two names lead to directories. -/
structure IsFileName (name : List Char) : Prop where
  slash_notMem : '/' ∉ name
  ne_nil : name ≠ []
  ne_dot : name ≠ ['.']
  ne_dots : name ≠ ['.', '.']

/-- A name with any other character than dots is one of a file. -/
theorem IsFileName.of_mem {name : List Char} {c : Char} (hslash : '/' ∉ name) (hc : c ∈ name)
    (hdot : c ≠ '.') : IsFileName name where
  slash_notMem := hslash
  ne_nil := by rintro rfl; simp at hc
  ne_dot := by rintro rfl; simp [hdot] at hc
  ne_dots := by rintro rfl; simp [hdot] at hc

/-- An extension stands behind the last dot of a path, and a name in front of that dot. Another dot
is no such name. -/
def HasExtension (path extension : List Char) : Prop :=
  ∃ folder stem, path = folder ++ (stem ++ '.' :: extension) ∧ IsFolder folder ∧ '/' ∉ stem ∧
    stem ≠ [] ∧ stem ≠ ['.']

/-! ### Cutting a path -/

section Cut

variable {folder folder' name name' path : List Char}

/-- A path is cut behind its last slash. -/
theorem splitName_append (hfolder : IsFolder folder) (hname : '/' ∉ name) :
    splitName (folder ++ name) = (folder, name) := by
  rw [splitName, EndsPieces.dropWhile_reverse hfolder hname,
    EndsPieces.takeWhile_reverse hfolder hname, List.reverse_reverse, List.reverse_reverse]

/-- A path is cut in one way only. -/
theorem cut_unique (hfolder : IsFolder folder) (hname : '/' ∉ name) (hfolder' : IsFolder folder')
    (hname' : '/' ∉ name') (h : folder ++ name = folder' ++ name') :
    folder = folder' ∧ name = name' := by
  rw [← Prod.mk.injEq, ← splitName_append hfolder hname, h, splitName_append hfolder' hname']

/-- Nothing is dropped behind a name. -/
theorem trimmed_append (hname : '/' ∉ name) (hne : name ≠ []) (hdot : name ≠ ['.']) :
    trimmed (folder ++ name) = folder ++ name := by
  have hkept : dropTrailing (folder ++ name).reverse = (folder ++ name).reverse := by
    rw [List.reverse_append]
    rw [← List.mem_reverse] at hname
    cases hcs : name.reverse with
    | nil => exact absurd (List.reverse_eq_nil_iff.1 hcs) hne
    | cons c cs =>
      rw [hcs] at hname
      obtain ⟨hc, hrest⟩ := not_or.1 (mt List.mem_cons.2 hname)
      apply dropTrailing.eq_3
      · intro path heq
        exact hc (List.cons.inj heq).1.symm
      · intro path heq
        obtain ⟨rfl, hrest'⟩ := List.cons.inj heq
        -- The slash behind the dot would be one of the name, unless the dot is all of it.
        cases cs with
        | nil => exact hdot (List.reverse_inj.1 hcs)
        | cons c' cs =>
          exact hrest (List.mem_cons.2 (.inl (List.cons.inj hrest').1.symm))
  rw [trimmed, hkept, List.reverse_reverse]

theorem name?_append (hfolder : IsFolder folder) (hname : IsFileName name) :
    name? (folder ++ name) = some name := by
  rw [name?, trimmed_append hname.slash_notMem hname.ne_nil hname.ne_dot,
    splitName_append hfolder hname.slash_notMem]
  simp [hname.ne_nil, hname.ne_dot, hname.ne_dots]

theorem name?_append_dots (hfolder : IsFolder folder) : name? (folder ++ ['.', '.']) = none := by
  have hslash : '/' ∉ ['.', '.'] := by decide
  rw [name?, trimmed_append hslash (by decide) (by decide), splitName_append hfolder hslash]
  rfl

end Cut

/-! ### Stems -/

section Stem

variable {folder name stem extension : List Char}

theorem stem_append (hstem : stem ≠ []) (hdot : '.' ∉ extension) :
    Path.stem (stem ++ '.' :: extension) = stem := by
  have hall := bne_of_notMem (mt List.mem_reverse.1 hdot)
  rw [Path.stem, List.reverse_append, List.reverse_cons, List.append_assoc,
    List.dropWhile_append_of_pos hall]
  simp [hstem]

theorem stem_ne_nil (hname : name ≠ []) : Path.stem name ≠ [] := by
  unfold Path.stem
  simp only
  split
  · exact hname
  · next h => simpa using h

theorem mem_of_mem_stem {c : Char} (h : c ∈ Path.stem name) : c ∈ name := by
  revert h
  unfold Path.stem
  simp only
  split
  · exact id
  · intro h
    rw [List.mem_reverse] at h
    rw [← List.mem_reverse]
    exact List.dropWhile_subset _ (List.drop_subset _ _ h)

end Stem

/-! ### Other extensions -/

section Extension

variable {folder name path extension : List Char}

/-- A name of a file gets another extension, and its folders stay. -/
theorem withExtension_append (hfolder : IsFolder folder) (hname : IsFileName name)
    (extension : List Char) :
    withExtension (folder ++ name) extension =
      folder ++ if stem name = ['.'] then ['.', '.'] else stem name ++ '.' :: extension := by
  simp only [withExtension, name?_append hfolder hname,
    trimmed_append hname.slash_notMem hname.ne_nil hname.ne_dot,
    splitName_append hfolder hname.slash_notMem, decide_true, Bool.and_true, decide_eq_true_eq]
  split <;> simp

/-- The name in front of the extension of a path is one that gets the other extension. -/
theorem exists_withExtension (h : name? path = some name) (extension : List Char) :
    ∃ folder, IsFolder folder ∧ '/' ∉ name ∧ (withExtension path extension = folder ++ ['.', '.'] ∨
      withExtension path extension = folder ++ (stem name ++ '.' :: extension)) := by
  obtain ⟨folder, name', htrimmed, hfolder, hname'⟩ := exists_endsPieces '/' (trimmed path)
  have hsplit : splitName (trimmed path) = (folder, name') := by
    rw [htrimmed, splitName_append hfolder hname']
  have hname : name' = name := by
    rw [name?, hsplit] at h
    simp only [Option.ite_none_left_eq_some, Option.some.injEq] at h
    exact h.2
  refine ⟨folder, hfolder, hname ▸ hname', ?_⟩
  simp only [withExtension, h, hsplit, List.append_assoc]
  split
  · exact .inl rfl
  · exact .inr rfl

section Unchanged

variable (hslash : '/' ∉ extension) (hdot : '.' ∉ extension)

include hslash hdot

theorem isFileName_append (hne : extension ≠ []) {stem : List Char} (hstem : '/' ∉ stem) :
    IsFileName (stem ++ '.' :: extension) := by
  obtain ⟨c, hc⟩ := List.exists_mem_of_ne_nil _ hne
  apply IsFileName.of_mem _ (List.mem_append_right _ (List.mem_cons_of_mem _ hc))
  · exact fun heq => hdot (heq ▸ hc)
  · simp [hstem, hslash]

/-- A file keeps its path only if it has the extension already. -/
theorem withExtension_append_eq_self_iff (hfolder : IsFolder folder) (hname : IsFileName name) :
    withExtension (folder ++ name) extension = folder ++ name ↔
      HasExtension (folder ++ name) extension := by
  rw [withExtension_append hfolder hname, List.append_cancel_left_eq]
  constructor
  · intro h
    by_cases hstem : stem name = ['.']
    · rw [if_pos hstem] at h
      exact absurd h.symm hname.ne_dots
    · rw [if_neg hstem] at h
      exact ⟨folder, stem name, by rw [h], hfolder,
        mt mem_of_mem_stem hname.slash_notMem, stem_ne_nil hname.ne_nil, hstem⟩
  · rintro ⟨folder', stem', hpath, hfolder', hslash', hnil, hsingle⟩
    have hname' : '/' ∉ stem' ++ '.' :: extension := by simp [hslash', hslash]
    obtain ⟨-, rfl⟩ := cut_unique hfolder hname.slash_notMem hfolder' hname' hpath
    rw [stem_append hnil hdot, if_neg hsingle]

/-- A path stays as it is if no name of a file is at its end, or one that has the extension
already. -/
theorem withExtension_eq_self_iff (hne : extension ≠ []) (path : List Char) :
    withExtension path extension = path ↔ name? path = none ∨ HasExtension path extension := by
  obtain ⟨folder, name, rfl, hfolder, hslash'⟩ := exists_endsPieces '/' path
  by_cases hname : IsFileName name
  · rw [withExtension_append_eq_self_iff hslash hdot hfolder hname,
      name?_append hfolder hname]
    simp
  · -- A path that ends in the extension has a name of a file.
    have hbehind {folder' stem : List Char} (hfolder' : IsFolder folder') (hstem : '/' ∉ stem) :
        folder' ++ (stem ++ '.' :: extension) ≠ folder ++ name := by
      intro heq
      have hfile := isFileName_append hslash hdot hne hstem
      obtain ⟨-, rfl⟩ := cut_unique hfolder' hfile.slash_notMem hfolder hslash' heq
      exact hname hfile
    constructor
    · intro h
      left
      cases hfound : name? (folder ++ name) with
      | none => rfl
      | some found =>
        obtain ⟨folder', hfolder', hfound', hdots | hextension⟩ :=
          exists_withExtension hfound extension
        · rw [← h, hdots, name?_append_dots hfolder'] at hfound
          cases hfound
        · exact absurd (hextension.symm.trans h) (hbehind hfolder' (mt mem_of_mem_stem hfound'))
    · rintro (hnone | ⟨folder', stem, hpath, hfolder', hstem, -, -⟩)
      · rw [withExtension, hnone]
      · exact absurd hpath.symm (hbehind hfolder' hstem)

end Unchanged

example : (["a.b/m.kes", "m", ".kbc", "..kbc", "..", "m.kbc/", "m.kbc"].map fun path =>
    String.ofList (withExtension path.toList ['k', 'b', 'c'])) =
    ["a.b/m.kbc", "m.kbc", ".kbc.kbc", "..", "..", "m.kbc", "m.kbc"] := by
  decide

end Extension

end Kestrel.Path
