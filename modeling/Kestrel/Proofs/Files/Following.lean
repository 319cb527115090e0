import Kestrel.Files.Tree
import Kestrel.Proofs.Files.Extension

/-!
# Where paths lead

A path names a file in a directory if its folders lead to that directory. Files are written under
such names only, and so they are found again: nothing on the way is lost when a file is put
somewhere.

## Main definitions

- `FileTree.Names` — a path names a file in a directory, which need not be there

## Main statements

- `FileTree.exists_names_of_resolve`, `FileTree.Names.resolve` — a path to a file names it
- `FileTree.exists_names_of_write`, `FileTree.Names.write` — a file is written where a path names it
- `FileTree.read_of_write` — a file that was written is read again
-/

namespace Kestrel

open Text Kestrel.Path

/-- Where one step follows another, both succeed. -/
theorem exists_of_bind_eq_ok {ε α β : Type} {x : Except ε α} {f : α → Except ε β} {b : β}
    (h : x >>= f = .ok b) : ∃ a, x = .ok a ∧ f a = .ok b := by
  cases x with
  | error e => cases h
  | ok a => exact ⟨a, rfl, h⟩

namespace FileTree

variable {tree tree' : FileTree} {place place' directory : Place} {path name : String}
  {names folders : List String} {contents : ByteArray}

/-! ### Directories -/

/-- There is a directory above every other one. -/
theorem isDirectory_above (habove : place <+: place')
    (h : tree.isDirectory place' = true) : tree.isDirectory place = true := by
  simp only [isDirectory, Bool.or_eq_true, List.any_eq_true, Bool.and_eq_true,
    List.isPrefixOf_iff_prefix, bne_iff_ne] at h ⊢
  rcases h with h | ⟨file, hfile, hbelow, hne⟩
  · exact .inl (habove.trans h)
  · refine .inr ⟨file, hfile, habove.trans hbelow, ?_⟩
    rintro rfl
    exact hne (hbelow.eq_of_length_le habove.length_le)

/-- Directories stay when a file is put somewhere. -/
theorem isDirectory_put (h : tree.isDirectory directory = true) (file : Place)
    (contents : ByteArray) : (tree.put file contents).isDirectory directory = true := by
  simp only [isDirectory, put, Bool.or_eq_true, List.any_eq_true, Bool.and_eq_true,
    List.isPrefixOf_iff_prefix, bne_iff_ne] at h ⊢
  rcases h with h | ⟨other, hother, hbelow⟩
  · exact .inl h
  · right
    by_cases heq : other.1 = file
    · exact ⟨(file, contents), List.mem_cons_self, heq ▸ hbelow⟩
    · exact ⟨other, List.mem_cons_of_mem _ (List.mem_filter.2 ⟨hother, by simpa using heq⟩), hbelow⟩

/-! ### Single steps -/

/-- A name that a file can have, unless it holds a slash. -/
theorem isFileName_toList_iff (hslash : '/' ∉ name.toList) :
    IsFileName name.toList ↔ ¬ (name = "" ∨ name = ".") ∧ name ≠ ".." := by
  constructor
  · intro h
    refine ⟨?_, ?_⟩
    · rintro (rfl | rfl)
      · exact h.ne_nil rfl
      · exact h.ne_dot rfl
    · rintro rfl
      exact h.ne_dots rfl
  · rintro ⟨hsame, hdots⟩
    obtain ⟨hempty, hdot⟩ := not_or.1 hsame
    exact ⟨hslash, fun h => hempty (String.toList_inj.1 h), fun h => hdot (String.toList_inj.1 h),
      fun h => hdots (String.toList_inj.1 h)⟩

/-- A step leads from a directory to itself, to the one above or to what has the name there. -/
theorem enter_eq_ok_iff : tree.enter place name = .ok place' ↔
    tree.isDirectory place = true ∧
      ((name = "" ∨ name = ".") ∧ place' = place ∨
        name = ".." ∧ place' = place.dropLast ∨
        (¬ (name = "" ∨ name = ".") ∧ name ≠ "..") ∧ name.utf8ByteSize ≤ maxName ∧
          ((tree.contents? (place ++ [name])).isSome = true ∨
            tree.isDirectory (place ++ [name]) = true) ∧
          place' = place ++ [name]) := by
  by_cases hplace : tree.isDirectory place = false
  · simp [enter, hplace]
  rw [Bool.not_eq_false] at hplace
  by_cases hsame : name = "" ∨ name = "."
  · have hdots : name ≠ ".." := by
      rintro rfl
      simp at hsame
    simp [enter, hplace, hsame, hdots, @eq_comm _ place']
  by_cases hdots : name = ".."
  · simp [enter, hplace, hdots, @eq_comm _ place']
  by_cases hsize : maxName < name.utf8ByteSize
  · simp [enter, hplace, hsame, hdots, hsize, Nat.not_le.2 hsize]
  by_cases hthere : (tree.contents? (place ++ [name])).isSome = true ∨
      tree.isDirectory (place ++ [name]) = true
  · simp [enter, hplace, hsame, hdots, hsize, hthere, Nat.not_lt.1 hsize, @eq_comm _ place']
  · simp [enter, hplace, hsame, hdots, hsize, hthere]

theorem enter_dot_eq_ok_iff :
    tree.enter place "." = .ok place' ↔ tree.isDirectory place = true ∧ place' = place := by
  simp [enter_eq_ok_iff]

/-- A step stays possible when a file is put somewhere. -/
theorem enter_put (h : tree.enter place name = .ok place') (file : Place) (contents : ByteArray) :
    (tree.put file contents).enter place name = .ok place' := by
  rw [enter_eq_ok_iff] at h ⊢
  obtain ⟨hplace, hsame | habove | ⟨hname, hsize, hthere, heq⟩⟩ := h
  · exact ⟨isDirectory_put hplace file contents, .inl hsame⟩
  · exact ⟨isDirectory_put hplace file contents, .inr (.inl habove)⟩
  · refine ⟨isDirectory_put hplace file contents, .inr (.inr ⟨hname, hsize, ?_, heq⟩)⟩
    apply hthere.imp
    · intro hsome
      by_cases hfile : place ++ [name] = file
      · simp [hfile]
      · rwa [contents?_put_of_ne hfile]
    · intro hbelow
      exact isDirectory_put hbelow file contents

theorem foldlM_enter_put (h : names.foldlM tree.enter place = .ok place') (file : Place)
    (contents : ByteArray) : names.foldlM (tree.put file contents).enter place = .ok place' := by
  induction names generalizing place with
  | nil => exact h
  | cons name names ih =>
    obtain ⟨next, hnext, hrest⟩ := exists_of_bind_eq_ok h
    rw [List.foldlM_cons, enter_put hnext file contents]
    exact ih hrest

/-- The last step leads on from where the others end. -/
theorem foldlM_enter_append : (names ++ [name]).foldlM tree.enter place = .ok place' ↔
    ∃ next, names.foldlM tree.enter place = .ok next ∧ tree.enter next name = .ok place' := by
  rw [List.foldlM_append]
  constructor
  · intro h
    obtain ⟨next, hnames, hlast⟩ := exists_of_bind_eq_ok h
    obtain ⟨last, henter, hpure⟩ := exists_of_bind_eq_ok hlast
    obtain rfl := Except.ok.inj hpure
    exact ⟨next, hnames, henter⟩
  · rintro ⟨next, hnames, henter⟩
    rw [hnames]
    show (tree.enter next name >>= pure) = _
    rw [henter]
    rfl

/-! ### Whole paths -/

/-- A path names a file in a directory, to which its folders lead. -/
structure Names (tree : FileTree) (path : String) (directory : Place) (name : String) : Prop where
  follows : ∃ place folders, tree.start path = .ok (place, folders ++ [name]) ∧
    folders.foldlM tree.enter place = .ok directory
  isDirectory : tree.isDirectory directory = true
  isFileName : IsFileName name.toList
  size_le : name.utf8ByteSize ≤ maxName

/-- The last name of a path stands behind its folders. -/
theorem exists_last_of_start (h : tree.start path = .ok (place, names)) :
    ∃ folder folders name, names = folders ++ [name] ∧ path.toList = folder ++ name.toList ∧
      IsFolder folder ∧ '/' ∉ name.toList := by
  have hnames : names = (pieces '/' path.toList).map String.ofList := by
    unfold start at h
    split at h
    · cases h
    split at h
    · cases h
    split at h
    · cases h
    exact (Prod.mk.inj (Except.ok.inj h)).2.symm
  obtain ⟨folder, name, hpath, hfolder, hslash⟩ := exists_endsPieces '/' path.toList
  rw [hpath] at hnames
  rcases hfolder with rfl | ⟨front, rfl⟩
  · refine ⟨[], [], String.ofList name, ?_, ?_, .inl rfl, ?_⟩
    · rw [hnames, List.nil_append, pieces_of_notMem hslash]
      rfl
    · rw [hpath, String.toList_ofList]
    · rwa [String.toList_ofList]
  · refine ⟨front ++ ['/'], (pieces '/' front).map String.ofList, String.ofList name, ?_, ?_,
      .inr ⟨front, rfl⟩, ?_⟩
    · rw [hnames, List.append_assoc, List.singleton_append, pieces_append_last hslash,
        List.map_append]
      rfl
    · rw [hpath, String.toList_ofList]
    · rwa [String.toList_ofList]

namespace Names

variable (h : tree.Names path directory name)

include h

/-- The file that a path names has the last name of the path. -/
theorem exists_folder : ∃ folder, path.toList = folder ++ name.toList ∧ IsFolder folder := by
  obtain ⟨place, folders, hstart, -⟩ := h.follows
  obtain ⟨folder, folders', name', hnames, hpath, hfolder, -⟩ := exists_last_of_start hstart
  obtain ⟨-, hname⟩ := List.append_inj' hnames rfl
  obtain rfl := (List.cons.inj hname).1
  exact ⟨folder, hpath, hfolder⟩

theorem name?_ne_none : name? path.toList ≠ none := by
  obtain ⟨folder, hpath, hfolder⟩ := h.exists_folder
  rw [hpath, name?_append hfolder h.isFileName]
  exact Option.some_ne_none _

/-- Paths name the same files when another file is put somewhere. -/
theorem put (file : Place) (contents : ByteArray) :
    (tree.put file contents).Names path directory name where
  follows := by
    obtain ⟨place, folders, hstart, hfolders⟩ := h.follows
    exact ⟨place, folders, hstart, foldlM_enter_put hfolders file contents⟩
  isDirectory := isDirectory_put h.isDirectory file contents
  isFileName := h.isFileName
  size_le := h.size_le

/-- A path leads to the file that it names. -/
theorem resolve (hthere : (tree.contents? (directory ++ [name])).isSome = true) :
    tree.resolve path = .ok (directory ++ [name]) := by
  obtain ⟨place, folders, hstart, hfolders⟩ := h.follows
  have henter : tree.enter directory name = .ok (directory ++ [name]) :=
    enter_eq_ok_iff.2 ⟨h.isDirectory, .inr (.inr ⟨(isFileName_toList_iff
      h.isFileName.slash_notMem).1 h.isFileName, h.size_le, .inl hthere, rfl⟩)⟩
  rw [FileTree.resolve, hstart]
  exact foldlM_enter_append.2 ⟨directory, hfolders, henter⟩

/-- A path leads nowhere but to the file that it names. -/
theorem eq_of_resolve (hplace : tree.resolve path = .ok place) : place = directory ++ [name] := by
  obtain ⟨first, folders, hstart, hfolders⟩ := h.follows
  rw [FileTree.resolve, hstart] at hplace
  obtain ⟨directory', hfolders', henter⟩ := foldlM_enter_append.1 hplace
  obtain rfl := Except.ok.inj (hfolders.symm.trans hfolders')
  obtain ⟨hsame, hdots⟩ := (isFileName_toList_iff h.isFileName.slash_notMem).1 h.isFileName
  obtain ⟨-, ⟨hname, -⟩ | ⟨hname, -⟩ | ⟨-, -, -, hplace⟩⟩ := enter_eq_ok_iff.1 henter
  · exact absurd hname hsame
  · exact absurd hname hdots
  · exact hplace

end Names

/-- A path that does not lead to a directory names a file. -/
theorem exists_names_of_resolve (h : tree.resolve path = .ok place)
    (hplace : tree.isDirectory place = false) :
    ∃ directory name, tree.Names path directory name ∧ place = directory ++ [name] := by
  obtain ⟨⟨first, names⟩, hstart, hnames⟩ := exists_of_bind_eq_ok h
  obtain ⟨folder, folders, name, rfl, -, -, hslash⟩ := exists_last_of_start hstart
  obtain ⟨directory, hfolders, henter⟩ := foldlM_enter_append.1 hnames
  obtain ⟨hdirectory, ⟨-, rfl⟩ | ⟨-, rfl⟩ | ⟨hname, hsize, -, rfl⟩⟩ := enter_eq_ok_iff.1 henter
  · exact absurd hdirectory (by simp [hplace])
  · exact absurd (isDirectory_above (List.dropLast_prefix directory) hdirectory)
      (by simp [hplace])
  · exact ⟨directory, name, ⟨⟨first, folders, hstart, hfolders⟩, hdirectory,
      (isFileName_toList_iff hslash).2 hname, hsize⟩, rfl⟩

/-! ### Writing -/

theorem target_fileName (hname : IsFileName name.toList) :
    target (folders ++ [name]) = (folders, some name) := by
  obtain ⟨hsame, hdots⟩ := (isFileName_toList_iff hname.slash_notMem).1 hname
  obtain ⟨hempty, hdot⟩ := not_or.1 hsame
  simp [target, hempty, hdot, hdots]

/-- Only the last name of a path can be one of a file that is written. -/
theorem target_eq_some {before : List String} {file : String}
    (h : target (folders ++ [name]) = (before, some file)) :
    before = folders ∧ file = name ∧ ¬ (name = "" ∨ name = ".") ∧ name ≠ ".." := by
  by_cases hempty : name = ""
  · subst hempty
    unfold target at h
    split at h
    · cases h
    · next last before hlast =>
      have hne : last ≠ "" := by
        have hhead := List.head?_dropWhile_not (· == "") (folders ++ [""]).reverse
        rw [hlast] at hhead
        simpa using hhead
      simp [hne.symm] at h
  · simp [target, hempty] at h
    obtain ⟨rfl, ⟨hdot, hdots⟩, rfl⟩ := h
    exact ⟨rfl, rfl, by simp [hempty, hdot], hdots⟩

/-- A file is written where a path names it. -/
theorem Names.write (h : tree.Names path directory name)
    (hfree : tree.isDirectory (directory ++ [name]) = false) (contents : ByteArray) :
    tree.write path contents = .ok (tree.put (directory ++ [name]) contents) := by
  obtain ⟨place, folders, hstart, hfolders⟩ := h.follows
  have hbefore : (folders ++ ["."]).foldlM tree.enter place = .ok directory :=
    foldlM_enter_append.2 ⟨directory, hfolders, enter_dot_eq_ok_iff.2 ⟨h.isDirectory, rfl⟩⟩
  rw [FileTree.write, hstart]
  simp [bind, Except.bind, target_fileName h.isFileName, hbefore, Nat.not_lt.2 h.size_le, hfree]
  rfl

/-- A file is written only where a path names it. -/
theorem exists_names_of_write (h : tree.write path contents = .ok tree') :
    ∃ directory name, tree.Names path directory name ∧
      tree.isDirectory (directory ++ [name]) = false ∧
      tree' = tree.put (directory ++ [name]) contents := by
  obtain ⟨⟨place, names⟩, hstart, hwrite⟩ := exists_of_bind_eq_ok h
  obtain ⟨folder, folders, name, rfl, -, -, hslash⟩ := exists_last_of_start hstart
  dsimp only at hwrite
  cases htarget : target (folders ++ [name]) with
  | mk before file? =>
    rw [htarget] at hwrite
    obtain ⟨directory, hbefore, hfile⟩ := exists_of_bind_eq_ok hwrite
    cases file? with
    | none => cases hfile
    | some file =>
      obtain ⟨rfl, rfl, hname⟩ := target_eq_some htarget
      obtain ⟨last, hfolders, henter⟩ := foldlM_enter_append.1 hbefore
      obtain ⟨hlast, rfl⟩ := enter_dot_eq_ok_iff.1 henter
      dsimp only at hfile
      split at hfile
      · cases hfile
      next hsize =>
        split at hfile
        · cases hfile
        next hfree =>
          exact ⟨directory, file, ⟨⟨place, before, hstart, hfolders⟩, hlast,
            (isFileName_toList_iff hslash).2 hname, Nat.not_lt.1 hsize⟩, by simpa using hfree,
            (Except.ok.inj hfile).symm⟩

/-- A file that is there is written again where its path leads. -/
theorem write_of_resolve (h : tree.resolve path = .ok place)
    (hplace : tree.isDirectory place = false) (contents : ByteArray) :
    tree.write path contents = .ok (tree.put place contents) := by
  obtain ⟨directory, name, hnames, rfl⟩ := exists_names_of_resolve h hplace
  exact hnames.write hplace contents

/-- What is read stands where the path leads. -/
theorem read_eq_ok_iff : tree.read path = .ok contents ↔
    ∃ place, tree.resolve path = .ok place ∧ tree.contents? place = some contents := by
  constructor
  · intro h
    obtain ⟨place, hplace, hread⟩ := exists_of_bind_eq_ok h
    cases hthere : tree.contents? place with
    | none =>
      rw [hthere] at hread
      cases hread
    | some found =>
      rw [hthere] at hread
      exact ⟨place, hplace, by rw [hthere, Except.ok.inj hread]⟩
  · rintro ⟨place, hplace, hthere⟩
    simp only [FileTree.read, hplace, bind, Except.bind, hthere]
    rfl

/-- A file that was written is read again under its path. -/
theorem read_of_write (h : tree.write path contents = .ok tree') :
    tree'.read path = .ok contents := by
  obtain ⟨directory, name, hnames, -, rfl⟩ := exists_names_of_write h
  have hresolve := (hnames.put (directory ++ [name]) contents).resolve (by simp)
  exact read_eq_ok_iff.2 ⟨_, hresolve, contents?_put_self tree _ contents⟩

/-! ### Other extensions -/

/-- Under another extension, a path names the same file only if it is the same path. -/
theorem Names.withExtension_eq {other : String} {directory' : Place} {name' : String}
    {extension : List Char} (h : tree.Names path directory name)
    (hother : tree.Names other directory' name')
    (hpath : other.toList = withExtension path.toList extension) (hslash : '/' ∉ extension)
    (hplace : directory ++ [name] = directory' ++ [name']) : other = path := by
  obtain ⟨folder, hcut, hfolder⟩ := h.exists_folder
  obtain ⟨folder', hcut', hfolder'⟩ := hother.exists_folder
  obtain ⟨-, hlast⟩ := List.append_inj' hplace rfl
  obtain rfl := (List.cons.inj hlast).1
  have hnew : '/' ∉ if stem name.toList = ['.'] then ['.', '.']
      else stem name.toList ++ '.' :: extension := by
    have hstem := mt mem_of_mem_stem h.isFileName.slash_notMem
    split <;> simp [hslash, hstem]
  rw [hcut, withExtension_append hfolder h.isFileName, hcut'] at hpath
  obtain ⟨rfl, -⟩ := cut_unique hfolder' hother.isFileName.slash_notMem hfolder hnew hpath
  rw [← String.toList_inj, hcut, hcut']

end FileTree

end Kestrel
