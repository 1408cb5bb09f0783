import Mathlib
import PitFleet.Files

/-!
# What is written is found

To put a file into a tree leaves every directory where it is (`FileNode.exists_directory_set`), so
that the way to the file leads to it as before and ends at what was written (`FileTree.find?_write`).
To make the directories on the way leaves every file as it was (`FileTree.find?_file_makeParent`).
-/

namespace PitFleet

namespace FileNode

theorem lookup_filter {name key : String} (hkey : key ≠ name) :
    ∀ entries : List (String × FileNode),
      (entries.filter (·.1 ≠ name)).lookup key = entries.lookup key
  | [] => rfl
  | (other, node) :: entries => by
    have ih := lookup_filter hkey entries
    by_cases hother : other = name
    · have hne : (key == other) = false := beq_false_of_ne (hother ▸ hkey)
      rw [List.filter_cons_of_neg (by simpa using hother), List.lookup_cons, hne]
      exact ih
    · rw [List.filter_cons_of_pos (by simpa using hother), List.lookup_cons, List.lookup_cons, ih]

theorem lookup_replace (entries : List (String × FileNode)) (name : String) (node : FileNode)
    (key : String) : ((name, node) :: entries.filter (·.1 ≠ name)).lookup key
      = if key = name then some node else entries.lookup key := by
  by_cases hkey : key = name
  · rw [if_pos hkey, hkey, List.lookup_cons_self]
  · rw [if_neg hkey, List.lookup_cons, beq_false_of_ne hkey]
    exact lookup_filter hkey entries

theorem get?_cons (entries : List (String × FileNode)) (name : String) (place : List String) :
    (directory entries).get? (name :: place) = (entries.lookup name).bind (·.get? place) :=
  rfl

variable (new : FileNode)

/-- A node that is put into a directory is there. -/
theorem get?_set {name : String} : ∀ {place : List String} {root : FileNode}
    {entries : List (String × FileNode)}, root.get? place = some (.directory entries) →
      (set new (place ++ [name]) root).get? (place ++ [name]) = some new
  | [], root, entries, h => by
    obtain rfl := Option.some.inj h
    rw [List.nil_append, set, get?_cons, lookup_replace, if_pos rfl]
    rfl
  | p :: place, .file text, entries, h => by cases h
  | p :: place, .directory es, entries, h => by
    rw [get?_cons] at h
    obtain ⟨child, hchild, h⟩ := Option.bind_eq_some_iff.1 h
    rw [List.cons_append, set, get?_cons, lookup_replace, if_pos rfl, hchild]
    exact get?_set h

/-- A node that is put where no directory is leaves all directories where they are. -/
theorem exists_directory_set : ∀ {place other : List String} {root : FileNode}
    {entries : List (String × FileNode)}, (∀ es, root.get? place ≠ some (.directory es)) →
      root.get? other = some (.directory entries) →
      ∃ entries', (set new place root).get? other = some (.directory entries')
  | _, [], .file text, entries, _, h => by cases h
  | _, _ :: _, .file text, entries, _, h => by cases h
  | [], _, .directory es, entries, hplace, _ => absurd rfl (hplace es)
  | p :: place, [], .directory es, entries, _, _ => ⟨_, rfl⟩
  | p :: place, o :: other, .directory es, entries, hplace, h => by
    rw [get?_cons] at h
    obtain ⟨child, hchild, h⟩ := Option.bind_eq_some_iff.1 h
    rw [set, get?_cons, lookup_replace]
    split
    case isTrue heq =>
      subst heq
      simp only [get?_cons, hchild, Option.bind_some] at hplace
      simp only [hchild, Option.getD_some, Option.bind_some]
      exact exists_directory_set hplace h
    case isFalse =>
      rw [hchild]
      exact ⟨entries, h⟩

/-- A node that is put where nothing is leaves every file where it is. -/
theorem get?_file_set {text : String} : ∀ {place other : List String} {root : FileNode},
    root.get? place = none → root.get? other = some (.file text) →
      (set new place root).get? other = some (.file text)
  | [], _, root, hplace, _ => by cases hplace
  | _ :: _, [], .file _, _, h => h
  | _ :: _, _ :: _, .file _, _, h => by cases h
  | _ :: _, [], .directory es, _, h => by cases h
  | p :: place, o :: other, .directory es, hplace, h => by
    rw [get?_cons] at h
    obtain ⟨child, hchild, h⟩ := Option.bind_eq_some_iff.1 h
    rw [set, get?_cons, lookup_replace]
    split
    case isTrue heq =>
      subst heq
      simp only [get?_cons, hchild, Option.bind_some] at hplace
      simp only [hchild, Option.getD_some, Option.bind_some]
      exact get?_file_set hplace h
    case isFalse =>
      rw [hchild]
      exact h

end FileNode

namespace FileTree

variable {t t' : FileTree}

theorem isDirectory_iff {place : List String} :
    t.isDirectory place = true ↔ ∃ entries, t.get? place = some (.directory entries) := by
  unfold isDirectory
  split
  · rename_i entries h
    exact ⟨fun _ => ⟨entries, h⟩, fun _ => rfl⟩
  · rename_i h
    exact ⟨fun hc => (Bool.false_ne_true hc).elim, fun ⟨entries, hc⟩ => absurd hc (h entries)⟩

theorem isDirectory_set {place other : List String} (node : FileNode)
    (hplace : t.isDirectory place = false) (h : t.isDirectory other = true) :
    (t.set place node).isDirectory other = true := by
  rw [← Bool.not_eq_true, isDirectory_iff, not_exists] at hplace
  obtain ⟨entries, h⟩ := isDirectory_iff.1 h
  exact isDirectory_iff.2 (node.exists_directory_set hplace h)

theorem follow_append : ∀ (place ps qs : List String),
    t.follow place (ps ++ qs) = (t.follow place ps).bind (t.follow · qs)
  | place, [], qs => rfl
  | place, p :: ps, qs => by
    rw [List.cons_append, follow, follow]
    split
    · exact follow_append _ ps qs
    · rfl

/-- A way that leads through directories leads on while these are there. -/
theorem follow_of_isDirectory
    (h : ∀ place, t.isDirectory place = true → t'.isDirectory place = true) :
    ∀ {ps place there : List String}, t.follow place ps = some there →
      t'.follow place ps = some there
  | [], place, there, hthere => hthere
  | p :: ps, place, there, hthere => by
    rw [follow] at hthere ⊢
    split at hthere
    case isTrue hplace =>
      rw [if_pos (h place hplace)]
      exact follow_of_isDirectory h hthere
    case isFalse => cases hthere

/-- A name at the end of a way leads into the last directory. -/
theorem exists_parent {place there ps : List String} {last : String}
    (hlast : ps.getLast? = some last) (hdot : last ≠ ".") (hdots : last ≠ "..")
    (h : t.follow place ps = some there) :
    ∃ parent, t.isDirectory parent = true ∧ there = parent ++ [last] := by
  obtain ⟨before, rfl⟩ := List.getLast?_eq_some_iff.1 hlast
  rw [follow_append] at h
  obtain ⟨parent, -, h⟩ := Option.bind_eq_some_iff.1 h
  rw [follow] at h
  split at h
  case isTrue hparent =>
    refine ⟨parent, hparent, ?_⟩
    rw [follow, step, if_neg hdot, if_neg hdots] at h
    exact (Option.some.inj h).symm
  case isFalse => cases h

/-- What a write does, provided that it can be done. -/
structure Writes (t : FileTree) (path text : String) (place : List String) (t' : FileTree) :
    Prop where
  last : ∃ last, (Path.parts path).getLast? = some last ∧ last ≠ "." ∧ last ≠ ".."
  isFile : Path.wantsDirectory path = false
  sound : Path.isSound path = true
  follow : t.follow (t.start path) (Path.parts path) = some place
  free : t.isDirectory place = false
  result : t' = t.set place (.file text)

theorem writes_of_write {path text : String} (h : t.write path text = some t') :
    ∃ place, Writes t path text place t' := by
  unfold write at h
  split at h
  · cases h
  · rename_i last hlast
    split at h
    · cases h
    · rename_i hname
      simp only [not_or, Bool.not_eq_true] at hname
      split at h
      · cases h
      · rename_i hsound
        simp only [Bool.or_eq_true, Bool.not_eq_true', not_or, Bool.not_eq_false] at hsound
        obtain ⟨place, hplace, h⟩ := Option.bind_eq_some_iff.1 h
        split at h
        · cases h
        · rename_i hfree
          obtain rfl := Option.some.inj h
          exact ⟨place, ⟨last, hlast, hname.1, hname.2.1⟩, hname.2.2, hsound.1, hplace,
            Bool.eq_false_iff.2 hfree, rfl⟩

theorem parts_empty : Path.parts "" = [] := by
  cbv

/-- A file that was written is found with its text. -/
theorem find?_write {path text : String} (h : t.write path text = some t') :
    t'.find? path = some (.file text) := by
  obtain ⟨place, ⟨⟨last, hlast, hdot, hdots⟩, hfile, hsound, hfollow, hfree, rfl⟩⟩ :=
    writes_of_write h
  have hne : path.isEmpty = false := by
    rw [← Bool.not_eq_true, String.isEmpty_iff]
    rintro rfl
    rw [parts_empty] at hlast
    cases hlast
  obtain ⟨parent, hparent, rfl⟩ := exists_parent hlast hdot hdots hfollow
  have hfollow' : (t.set (parent ++ [last]) (.file text)).follow (t.start path) (Path.parts path)
      = some (parent ++ [last]) :=
    follow_of_isDirectory (fun _ hplace => isDirectory_set _ hfree hplace) hfollow
  obtain ⟨entries, hentries⟩ := isDirectory_iff.1 hparent
  have hget : (t.set (parent ++ [last]) (.file text)).get? (parent ++ [last])
      = some (.file text) := FileNode.get?_set _ hentries
  have hstart : (t.set (parent ++ [last]) (.file text)).start path = t.start path := rfl
  simp [find?, hne, hsound, hstart, hfollow', hget, hfile]

/-- A file can be put at a path, once the directories on the way are made. -/
def Takes (t : FileTree) (path : String) : Prop :=
  ∃ t₁, t.makeParent path = some t₁ ∧ ∀ text, ∃ t', t₁.write path text = some t'

section Making

variable {path text : String}

theorem find?_eq_file_iff : t.find? path = some (.file text)
    ↔ (path.isEmpty = false ∧ Path.isSound path = true ∧ Path.wantsDirectory path = false)
      ∧ ∃ place, t.follow (t.start path) (Path.parts path) = some place
        ∧ t.get? place = some (.file text) := by
  unfold find?
  by_cases hpath : path.isEmpty = false ∧ Path.isSound path = true
  · rw [if_neg (by simp [hpath]), ← and_assoc, and_iff_right hpath]
    rcases t.follow (t.start path) (Path.parts path) with _ | place
    · simp
    · rcases hget : t.get? place with _ | ⟨text'⟩ | entries <;>
        cases Path.wantsDirectory path <;> simp [hget]
  · rw [if_pos (by simpa [← or_iff_not_imp_left] using hpath)]
    exact iff_of_false nofun fun h => hpath ⟨h.1.1, h.1.2.1⟩

/-- What is made where nothing is leaves every file. -/
theorem find?_file_set {node : FileNode} (hplace : t.get? place = none)
    (h : t.find? path = some (.file text)) : (t.set place node).find? path = some (.file text) := by
  obtain ⟨hpath, there, hfollow, hget⟩ := find?_eq_file_iff.1 h
  have hfree : t.isDirectory place = false := by
    rw [isDirectory, hplace]
  exact find?_eq_file_iff.2 ⟨hpath, there,
    follow_of_isDirectory (fun _ h => isDirectory_set node hfree h) hfollow,
    FileNode.get?_file_set node hplace hget⟩

theorem find?_file_makeDirectories : ∀ {ps place : List String} {t : FileTree},
    t.makeDirectories place ps = some t' → t.find? path = some (.file text) →
      t'.find? path = some (.file text)
  | [], place, t, hmake, h => by
    obtain rfl := Option.some.inj hmake
    exact h
  | p :: ps, place, t, hmake, h => by
    rw [makeDirectories] at hmake
    split at hmake
    · rename_i hnone
      split at hmake
      · exact find?_file_makeDirectories hmake (find?_file_set hnone h)
      · cases hmake
    · exact find?_file_makeDirectories hmake h
    · cases hmake

theorem find?_file_makeParent {other : String} (hmake : t.makeParent other = some t')
    (h : t.find? path = some (.file text)) : t'.find? path = some (.file text) := by
  unfold makeParent at hmake
  split at hmake
  · obtain rfl := Option.some.inj hmake
    exact h
  · split at hmake
    · exact find?_file_makeDirectories hmake h
    · cases hmake

end Making

section Lone

/-- A directory that is empty or has one file, `c`. -/
def lone (text : Option String) : FileTree where
  root := .directory (text.toList.map fun text => ("c", .file text))
  working := []

variable (text : Option String)

theorem parts_c : Path.parts "c" = ["c"] := by
  cbv

theorem parent?_c : Path.parent? "c" = some "" := by
  cbv

theorem start_lone (path : String) : (lone text).start path = [] := by
  unfold start
  split <;> rfl

theorem find?_lone : (lone text).find? "c" = text.map .file := by
  have hsound : Path.isSound "c" = true := by decide +kernel
  have hfile : Path.wantsDirectory "c" = false := by decide +kernel
  rw [find?, hsound, start_lone, parts_c]
  cases text <;> simp [hfile, follow, step, lone, isDirectory, get?, FileNode.get?]

theorem makeParent_lone : (lone text).makeParent "c" = some (lone text) := by
  have hsound : Path.isSound "" = true := by decide +kernel
  rw [makeParent, parent?_c]
  simp only [hsound, if_true, parts_empty, makeDirectories]

theorem write_lone (new : String) : (lone text).write "c" new = some (lone (some new)) := by
  have hsound : (!Path.isSound "c" || !Path.isName "c") = false := by decide +kernel
  have hname : ¬ ("c" = "." ∨ "c" = ".." ∨ Path.wantsDirectory "c" = true) := by decide +kernel
  rw [write, parts_c]
  simp only [List.getLast?_singleton, if_neg hname, hsound, start_lone]
  cases text <;>
    simp [follow, step, lone, isDirectory, get?, FileNode.get?, set, FileNode.set]

theorem takes_lone : (lone text).Takes "c" :=
  ⟨_, makeParent_lone text, fun new => ⟨_, write_lone text new⟩⟩

end Lone

end FileTree

end PitFleet
