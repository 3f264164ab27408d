import CxxFramework.Core.CString
import CxxFramework.Library.DotSegments
import Mathlib.Tactic.SplitIfs

/-!
# Making directories

`Utils::RecursiveMakeDir` cuts the path off at one `/` after the other, makes the directory that
stands in front of it, and puts the `/` back. Where two `/` follow each other, or the path ends in
one, it comes to the same directory a second time.

The file system has directories and files, no links, and the paths have no `.` and `..`. The kernel
may refuse to make a directory, for any reason.

## Main definitions

* `FileSystem`, `stat`, `mkdir` — the file system, and the calls to it.
* `recursiveMakeDir` — the loop over the path.
* `MadeTo` — the first directories of a path have been made, and nothing else.
-/

namespace CxxFramework.Core.MakeDir

open DotSegments

inductive Node where
  | dir
  | file
deriving DecidableEq, Repr

/-- The names on the way from the root. -/
abbrev Path := List Bytes

abbrev FileSystem := Path → Option Node

/-- The root is a directory, and so is what something is in. -/
structure Closed (fs : FileSystem) : Prop where
  root : fs [] = some .dir
  parent : ∀ p name, fs (p ++ [name]) ≠ none → fs p = some .dir

abbrev Errno := { e : Int // e ≠ 0 }

def EEXIST : Int := 17
def ENOENT : Int := 2
def ENOTDIR : Int := 20

/-- `kPathDelimiterChar` -/
def kPathDelimiterChar : UInt8 := 47

/-- The names of a path, without the empty ones. -/
def components (path : Bytes) : List Bytes := (path.splitOn kPathDelimiterChar).filter (· ≠ [])

/-- Where the names of a path start. -/
def origin (cwd : Path) (path : Bytes) : Path :=
  if path.head? = some kPathDelimiterChar then [] else cwd

/-- What a path stands for; the empty one for nothing. -/
def resolve (cwd : Path) (path : Bytes) : Option Path :=
  if path = [] then none else some (origin cwd path ++ components path)

/-- `stat`; none if it fails. -/
def stat (fs : FileSystem) (cwd : Path) (path : Bytes) : Option Node :=
  (resolve cwd path).bind fun p =>
    match fs p with
    | some .file => if path.getLast? = some kPathDelimiterChar then none else some .file
    | node => node

/-- `mkdir`, which the kernel may refuse: the error number, or 0. -/
def mkdir (fs : FileSystem) (refuses : Path → Option Errno) (cwd : Path) (inPath : Bytes) :
    Int × FileSystem :=
  match resolve cwd inPath with
  | none => (ENOENT, fs)
  | some p =>
    if fs p ≠ none then (EEXIST, fs)
    else
      match fs p.dropLast with
      | none => (ENOENT, fs)
      | some .file => (ENOTDIR, fs)
      | some .dir =>
        match refuses p with
        | some e => (e, fs)
        | none => (0, Function.update fs p (some .dir))

/-- `Utils::MakeDir` -/
def makeDir (fs : FileSystem) (refuses : Path → Option Errno) (cwd : Path) (inPath : Bytes) :
    Int × FileSystem :=
  match stat fs cwd inPath with
  | none => mkdir fs refuses cwd inPath
  | some .file => (EEXIST, fs)
  | some .dir => (0, fs)

/-- The loop of `Utils::RecursiveMakeDir`, with what stands in front of `thePathTraverser`. -/
def traverse (refuses : Path → Option Errno) (cwd : Path) (fs : FileSystem) (front : Bytes) :
    Bytes → Int × FileSystem
  | [] => makeDir fs refuses cwd front
  | c :: rest =>
    if c = kPathDelimiterChar then
      let r := makeDir fs refuses cwd front
      if r.1 ≠ 0 then r else traverse refuses cwd r.2 (front ++ [c]) rest
    else traverse refuses cwd fs (front ++ [c]) rest

/-- `Utils::RecursiveMakeDir` -/
def recursiveMakeDir (fs : FileSystem) (refuses : Path → Option Errno) (cwd : Path)
    (inPath : Bytes) : Int × FileSystem :=
  match inPath with
  | [] => traverse refuses cwd fs [] []
  | c :: rest =>
    -- the first `/` is skipped
    if c = kPathDelimiterChar then traverse refuses cwd fs [c] rest
    else traverse refuses cwd fs [] (c :: rest)

/-! ## Directory by directory -/

/-- The directories are made one in the other, until one cannot be. -/
def makeDirs (refuses : Path → Option Errno) (fs : FileSystem) (p : Path) :
    List Bytes → Int × FileSystem
  | [] => (0, fs)
  | name :: names =>
    match fs (p ++ [name]) with
    | some .dir => makeDirs refuses fs (p ++ [name]) names
    | some .file => (EEXIST, fs)
    | none =>
      match refuses (p ++ [name]) with
      | some e => (e, fs)
      | none =>
        makeDirs refuses (Function.update fs (p ++ [name]) (some .dir)) (p ++ [name]) names

/-- A path that has names, if any, but no `.` and `..`. -/
structure PlainPath where
  text : Bytes
  ne_nil : text ≠ []
  plain : NoDots kPathDelimiterChar 46 text

/-- The first `n` directories on the way from `p` are there, and nothing else has changed. -/
structure MadeTo (p : Path) (names : List Bytes) (n : Nat) (fs fs' : FileSystem) : Prop where
  dirs : ∀ k ≤ n, fs' (p ++ names.take k) = some .dir
  others : ∀ q, (∀ k ≤ n, q ≠ p ++ names.take k) → fs' q = fs q
  kept : ∀ q node, fs q = some node → fs' q = some node

/-- A directory cannot be made: there is a file, or the kernel refuses it. -/
def Stuck (fs : FileSystem) (refuses : Path → Option Errno) (q : Path) (err : Int) : Prop :=
  fs q = some .file ∧ err = EEXIST ∨ fs q = none ∧ ∃ e : Errno, refuses q = some e ∧ err = e

/-- All directories on the way are made and 0 is returned, or all up to one that cannot be, and
its error. -/
def Makes (refuses : Path → Option Errno) (fs : FileSystem) (p : Path) (names : List Bytes)
    (r : Int × FileSystem) : Prop :=
  Closed r.2 ∧ ∃ n, MadeTo p names n fs r.2 ∧
    (r.1 = 0 ∧ n = names.length ∨
      n < names.length ∧ Stuck fs refuses (p ++ names.take (n + 1)) r.1)

variable {fs fs' : FileSystem} {refuses : Path → Option Errno} {cwd p : Path} {path : Bytes}
  {name : Bytes} {names : List Bytes}

theorem Closed.update (h : Closed fs) (hp : fs p = some .dir) (hnone : fs (p ++ [name]) = none) :
    Closed (Function.update fs (p ++ [name]) (some .dir)) where
  root := by
    rw [Function.update_of_ne (by simp)]
    exact h.root
  parent q name' hq := by
    have hdir : fs q = some .dir := by
      by_cases heq : q ++ [name'] = p ++ [name]
      · rw [(List.append_inj' heq rfl).1]
        exact hp
      · rw [Function.update_of_ne heq] at hq
        exact h.parent q name' hq
    rw [Function.update_of_ne]
    · exact hdir
    · rintro rfl
      rw [hnone] at hdir
      cases hdir

theorem MadeTo.refl (hp : fs p = some .dir) (names : List Bytes) : MadeTo p names 0 fs fs where
  dirs k hk := by
    rw [Nat.le_zero.mp hk, List.take_zero, List.append_nil]
    exact hp
  others _ _ := rfl
  kept _ _ h := h

theorem take_succ_cons (p : Path) (k : Nat) :
    p ++ (name :: names).take (k + 1) = p ++ [name] ++ names.take k := by simp

/-- The first directory is there, and the others are made in it. -/
theorem MadeTo.cons {fs₁ : FileSystem} {n : Nat} (h : MadeTo (p ++ [name]) names n fs₁ fs')
    (hp : fs p = some .dir) (hkept : ∀ q node, fs q = some node → fs₁ q = some node)
    (hothers : ∀ q, q ≠ p ++ [name] → fs₁ q = fs q) : MadeTo p (name :: names) (n + 1) fs fs' where
  dirs k hk := by
    cases k with
    | zero =>
      rw [List.take_zero, List.append_nil]
      exact h.kept p _ (hkept p _ hp)
    | succ k =>
      rw [take_succ_cons]
      exact h.dirs k (Nat.le_of_succ_le_succ hk)
  others q hq := by
    have hfirst : q ≠ p ++ [name] := by simpa using hq 1 (Nat.le_add_left 1 n)
    rw [h.others q ?_, hothers q hfirst]
    intro k hk
    rw [← take_succ_cons]
    exact hq (k + 1) (Nat.succ_le_succ hk)
  kept q node hq := h.kept q node (hkept q node hq)

theorem Makes.cons {fs₁ : FileSystem} {r : Int × FileSystem}
    (h : Makes refuses fs₁ (p ++ [name]) names r) (hp : fs p = some .dir)
    (hkept : ∀ q node, fs q = some node → fs₁ q = some node)
    (hothers : ∀ q, q ≠ p ++ [name] → fs₁ q = fs q) : Makes refuses fs p (name :: names) r := by
  obtain ⟨hclosed, n, hmade, hend⟩ := h
  refine ⟨hclosed, n + 1, hmade.cons hp hkept hothers, ?_⟩
  obtain ⟨hzero, rfl⟩ | ⟨hlt, hstuck⟩ := hend
  · exact .inl ⟨hzero, rfl⟩
  · refine .inr ⟨Nat.succ_lt_succ hlt, ?_⟩
    have hne : p ++ [name] ++ names.take (n + 1) ≠ p ++ [name] := by
      cases names with
      | nil => cases hlt
      | cons => simp
    rw [take_succ_cons]
    rwa [Stuck, hothers _ hne] at hstuck

theorem Stuck.ne_zero {q : Path} {err : Int} (h : Stuck fs refuses q err) : err ≠ 0 := by
  obtain ⟨-, rfl⟩ | ⟨-, e, -, rfl⟩ := h
  · decide
  · exact e.property

/-- If 0 is returned, the last directory is there. -/
theorem Makes.dir {r : Int × FileSystem} (h : Makes refuses fs p names r) (hzero : r.1 = 0) :
    r.2 (p ++ names) = some .dir := by
  obtain ⟨-, n, hmade, ⟨-, rfl⟩ | ⟨-, hstuck⟩⟩ := h
  · simpa using hmade.dirs _ (Nat.le_refl _)
  · exact absurd hzero hstuck.ne_zero

/-- Directory by directory, all are made up to one that cannot be. -/
theorem makeDirs_makes (h : Closed fs) (hp : fs p = some .dir) (names : List Bytes) :
    Makes refuses fs p names (makeDirs refuses fs p names) := by
  induction names generalizing fs p with
  | nil => exact ⟨h, 0, .refl hp [], .inl ⟨rfl, rfl⟩⟩
  | cons name names ih =>
    have hstuck {err : Int} (herr : Stuck fs refuses (p ++ [name]) err) :
        Makes refuses fs p (name :: names) (err, fs) :=
      ⟨h, 0, .refl hp _, .inr ⟨Nat.succ_pos _, herr⟩⟩
    unfold makeDirs
    cases hnode : fs (p ++ [name]) with
    | some node =>
      cases node with
      | dir => exact (ih h hnode).cons hp (fun _ _ hq => hq) fun _ _ => rfl
      | file => exact hstuck (.inl ⟨hnode, rfl⟩)
    | none =>
      cases hrefuses : refuses (p ++ [name]) with
      | some e => exact hstuck (.inr ⟨hnode, e, hrefuses, rfl⟩)
      | none =>
        refine (ih (h.update hp hnode) (Function.update_self ..)).cons hp ?_ ?_
        · intro q node hq
          rw [Function.update_of_ne]
          · exact hq
          · rintro rfl
            rw [hnode] at hq
            cases hq
        · exact fun q hq => Function.update_of_ne hq ..

theorem makeDirs_append (fs : FileSystem) (p : Path) (front back : List Bytes) :
    makeDirs refuses fs p (front ++ back) =
      if (makeDirs refuses fs p front).1 ≠ 0 then makeDirs refuses fs p front
      else makeDirs refuses (makeDirs refuses fs p front).2 (p ++ front) back := by
  induction front generalizing fs p with
  | nil => simp [makeDirs]
  | cons name names ih =>
    rw [List.cons_append, makeDirs, makeDirs]
    cases hnode : fs (p ++ [name]) with
    | some node =>
      cases node with
      | dir => simp only [ih, List.append_assoc, List.singleton_append]
      | file => rfl
    | none =>
      cases hrefuses : refuses (p ++ [name]) with
      | some e => exact (if_pos e.property).symm
      | none => simp only [ih, List.append_assoc, List.singleton_append]

/-! ## Along the path -/

theorem components_nil : components [] = [] := rfl

theorem components_append (front back : Bytes) :
    components (front ++ kPathDelimiterChar :: back) = components front ++ components back := by
  simp only [components, List.splitOn_eq_splitOnP]
  rw [List.splitOnP_append_cons front back (by simp), List.filter_append]

theorem components_name (hname : kPathDelimiterChar ∉ name) (hne : name ≠ []) :
    components name = [name] := by
  simp [components, List.splitOn_eq_singleton hname, hne]

theorem origin_append {front : Bytes} (hfront : front ≠ []) (back : Bytes) :
    origin cwd (front ++ back) = origin cwd front := by
  rw [origin, origin, List.head?_append_of_ne_nil _ hfront]

/-- A text whose last name is closed by a `/`, if it has names. -/
def ClosedText (text : Bytes) : Prop := text = [] ∨ ∃ front, text = front ++ [kPathDelimiterChar]

theorem ClosedText.components_append {text : Bytes} (h : ClosedText text) (name : Bytes) :
    components (text ++ name) = components text ++ components name := by
  obtain rfl | ⟨front, rfl⟩ := h
  · rfl
  · rw [List.append_assoc, List.singleton_append, MakeDir.components_append,
      MakeDir.components_append, components_nil, List.append_nil]

/-- In front of a `/`, or at the end, the directory of the open name is made, if there is one. -/
theorem makeDir_open {text : Bytes} (htext : ClosedText text) (hname : kPathDelimiterChar ∉ name)
    (hne : text ++ name ≠ [])
    (hp : fs (origin cwd (text ++ name) ++ components text) = some .dir) :
    makeDir fs refuses cwd (text ++ name) =
      makeDirs refuses fs (origin cwd (text ++ name) ++ components text) (components name) := by
  have hresolve : resolve cwd (text ++ name) =
      some (origin cwd (text ++ name) ++ components text ++ components name) := by
    rw [resolve, if_neg hne, htext.components_append, List.append_assoc]
  generalize origin cwd (text ++ name) ++ components text = p at hp hresolve
  by_cases hempty : name = []
  · subst hempty
    simp only [components_nil, List.append_nil] at hresolve ⊢
    rw [makeDir, stat, hresolve, Option.bind_some, hp, makeDirs]
  · rw [components_name hname hempty] at hresolve ⊢
    have hlast : (text ++ name).getLast? ≠ some kPathDelimiterChar := by
      rw [List.getLast?_append_of_ne_nil _ hempty]
      exact fun hlast => hname (List.mem_of_getLast? hlast)
    rw [makeDir, stat, hresolve, Option.bind_some, makeDirs]
    cases hnode : fs (p ++ [name]) with
    | some node =>
      cases node with
      | dir => simp [makeDirs]
      | file => simp only [if_neg hlast]
    | none =>
      cases hrefuses : refuses (p ++ [name]) <;>
        simp [mkdir, hresolve, hnode, hp, hrefuses, makeDirs]

/-- The loop makes the directories that are left, one in the other. -/
theorem traverse_eq (rest : Bytes) {text : Bytes} (h : Closed fs) (htext : ClosedText text)
    (hname : kPathDelimiterChar ∉ name)
    (hne : text ++ name ≠ [] ∨ rest.head? ≠ some kPathDelimiterChar)
    (hpath : text ++ name ++ rest ≠ [])
    (hp : fs (origin cwd (text ++ name ++ rest) ++ components text) = some .dir) :
    traverse refuses cwd fs (text ++ name) rest =
      makeDirs refuses fs (origin cwd (text ++ name ++ rest) ++ components text)
        (components (name ++ rest)) := by
  induction rest generalizing fs text name with
  | nil =>
    rw [List.append_nil] at hpath hp ⊢
    rw [traverse, List.append_nil]
    exact makeDir_open htext hname hpath hp
  | cons c rest ih =>
    unfold traverse
    by_cases hc : c = kPathDelimiterChar
    · subst hc
      have hfront : text ++ name ≠ [] := hne.resolve_right (by simp)
      rw [origin_append hfront] at hp ⊢
      rw [if_pos rfl, components_append, makeDirs_append, makeDir_open htext hname hfront hp]
      have hmakes : Makes refuses fs _ _ _ := makeDirs_makes h hp (components name)
      generalize makeDirs refuses fs (origin cwd (text ++ name) ++ components text)
        (components name) = r at hmakes ⊢
      by_cases hzero : r.1 = 0
      · -- the name is closed now, and nothing is open
        have hclosed : components (text ++ name ++ [kPathDelimiterChar]) =
            components text ++ components name := by
          rw [components_append, components_nil, List.append_nil, htext.components_append]
        have horigin : origin cwd (text ++ name ++ [kPathDelimiterChar] ++ [] ++ rest) =
            origin cwd (text ++ name) := by
          rw [List.append_nil, List.append_assoc, origin_append hfront]
        have hdir := hmakes.dir hzero
        rw [List.append_assoc, ← hclosed, ← horigin] at hdir
        have hrest := ih hmakes.1 (.inr ⟨text ++ name, rfl⟩) List.not_mem_nil (.inl (by simp))
          (by simp) hdir
        rw [horigin, hclosed, List.append_nil, List.nil_append, ← List.append_assoc] at hrest
        simpa only [hzero, ne_eq, not_true_eq_false, if_false] using hrest
      · simp only [ne_eq, hzero, not_false_eq_true, if_true]
    · have hname' : kPathDelimiterChar ∉ name ++ [c] := by simpa [hname] using Ne.symm hc
      have hrest := ih h htext hname' (.inl (by simp)) (by simp) (by simpa using hp)
      rw [if_neg hc]
      simpa using hrest

theorem recursiveMakeDir_eq (h : Closed fs) (hpath : path ≠ [])
    (hp : fs (origin cwd path) = some .dir) :
    recursiveMakeDir fs refuses cwd path =
      makeDirs refuses fs (origin cwd path) (components path) := by
  cases path with
  | nil => exact absurd rfl hpath
  | cons c rest =>
    unfold recursiveMakeDir
    by_cases hc : c = kPathDelimiterChar
    · subst hc
      have hfirst : components [kPathDelimiterChar] = [] := rfl
      have hrest : components (kPathDelimiterChar :: rest) = components rest :=
        components_append [] rest
      have hclosed : ClosedText [kPathDelimiterChar] := .inr ⟨[], rfl⟩
      have htraverse : traverse refuses cwd fs ([kPathDelimiterChar] ++ []) rest = _ :=
        traverse_eq rest h hclosed List.not_mem_nil (.inl (by simp)) (by simp)
          (by simpa [hfirst] using hp)
      simpa [hfirst, hrest] using htraverse
    · have htraverse : traverse refuses cwd fs ([] ++ []) (c :: rest) = _ :=
        traverse_eq (c :: rest) h (.inl rfl) List.not_mem_nil (.inr (by simpa using hc)) (by simp)
          (by simpa [components_nil] using hp)
      simpa [hc, components_nil] using htraverse

/-- `RecursiveMakeDir` makes the directories on the way to the path, one in the other: all of
them, or all up to one that cannot be made. Nothing else changes. -/
theorem recursiveMakeDir_makes (h : Closed fs) (hcwd : fs cwd = some .dir)
    (refuses : Path → Option Errno) (inPath : PlainPath) :
    Makes refuses fs (origin cwd inPath.text) (components inPath.text)
      (recursiveMakeDir fs refuses cwd inPath.text) := by
  have hp : fs (origin cwd inPath.text) = some .dir := by
    unfold origin
    split_ifs
    · exact h.root
    · exact hcwd
  rw [recursiveMakeDir_eq h inPath.ne_nil hp]
  exact makeDirs_makes h hp (components inPath.text)

/-- A file system with nothing but its root. -/
def emptySystem : FileSystem := fun p => if p = [] then some .dir else none

theorem emptySystem_closed : Closed emptySystem :=
  ⟨rfl, fun p name h => absurd (by simp [emptySystem]) h⟩

/-- `a//b` -/
def twoNames : PlainPath := ⟨[97, 47, 47, 98], List.cons_ne_nil _ _, by decide⟩

theorem recursiveMakeDir_makes_twoNames :
    Makes (fun _ => none) emptySystem (origin [] twoNames.text) (components twoNames.text)
      (recursiveMakeDir emptySystem (fun _ => none) [] twoNames.text) :=
  recursiveMakeDir_makes emptySystem_closed rfl (fun _ => none) twoNames

end CxxFramework.Core.MakeDir
