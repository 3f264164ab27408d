import Mathlib.Data.List.Basic
import Mathlib.Data.List.DropRight
import Mathlib.Algebra.Order.Group.Nat

/-!
# Dot segments of a path

A path is a text with separators. Its dot segments are the segments that are one or two
dots. They can be dropped segment by segment, or while the text is read from left to right.

## Main definitions

* `dropDots last segs` — the segments without the dot segments; the last one is left to
  `last`.
* `written`, `stripDots` — a text whose closed segments, or all of whose segments, are
  cleared of dots.
* `Walk` — what is read of a text: the closed segments that are kept and the open segment.
-/

namespace CxxFramework.DotSegments

variable {α : Type*} [DecidableEq α] {sep dot : α}

/-- The segments `.` and `..`. -/
def IsDots (dot : α) (seg : List α) : Prop := seg = [dot] ∨ seg = [dot, dot]

instance (seg : List α) : Decidable (IsDots dot seg) :=
  inferInstanceAs (Decidable (_ ∨ _))

omit [DecidableEq α] in
@[simp] theorem not_isDots_nil : ¬ IsDots dot [] := by simp [IsDots]

/-- No segment of the text is a dot segment. -/
def NoDots (sep dot : α) (text : List α) : Prop := ∀ seg ∈ text.splitOn sep, ¬ IsDots dot seg

instance (text : List α) : Decidable (NoDots sep dot text) :=
  inferInstanceAs (Decidable (∀ seg ∈ _, _))

/-- The segments but for the dot segments; what becomes of the last one is up to `last`. -/
def dropDots (dot : α) (last : List α → List α) : List (List α) → List (List α)
  | [] => []
  | [seg] => [last seg]
  | seg :: next :: segs =>
    if IsDots dot seg then dropDots dot last (next :: segs)
    else seg :: dropDots dot last (next :: segs)

/-- The text with the dot segments taken out that a separator closes. -/
def written (sep dot : α) (text : List α) : List α :=
  [sep].intercalate (dropDots dot id (text.splitOn sep))

/-- The last segment, which nothing is left of if it is dots. -/
def stripLast (dot : α) (seg : List α) : List α := if IsDots dot seg then [] else seg

/-- The text with all dot segments taken out. -/
def stripDots (sep dot : α) (text : List α) : List α :=
  [sep].intercalate (dropDots dot (stripLast dot) (text.splitOn sep))

/-- What stands behind the last separator. -/
def openSegment (sep : α) (text : List α) : List α := text.rtakeWhile (· ≠ sep)

theorem openSegment_concat (q : List α) (c : α) :
    openSegment sep (q ++ [c]) = if c = sep then [] else openSegment sep q ++ [c] := by
  unfold openSegment
  rw [List.rtakeWhile_concat]
  by_cases hc : c = sep <;> simp [hc]

variable {last : List α → List α} {seg rest text : List α}

theorem dropDots_cons {segs : List (List α)} (hsegs : segs ≠ []) :
    dropDots dot last (seg :: segs) =
      if IsDots dot seg then dropDots dot last segs else seg :: dropDots dot last segs := by
  cases segs with
  | nil => exact absurd rfl hsegs
  | cons next segs => rfl

theorem dropDots_ne_nil {segs : List (List α)} (hsegs : segs ≠ []) :
    dropDots dot last segs ≠ [] := by
  induction segs with
  | nil => exact hsegs
  | cons seg segs ih =>
    cases segs with
    | nil => simp [dropDots]
    | cons next segs =>
      rw [dropDots_cons (List.cons_ne_nil _ _)]
      split_ifs
      · exact ih (List.cons_ne_nil _ _)
      · exact List.cons_ne_nil _ _

/-- A segment that is kept is one of the others, or the last. -/
theorem mem_dropDots {segs : List (List α)} (h : seg ∈ dropDots dot last segs) :
    (seg ∈ segs ∧ ¬ IsDots dot seg) ∨ ∃ s ∈ segs, seg = last s := by
  induction segs with
  | nil => cases h
  | cons s segs ih =>
    cases segs with
    | nil => exact .inr ⟨s, List.mem_singleton_self s, List.mem_singleton.mp h⟩
    | cons next segs =>
      rw [dropDots_cons (List.cons_ne_nil _ _)] at h
      have hrest : seg ∈ dropDots dot last (next :: segs) →
          (seg ∈ s :: next :: segs ∧ ¬ IsDots dot seg) ∨ ∃ t ∈ s :: next :: segs, seg = last t := by
        intro hmem
        rcases ih hmem with ⟨hin, hdots⟩ | ⟨t, ht, rfl⟩
        · exact .inl ⟨List.mem_cons_of_mem _ hin, hdots⟩
        · exact .inr ⟨t, List.mem_cons_of_mem _ ht, rfl⟩
      split_ifs at h with hdots
      · exact hrest h
      · rcases List.mem_cons.mp h with rfl | hmem
        · exact .inl ⟨List.mem_cons_self, hdots⟩
        · exact hrest hmem

/-- Without dot segments there is nothing to drop. -/
theorem dropDots_of_noDots {segs : List (List α)} (h : ∀ seg ∈ segs, ¬ IsDots dot seg)
    (hlast : ∀ seg, ¬ IsDots dot seg → last seg = seg) : dropDots dot last segs = segs := by
  induction segs with
  | nil => rfl
  | cons seg segs ih =>
    have hseg := h seg List.mem_cons_self
    cases segs with
    | nil => rw [dropDots, hlast seg hseg]
    | cons next segs =>
      rw [dropDots_cons (List.cons_ne_nil _ _), if_neg hseg,
        ih fun s hs => h s (List.mem_cons_of_mem _ hs)]

theorem not_isDots_stripLast (seg : List α) : ¬ IsDots dot (stripLast dot seg) := by
  unfold stripLast
  split_ifs with hdots
  · exact not_isDots_nil
  · exact hdots

theorem notMem_of_mem_splitOn (h : seg ∈ text.splitOn sep) : sep ∉ seg := by
  induction text generalizing seg with
  | nil =>
    rw [List.splitOn_nil, List.mem_singleton] at h
    simp [h]
  | cons c text ih =>
    rw [List.splitOn_cons_eq_if_modifyHead] at h
    obtain ⟨s, segs, hsegs⟩ := List.exists_cons_of_ne_nil (List.splitOn_ne_nil sep text)
    simp only [hsegs, List.modifyHead_cons] at h ih
    split_ifs at h with hc
    · rcases List.mem_cons.mp h with rfl | hmem
      · exact List.not_mem_nil
      · exact ih hmem
    · rcases List.mem_cons.mp h with rfl | hmem
      · have hs := ih List.mem_cons_self
        simp only [List.mem_cons, not_or]
        exact ⟨fun heq => hc (by simp [heq]), hs⟩
      · exact ih (List.mem_cons_of_mem _ hmem)

/-- What `stripDots` leaves has no dot segments. -/
theorem noDots_stripDots (text : List α) : NoDots sep dot (stripDots sep dot text) := by
  have hsep : ∀ seg ∈ dropDots dot (stripLast dot) (text.splitOn sep), sep ∉ seg := by
    intro seg hseg
    rcases mem_dropDots hseg with ⟨hin, -⟩ | ⟨s, hs, rfl⟩
    · exact notMem_of_mem_splitOn hin
    · unfold stripLast
      split_ifs
      · exact List.not_mem_nil
      · exact notMem_of_mem_splitOn hs
  intro seg hseg
  rw [stripDots, List.splitOn_intercalate sep hsep (dropDots_ne_nil (List.splitOn_ne_nil _ _))]
    at hseg
  rcases mem_dropDots hseg with ⟨-, hdots⟩ | ⟨s, -, rfl⟩
  · exact hdots
  · exact not_isDots_stripLast s

/-- A text without dot segments is left as it is. -/
theorem stripDots_of_noDots (h : NoDots sep dot text) : stripDots sep dot text = text := by
  have hlast : ∀ seg, ¬ IsDots dot seg → stripLast dot seg = seg := fun seg hseg => if_neg hseg
  rw [stripDots, dropDots_of_noDots h hlast, List.intercalate_splitOn]

/-! ## Reading a text -/

/-- What is read of a text: the closed segments that are kept, each with its separator, and
the open segment. -/
structure Walk (α : Type*) where
  kept : List α := []
  seg : List α := []

namespace Walk

/-- What is kept and what is open. -/
def content (w : Walk α) : List α := w.kept ++ w.seg

/-- One character more. -/
def push (sep dot : α) (w : Walk α) (c : α) : Walk α :=
  if c = sep then
    if IsDots dot w.seg then { w with seg := [] } else { kept := w.kept ++ w.seg ++ [sep] }
  else { w with seg := w.seg ++ [c] }

/-- The text `q` is read. -/
def read (sep dot : α) (q : List α) : Walk α := q.foldl (push sep dot) {}

theorem read_concat (q : List α) (c : α) :
    read sep dot (q ++ [c]) = (read sep dot q).push sep dot c := by
  simp [read]

theorem push_notMem {w : Walk α} (h : sep ∉ w.seg) (c : α) : sep ∉ (w.push sep dot c).seg := by
  unfold push
  split_ifs with hc hdots
  · exact List.not_mem_nil
  · exact List.not_mem_nil
  · simp only [List.mem_append, List.mem_singleton, not_or]
    exact ⟨h, fun heq => hc heq.symm⟩

/-- Reading the rest of a text drops the dot segments from the open segment on. -/
theorem foldl_push (last : List α → List α) (rest : List α) {w : Walk α} (h : sep ∉ w.seg) :
    (rest.foldl (push sep dot) w).kept ++ last (rest.foldl (push sep dot) w).seg =
      w.kept ++ [sep].intercalate (dropDots dot last ((w.seg ++ rest).splitOn sep)) := by
  induction rest generalizing w with
  | nil =>
    rw [List.append_nil, List.splitOn_eq_singleton h]
    simp [dropDots]
  | cons c rest ih =>
    rw [List.foldl_cons, ih (push_notMem h c)]
    by_cases hc : c = sep
    · subst hc
      rw [List.splitOn_append_cons_self_of_not_mem h, dropDots_cons (List.splitOn_ne_nil _ _)]
      by_cases hdots : IsDots dot w.seg
      · simp [push, hdots]
      · rw [if_neg hdots,
          List.intercalate_cons_of_ne_nil (dropDots_ne_nil (List.splitOn_ne_nil _ _))]
        simp [push, hdots]
    · simp [push, hc]

theorem read_last (last : List α → List α) (q : List α) :
    (read sep dot q).kept ++ last (read sep dot q).seg =
      [sep].intercalate (dropDots dot last (q.splitOn sep)) := by
  have hstart : sep ∉ ({} : Walk α).seg := List.not_mem_nil
  exact foldl_push last q hstart

theorem content_read (q : List α) : (read sep dot q).content = written sep dot q :=
  read_last id q

/-- The text without a last segment of dots. -/
theorem strip_read (q : List α) :
    (read sep dot q).kept ++ stripLast dot (read sep dot q).seg = stripDots sep dot q :=
  read_last (stripLast dot) q

theorem seg_read (dot : α) (q : List α) : (read sep dot q).seg = openSegment sep q := by
  induction q using List.reverseRecOn with
  | nil => rfl
  | append_singleton q c ih =>
    rw [read_concat, openSegment_concat, ← ih]
    unfold push
    split_ifs <;> rfl

/-- A separator behind dots takes the text back to the last separator. -/
theorem written_concat (q : List α) (c : α) :
    written sep dot (q ++ [c]) =
      if c = sep ∧ IsDots dot (openSegment sep q) then (read sep dot q).kept
      else written sep dot q ++ [c] := by
  rw [← content_read, ← content_read, read_concat, ← seg_read dot]
  unfold push content
  by_cases hc : c = sep
  · by_cases hdots : IsDots dot (read sep dot q).seg <;> simp [hc, hdots]
  · simp [hc]

theorem written_eq (sep dot : α) (q : List α) :
    written sep dot q = (read sep dot q).kept ++ openSegment sep q := by
  rw [← content_read, ← seg_read dot]
  rfl

theorem length_written_le (sep dot : α) (q : List α) : (written sep dot q).length ≤ q.length := by
  induction q using List.reverseRecOn with
  | nil => simp [written, dropDots]
  | append_singleton q c ih =>
    rw [written_concat, List.length_append, List.length_singleton]
    split_ifs
    · have hkept := congrArg List.length (written_eq sep dot q)
      rw [List.length_append] at hkept
      omega
    · rw [List.length_append, List.length_singleton]
      omega

/-- A text keeps its first separator. -/
theorem read_head (sep dot : α) (rest : List α) :
    ∃ k, (read sep dot (sep :: rest)).kept = sep :: k := by
  induction rest using List.reverseRecOn with
  | nil => exact ⟨[], by simp [read, push]⟩
  | append_singleton rest c ih =>
    obtain ⟨k, hk⟩ := ih
    rw [← List.cons_append, read_concat]
    unfold push
    split_ifs
    · exact ⟨k, hk⟩
    · exact ⟨k ++ _ ++ [sep], by rw [hk]; rfl⟩
    · exact ⟨k, hk⟩

/-- The characters that are no dots and no separators are kept. -/
theorem mem_read (q : List α) {c : α} (hsep : c ≠ sep) (hdot : c ≠ dot) :
    c ∈ (read sep dot q).kept ++ (read sep dot q).seg ↔ c ∈ q := by
  induction q using List.reverseRecOn with
  | nil => simp [read]
  | append_singleton q a ih =>
    rw [List.mem_append] at ih
    rw [read_concat, List.mem_append, List.mem_append, ← ih, List.mem_singleton]
    unfold push
    split_ifs with ha hdots
    · have hseg : c ∉ (read sep dot q).seg := by
        rcases hdots with hseg | hseg <;> simp [hseg, hdot]
      simp [ha, hsep, hseg]
    · simp [ha, hsep]
    · simp [or_assoc]

theorem mem_stripDots (q : List α) {c : α} (hsep : c ≠ sep) (hdot : c ≠ dot) :
    c ∈ stripDots sep dot q ↔ c ∈ q := by
  have hread := mem_read q hsep hdot
  rw [← hread, ← strip_read, stripLast]
  split_ifs with hdots
  · have hseg : c ∉ (read sep dot q).seg := by
      rcases hdots with hseg | hseg <;> simp [hseg, hdot]
    simp [hseg]
  · rfl

/-- The closed segments end with a separator. -/
theorem read_kept (sep dot : α) (rest : List α) :
    ∃ k, (read sep dot (sep :: rest)).kept = k ++ [sep] := by
  induction rest using List.reverseRecOn with
  | nil => exact ⟨[], by simp [read, push, not_isDots_nil]⟩
  | append_singleton rest c ih =>
    rw [← List.cons_append, read_concat]
    unfold push
    split_ifs
    · exact ih
    · exact ⟨_, rfl⟩
    · exact ih

end Walk

end CxxFramework.DotSegments
