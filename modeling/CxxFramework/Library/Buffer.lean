import Mathlib.Data.List.Basic
import Mathlib.Algebra.Order.Group.Nat

/-!
# Memory buffers

A buffer is the list of its cells. Writing is checked: a write that does not fit is
refused, which stands for an access outside the buffer.

## Main definitions

* `write` — store data from a position on.
* `slice` — the cells from a position on, up to a length.
-/

namespace CxxFramework.Buffer

variable {α : Type*}

/-- Store `data` in the cells from `pos` on, if they exist. -/
def write (mem : List α) (pos : Nat) (data : List α) : Option (List α) :=
  if pos + data.length ≤ mem.length then
    some (mem.take pos ++ data ++ mem.drop (pos + data.length))
  else none

/-- At most `len` cells from `pos` on. -/
def slice (mem : List α) (pos len : Nat) : List α := (mem.drop pos).take len

variable {mem mem' data : List α} {pos : Nat}

theorem write_eq_some_iff :
    write mem pos data = some mem' ↔ pos + data.length ≤ mem.length ∧
      mem' = mem.take pos ++ data ++ mem.drop (pos + data.length) := by
  unfold write
  split_ifs with h
  · simp [h, eq_comm]
  · simp [h]

theorem write_of_le (h : pos + data.length ≤ mem.length) :
    write mem pos data = some (mem.take pos ++ data ++ mem.drop (pos + data.length)) :=
  if_pos h

theorem length_write (h : write mem pos data = some mem') : mem'.length = mem.length := by
  obtain ⟨hle, rfl⟩ := write_eq_some_iff.mp h
  simp only [List.length_append, List.length_take, List.length_drop]
  omega

/-- What stands before the end of the data after a write. -/
theorem take_write (h : write mem pos data = some mem') :
    mem'.take (pos + data.length) = mem.take pos ++ data := by
  obtain ⟨hle, rfl⟩ := write_eq_some_iff.mp h
  have hlen : pos + data.length = (mem.take pos ++ data).length := by
    simp only [List.length_append, List.length_take]
    omega
  rw [hlen, List.take_left]

/-- What stands before a place in the data after a write. -/
theorem take_write_add {n : Nat} (h : write mem pos data = some mem') (hn : n ≤ data.length) :
    mem'.take (pos + n) = mem.take pos ++ data.take n := by
  obtain ⟨hle, -⟩ := write_eq_some_iff.mp h
  have hpos : (mem.take pos).length = pos := List.length_take_of_le (by omega)
  have hshorter : mem'.take (pos + n) = (mem'.take (pos + data.length)).take (pos + n) := by
    rw [List.take_take, Nat.min_eq_left (by omega)]
  rw [hshorter, take_write h, List.take_append, hpos, Nat.add_sub_cancel_left,
    List.take_of_length_le (by omega)]

/-- What stands behind the data is kept. -/
theorem drop_write {n : Nat} (h : write mem pos data = some mem') (hn : pos + data.length ≤ n) :
    mem'.drop n = mem.drop n := by
  obtain ⟨hle, rfl⟩ := write_eq_some_iff.mp h
  have hlen : (mem.take pos ++ data).length = pos + data.length := by
    rw [List.length_append, List.length_take_of_le (by omega)]
  rw [List.drop_append, List.drop_eq_nil_of_le (by omega), List.nil_append, hlen, List.drop_drop,
    Nat.add_sub_cancel' hn]

/-- Data is written cell by cell. -/
theorem write_cons (mem : List α) (pos : Nat) (a : α) (data : List α) :
    (write mem pos [a]).bind (write · (pos + 1) data) = write mem pos (a :: data) := by
  by_cases hroom : pos + 1 + data.length ≤ mem.length
  · obtain ⟨mem', hfirst⟩ : ∃ mem', write mem pos [a] = some mem' :=
      ⟨_, write_of_le (show pos + [a].length ≤ mem.length by simp; omega)⟩
    have hlength := length_write hfirst
    have htake : mem'.take (pos + 1) = mem.take pos ++ [a] := take_write hfirst
    have hdrop : mem'.drop (pos + 1 + data.length) = mem.drop (pos + 1 + data.length) :=
      drop_write hfirst (by simp)
    have hlen : pos + (a :: data).length = pos + 1 + data.length := by
      rw [List.length_cons]
      omega
    rw [hfirst, Option.bind_some, write_of_le (hlength.symm ▸ hroom), htake, hdrop,
      write_of_le (hlen ▸ hroom), hlen, List.append_assoc (mem.take pos), List.singleton_append]
  · have hsecond {mem' : List α} (h : write mem pos [a] = some mem') :
        write mem' (pos + 1) data = none := by
      rw [write, if_neg (by rw [length_write h]; exact hroom)]
    rw [write.eq_def mem pos (a :: data), if_neg (by simp; omega)]
    cases hfirst : write mem pos [a] with
    | none => rfl
    | some mem' => exact hsecond hfirst

/-- One cell is written behind `front`. -/
theorem write_append_cons (front rest : List α) (a b : α) :
    write (front ++ a :: rest) front.length [b] = some (front ++ b :: rest) := by
  rw [write_of_le (by simp), List.take_left]
  simp

/-- There is no cell behind the memory. -/
theorem write_length (mem : List α) (b : α) : write mem mem.length [b] = none :=
  if_neg (by simp)

/-! ## Slices -/

theorem length_slice (mem : List α) (pos len : Nat) :
    (slice mem pos len).length = min len (mem.length - pos) := by
  simp [slice]

theorem slice_add (mem : List α) (pos a b : Nat) :
    slice mem pos (a + b) = slice mem pos a ++ slice mem (pos + a) b := by
  simp only [slice, List.take_add, List.drop_drop]

theorem slice_split (mem : List α) (pos : Nat) {n len : Nat} (hn : n ≤ len) :
    slice mem pos len = slice mem pos n ++ slice mem (pos + n) (len - n) := by
  rw [← slice_add, Nat.add_sub_cancel' hn]

/-- Slices that reach the end are equal. -/
theorem slice_of_end {a b : Nat} (ha : mem.length ≤ pos + a) (hb : mem.length ≤ pos + b) :
    slice mem pos a = slice mem pos b := by
  unfold slice
  rw [List.take_of_length_le (by simp; omega), List.take_of_length_le (by simp; omega)]

/-- A slice of what starts with a slice is a slice of the memory. -/
theorem slice_of_prefix {size start n : Nat} (h : slice mem pos size <+: data)
    (hn : start + n ≤ (slice mem pos size).length) :
    slice data start n = slice mem (pos + start) n := by
  obtain ⟨rest, rfl⟩ := h
  rw [length_slice] at hn
  unfold slice
  rw [List.drop_append_of_le_length (by simp; omega),
    List.take_append_of_le_length (by simp; omega), List.drop_take, List.take_take,
    List.drop_drop, min_eq_left (by omega)]

/-- To write a slice back, of which only the start has changed, is to write that start. -/
theorem write_append_slice {len : Nat} (hdata : data.length ≤ len)
    (hlen : pos + len ≤ mem.length) :
    write mem pos (data ++ (slice mem pos len).drop data.length) = write mem pos data := by
  have hslice := length_slice mem pos len
  have hsplit : mem.drop (pos + data.length) =
      (slice mem pos len).drop data.length ++ mem.drop (pos + len) := by
    rw [← List.drop_drop, ← List.drop_drop, ← List.drop_append_of_le_length (by omega), slice,
      List.take_append_drop]
  have hwhole : (data ++ (slice mem pos len).drop data.length).length = len := by
    rw [List.length_append, List.length_drop]
    omega
  rw [write_of_le (by omega), write_of_le (by omega), hwhole, hsplit]
  simp only [List.append_assoc]

end CxxFramework.Buffer
