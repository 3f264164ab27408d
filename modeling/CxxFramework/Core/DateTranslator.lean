import CxxFramework.Core.CString
import Mathlib.Data.Fin.Basic

/-!
# The text of a date

What `DateTranslator::UpdateDateBuffer` writes: a date in the format of RFC 1123. It has
one length for every time, and only printable bytes.
-/

namespace CxxFramework.Core

/-- `struct tm`, as `gmtime` fills it for a year of four digits. -/
structure Tm where
  tm_sec : Fin 61
  tm_min : Fin 60
  tm_hour : Fin 24
  tm_mday : Fin 32
  tm_mon : Fin 12
  /-- The years since 1900. -/
  tm_year : Fin 8100
  tm_wday : Fin 7
deriving DecidableEq, Repr

namespace DateTranslator

/-- `%a` -/
def dayName (tm_wday : Fin 7) : Bytes :=
  ascii (["Sun", "Mon", "Tue", "Wed", "Thu", "Fri", "Sat"].get tm_wday)

/-- `%b` -/
def monthName (tm_mon : Fin 12) : Bytes :=
  ascii (["Jan", "Feb", "Mar", "Apr", "May", "Jun", "Jul", "Aug", "Sep", "Oct", "Nov",
    "Dec"].get tm_mon)

def digit (n : Nat) : UInt8 := UInt8.ofNat (48 + n % 10)

/-- `%d`, `%H`, `%M` and `%S` -/
def twoDigits (n : Nat) : Bytes := [digit (n / 10), digit n]

/-- `%Y` -/
def fourDigits (n : Nat) : Bytes := twoDigits (n / 100) ++ twoDigits n

/-- `strftime` with the format `%a, %d %b %Y %H:%M:%S GMT` -/
def strftime (gmt : Tm) : Bytes :=
  dayName gmt.tm_wday ++ ascii ", " ++ twoDigits gmt.tm_mday ++ ascii " " ++
    monthName gmt.tm_mon ++ ascii " " ++ fourDigits (gmt.tm_year + 1900) ++ ascii " " ++
    twoDigits gmt.tm_hour ++ ascii ":" ++ twoDigits gmt.tm_min ++ ascii ":" ++
    twoDigits gmt.tm_sec ++ ascii " GMT"

@[simp] theorem length_dayName (tm_wday : Fin 7) : (dayName tm_wday).length = 3 := by
  revert tm_wday
  decide

@[simp] theorem length_monthName (tm_mon : Fin 12) : (monthName tm_mon).length = 3 := by
  revert tm_mon
  decide

@[simp] theorem length_strftime (gmt : Tm) : (strftime gmt).length = 29 := by
  simp [strftime, twoDigits, fourDigits, ascii]

/-- No byte is a control character. -/
def Printable (text : Bytes) : Prop := ∀ c ∈ text, 32 ≤ c

instance (text : Bytes) : Decidable (Printable text) := inferInstanceAs (Decidable (∀ c ∈ _, _))

theorem Printable.append {s t : Bytes} (hs : Printable s) (ht : Printable t) :
    Printable (s ++ t) :=
  List.forall_mem_append.mpr ⟨hs, ht⟩

theorem Printable.notMem {s : Bytes} {c : UInt8} (hs : Printable s) (hc : c < 32) : c ∉ s :=
  fun hmem => absurd (hs c hmem) (UInt8.not_le.mpr hc)

theorem le_digit (n : Nat) : 32 ≤ digit n := by
  have hlt : n % 10 < 10 := Nat.mod_lt n (by decide)
  rw [digit, UInt8.le_iff_toNat_le, UInt8.toNat_ofNat']
  simp only [UInt8.reduceToNat]
  omega

theorem printable_twoDigits (n : Nat) : Printable (twoDigits n) := by
  intro c hc
  rcases List.mem_pair.mp hc with rfl | rfl <;> exact le_digit _

theorem printable_dayName (tm_wday : Fin 7) : Printable (dayName tm_wday) := by
  revert tm_wday
  decide

theorem printable_fourDigits (n : Nat) : Printable (fourDigits n) :=
  (printable_twoDigits (n / 100)).append (printable_twoDigits n)

theorem printable_monthName (tm_mon : Fin 12) : Printable (monthName tm_mon) := by
  revert tm_mon
  decide

theorem printable_strftime (gmt : Tm) : Printable (strftime gmt) := by
  have hblank : Printable (ascii " ") := by decide
  have hcolon : Printable (ascii ":") := by decide
  have hday := (printable_dayName gmt.tm_wday).append (t := ascii ", ") (by decide)
  have hdate := (hday.append (printable_twoDigits gmt.tm_mday)).append hblank
  have hmonth := (hdate.append (printable_monthName gmt.tm_mon)).append hblank
  have hyear := (hmonth.append (printable_fourDigits (gmt.tm_year + 1900))).append hblank
  have hhour := (hyear.append (printable_twoDigits gmt.tm_hour)).append hcolon
  have hmin := (hhour.append (printable_twoDigits gmt.tm_min)).append hcolon
  exact (hmin.append (printable_twoDigits gmt.tm_sec)).append (by decide)

end DateTranslator

end CxxFramework.Core
