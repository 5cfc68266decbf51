import Mathlib.Algebra.Order.Ring.Nat
import Mathlib.Data.List.Basic

/-!
# Views of text

What `std::string_view` does with positions of 64 bits.  `substr` throws when it is to
start behind the end, and to read a character there is undefined.
-/

namespace StringView

variable {α : Type*} (s : List α) (pos count : UInt64)

def size : UInt64 := UInt64.ofNat s.length

/-- `none` is the exception. -/
def substr : Option (List α) :=
  if size s < pos then none else some ((s.drop pos.toNat).take count.toNat)

/-- The operator `[]`. -/
def get : Option α := s[pos.toNat]?

/-- The first place of a character from the position on; `none` is `npos`. -/
def find [DecidableEq α] (c : α) : Option UInt64 :=
  ((s.drop pos.toNat).idxOf? c).map fun i => pos + UInt64.ofNat i

variable {s pos count}

theorem toNat_size (hfits : s.length < 2 ^ 64) : (size s).toNat = s.length := by
  rw [size, UInt64.toNat_ofNat']
  exact Nat.mod_eq_of_lt hfits

theorem toNat_add_of_lt {x y : UInt64} (h : x.toNat + y.toNat < 2 ^ 64) :
    (x + y).toNat = x.toNat + y.toNat := by
  rw [UInt64.toNat_add]
  exact Nat.mod_eq_of_lt h

theorem substr_of_le (hfits : s.length < 2 ^ 64) (hpos : pos.toNat ≤ s.length) :
    substr s pos count = some ((s.drop pos.toNat).take count.toNat) := by
  have hle : ¬size s < pos := by
    rw [UInt64.lt_iff_toNat_lt, toNat_size hfits]
    exact Nat.not_lt.mpr hpos
  exact if_neg hle

theorem substr_of_lt (hfits : s.length < 2 ^ 64) (hpos : s.length < pos.toNat) :
    substr s pos count = none := by
  have hlt : size s < pos := by
    rw [UInt64.lt_iff_toNat_lt, toNat_size hfits]
    exact hpos
  exact if_pos hlt

section Find

variable [DecidableEq α] {c : α} {before behind : List α}

theorem find_of_notMem (h : c ∉ s.drop pos.toNat) : find s pos c = none := by
  rw [find, List.idxOf?_eq_none_iff.mpr h, Option.map_none]

theorem find_of_drop_eq (hdrop : s.drop pos.toNat = before ++ c :: behind) (h : c ∉ before) :
    find s pos c = some (pos + UInt64.ofNat before.length) := by
  have hindex : (before ++ c :: behind).idxOf? c = some before.length := by
    rw [List.idxOf?_eq_some_iff]
    refine ⟨by simp, by simp, fun j hj heq => h ?_⟩
    rw [List.getElem_append_left hj] at heq
    exact heq ▸ List.getElem_mem hj
  rw [find, hdrop, hindex, Option.map_some]

end Find

end StringView
