import Mathlib.Algebra.Group.Nat.Defs
import Mathlib.Data.List.TakeWhile

/-- The bytes of a counted string. They may include the NUL byte. -/
abbrev Bytes := List UInt8

namespace Bytes

/-- The bytes of a string literal. -/
def ofString (s : String) : Bytes := s.toUTF8.data.toList

/-- What a reader of the C string at these bytes sees: everything before the
first NUL. -/
def cStr (s : Bytes) : Bytes := s.takeWhile (· != 0)

def NoNul (s : Bytes) : Prop := 0 ∉ s

instance (s : Bytes) : Decidable s.NoNul := inferInstanceAs (Decidable (¬ _ ∈ s))

theorem noNul_cStr (s : Bytes) : s.cStr.NoNul := by
  intro h
  simpa using List.mem_takeWhile_imp h

/-- Reading a counted string as a C string loses nothing exactly when it has
no NUL byte. -/
theorem cStr_eq_self_iff {s : Bytes} : s.cStr = s ↔ s.NoNul := by
  unfold cStr NoNul
  rw [List.takeWhile_eq_self_iff]
  constructor
  · intro h hz
    simpa using h 0 hz
  · intro h x hx
    have hne : x ≠ 0 := fun he => h (he ▸ hx)
    simpa using hne

theorem NoNul.cStr_eq {s : Bytes} (h : s.NoNul) : s.cStr = s := cStr_eq_self_iff.mpr h

@[simp] theorem cStr_cStr (s : Bytes) : s.cStr.cStr = s.cStr := (noNul_cStr s).cStr_eq

theorem NoNul.append {s t : Bytes} (hs : s.NoNul) (ht : t.NoNul) : NoNul (s ++ t) := by
  intro h
  exact (List.mem_append.mp h).elim hs ht

theorem map_cStr_eq_self_iff {ss : List Bytes} :
    ss.map cStr = ss ↔ ∀ s ∈ ss, s.NoNul := by
  induction ss with
  | nil => simp
  | cons s ss ih => simp [ih, cStr_eq_self_iff]

@[simp] theorem map_cStr_map_cStr (ss : List Bytes) :
    (ss.map cStr).map cStr = ss.map cStr := by
  simp [Function.comp_def]

end Bytes

/-- A C string: the bytes in front of its NUL. -/
@[ext] structure CString where
  bytes : Bytes
  noNul : bytes.NoNul

/-- The C string of a literal. -/
def CString.lit (s : String) (h : (Bytes.ofString s).NoNul := by decide) : CString :=
  ⟨Bytes.ofString s, h⟩
