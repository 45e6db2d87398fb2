import Mathlib.Data.List.Basic
import Mathlib.Logic.Relation

namespace Fields

variable {α : Type}

/-- The end of one field is carried over the border, to the front of the next. -/
inductive Carry : List (List α) → List (List α) → Prop
  | here (a x b : List α) (rest : List (List α)) :
      Carry ((a ++ x) :: b :: rest) (a :: (x ++ b) :: rest)
  | there (a : List α) {l l' : List (List α)} (h : Carry l l') : Carry (a :: l) (a :: l')

/-- The same text, cut into as many fields at other places: text is carried over
borders, in either direction, any number of times. -/
def Recut : List (List α) → List (List α) → Prop := Relation.EqvGen Carry

theorem Carry.flatten_eq {l l' : List (List α)} (h : Carry l l') : l.flatten = l'.flatten := by
  induction h with
  | here a x b rest => simp
  | there a h ih => simp [ih]

theorem Recut.flatten_eq {l l' : List (List α)} (h : Recut l l') : l.flatten = l'.flatten := by
  induction h with
  | rel l l' h => exact h.flatten_eq
  | refl l => rfl
  | symm l l' _ ih => exact ih.symm
  | trans l m r _ _ hleft hright => exact hleft.trans hright

theorem Recut.cons (a : List α) {l l' : List (List α)} (h : Recut l l') :
    Recut (a :: l) (a :: l') := by
  induction h with
  | rel l l' h => exact .rel _ _ (.there a h)
  | refl l => exact .refl _
  | symm l l' _ ih => exact .symm _ _ ih
  | trans l m r _ _ hleft hright => exact .trans _ _ _ hleft hright

/-- All the text can be carried into the last field. -/
theorem recut_last (a : List α) (l : List (List α)) :
    Recut (a :: l) (List.replicate l.length [] ++ [(a :: l).flatten]) := by
  induction l generalizing a with
  | nil =>
    simp only [List.length_nil, List.replicate_zero, List.nil_append, List.flatten_cons,
      List.flatten_nil, List.append_nil]
    exact .refl _
  | cons b l ih =>
    have hcarried : Recut (a :: b :: l) ([] :: (a ++ b) :: l) := .rel _ _ (.here [] a b l)
    have hrest := (ih (a ++ b)).cons []
    simp only [List.flatten_cons, List.append_assoc] at hrest
    exact .trans _ _ _ hcarried hrest

/-- As many fields have the same text just in case they are cuts of one text. -/
theorem recut_iff {l l' : List (List α)} (h : l.length = l'.length) :
    Recut l l' ↔ l.flatten = l'.flatten := by
  constructor
  · exact Recut.flatten_eq
  · intro he
    cases l with
    | nil =>
      rw [List.eq_nil_of_length_eq_zero h.symm]
      exact .refl _
    | cons a l =>
      cases l' with
      | nil => contradiction
      | cons b l' =>
        have hlast := recut_last b l'
        rw [← he, ← Nat.succ.inj h] at hlast
        exact .trans _ _ _ (recut_last a l) (.symm _ _ hlast)

/-- With borders at the same places there is one cut only. -/
theorem Recut.eq_of_lengths {l l' : List (List α)} (h : Recut l l')
    (hl : l.map List.length = l'.map List.length) : l = l' :=
  List.eq_iff_flatten_eq.mpr ⟨h.flatten_eq, hl⟩

end Fields
