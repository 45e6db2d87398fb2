import FtyCommonMlm.Lib.CString

namespace Hex

/-- The digits a stream prints for a number in hexadecimal, without prefix. -/
def digits (n : Nat) : Bytes := (Nat.toDigits 16 n).map (fun c => c.toNat.toUInt8)

/-- The same digits, filled with zeros on the left up to a width. -/
def padded (width n : Nat) : Bytes := List.leftpad width 48 (digits n)

def digitValue (b : UInt8) : Nat := if b < 58 then b.toNat - 48 else b.toNat - 87

/-- The number a string of hexadecimal digits denotes. -/
def value (s : Bytes) : Nat := s.foldl (fun n b => 16 * n + digitValue b) 0

theorem digitValue_digitChar : ∀ d < 16, digitValue (Nat.digitChar d).toNat.toUInt8 = d := by
  decide

theorem digits_of_lt {n : Nat} (h : n < 16) : digits n = [(Nat.digitChar n).toNat.toUInt8] := by
  simp [digits, Nat.toDigits_of_lt_base h]

theorem digits_of_le {n : Nat} (h : 16 ≤ n) :
    digits n = digits (n / 16) ++ [(Nat.digitChar (n % 16)).toNat.toUInt8] := by
  simp [digits, Nat.toDigits_of_base_le (by omega) h]

theorem value_snoc (s : Bytes) (b : UInt8) : value (s ++ [b]) = 16 * value s + digitValue b := by
  simp [value]

theorem value_digits (n : Nat) : value (digits n) = n := by
  induction n using Nat.strongRecOn with
  | ind n ih =>
    by_cases h : n < 16
    · rw [digits_of_lt h]
      simpa [value] using digitValue_digitChar n h
    · have hd := digitValue_digitChar (n % 16) (Nat.mod_lt n (by omega))
      rw [digits_of_le (by omega), value_snoc, ih (n / 16) (by omega), hd]
      omega

/-- Fill characters on the left do not change the number. -/
theorem value_padded (width n : Nat) : value (padded width n) = n := by
  have hz : ∀ k, (List.replicate k (48 : UInt8)).foldl
      (fun n b => 16 * n + digitValue b) 0 = 0 := by
    intro k
    induction k with
    | zero => rfl
    | succ k ih => simpa [List.replicate_succ, digitValue] using ih
  calc value (padded width n) = value (digits n) := by
        simp only [padded, List.leftpad, value, List.foldl_append, hz]
    _ = n := value_digits n

theorem padded_injective (width : Nat) : Function.Injective (padded width) := by
  intro m n h
  rw [← value_padded width m, h, value_padded]

/-- A number below the width's capacity fills it exactly: the padding never
leaves the string short, and the digits never run over it. -/
theorem length_padded {width n : Nat} (hw : 0 < width) (hn : n < 16 ^ width) :
    (padded width n).length = width := by
  have hle : (digits n).length ≤ width := by
    simpa [digits] using (Nat.length_toDigits_le_iff (by omega) hw).mpr hn
  rw [padded, List.length_leftpad]
  omega

theorem digits_noNul (n : Nat) : (digits n).NoNul := by
  induction n using Nat.strongRecOn with
  | ind n ih =>
    have hd : ∀ d < 16, (0 : UInt8) ≠ (Nat.digitChar d).toNat.toUInt8 := by decide
    by_cases h : n < 16
    · rw [digits_of_lt h]
      simpa [Bytes.NoNul] using hd n h
    · rw [digits_of_le (by omega)]
      exact (ih (n / 16) (by omega)).append
        (by simpa [Bytes.NoNul] using hd (n % 16) (Nat.mod_lt n (by omega)))

theorem padded_noNul (width n : Nat) : (padded width n).NoNul := by
  refine Bytes.NoNul.append ?_ (digits_noNul n)
  simp [Bytes.NoNul, List.mem_replicate]

/-- Two digits for each byte. -/
def ofBytes (s : Bytes) : Bytes := s.flatMap fun b => padded 2 b.toNat

theorem length_ofBytes (s : Bytes) : (ofBytes s).length = 2 * s.length := by
  induction s with
  | nil => rfl
  | cons b s ih =>
    have hb : (padded 2 b.toNat).length = 2 := length_padded (by omega) b.toNat_lt
    simp only [ofBytes, List.flatMap_cons, List.length_append, List.length_cons, hb] at ih ⊢
    omega

theorem ofBytes_injective : Function.Injective ofBytes := by
  intro s t h
  induction s generalizing t with
  | nil =>
    have hlen := congrArg List.length h
    rw [length_ofBytes, length_ofBytes, List.length_nil] at hlen
    exact (List.eq_nil_of_length_eq_zero (by omega)).symm
  | cons b s ih =>
    cases t with
    | nil =>
      have hlen := congrArg List.length h
      simp [length_ofBytes] at hlen
    | cons c t =>
      have hb : (padded 2 b.toNat).length = 2 := length_padded (by omega) b.toNat_lt
      have hc : (padded 2 c.toNat).length = 2 := length_padded (by omega) c.toNat_lt
      obtain ⟨hhead, htail⟩ := List.append_inj h (hb.trans hc.symm)
      rw [UInt8.toNat_inj.mp (padded_injective 2 hhead), ih htail]

/-- The value of a digit as it is printed. -/
def digit? (b : UInt8) : Option Nat :=
  if 48 ≤ b.toNat ∧ b.toNat < 58 then some (b.toNat - 48)
  else if 97 ≤ b.toNat ∧ b.toNat < 103 then some (b.toNat - 87)
  else none

/-- The bytes that pairs of digits stand for. -/
def toBytes? : Bytes → Option Bytes
  | [] => some []
  | [_] => none
  | a :: b :: s =>
    match digit? a, digit? b with
    | some x, some y => (toBytes? s).map fun t => (16 * x + y).toUInt8 :: t
    | _, _ => none

theorem digit?_digitChar {d : Nat} (h : d < 16) :
    digit? (Nat.digitChar d).toNat.toUInt8 = some d := by
  revert d
  decide

theorem eq_of_digit? {b : UInt8} {d : Nat} (h : digit? b = some d) :
    d < 16 ∧ (Nat.digitChar d).toNat.toUInt8 = b := by
  have hchar : ∀ x < 16, ((Nat.digitChar x).toNat.toUInt8).toNat =
      if x < 10 then x + 48 else x + 87 := by
    decide
  have hlt : d < 16 ∧ b.toNat = if d < 10 then d + 48 else d + 87 := by
    simp only [digit?] at h
    split at h
    · cases h
      refine ⟨by omega, ?_⟩
      rw [if_pos (by omega)]
      omega
    · split at h
      · cases h
        refine ⟨by omega, ?_⟩
        rw [if_neg (by omega)]
        omega
      · contradiction
  exact ⟨hlt.1, UInt8.toNat_inj.mp ((hchar d hlt.1).trans hlt.2.symm)⟩

theorem padded_two (b : UInt8) : padded 2 b.toNat =
    [(Nat.digitChar (b.toNat / 16)).toNat.toUInt8,
      (Nat.digitChar (b.toNat % 16)).toNat.toUInt8] := by
  have hb := b.toNat_lt
  by_cases h : b.toNat < 16
  · rw [padded, digits_of_lt h, Nat.div_eq_of_lt h, Nat.mod_eq_of_lt h]
    rfl
  · rw [padded, digits_of_le (by omega), digits_of_lt (by omega)]
    rfl

theorem mem_ofBytes {s : Bytes} {x : UInt8} (h : x ∈ ofBytes s) :
    ∃ d < 16, (Nat.digitChar d).toNat.toUInt8 = x := by
  obtain ⟨b, _, hx⟩ := List.mem_flatMap.mp h
  have hb := b.toNat_lt
  rw [padded_two] at hx
  simp only [List.mem_cons, List.not_mem_nil, or_false] at hx
  rcases hx with rfl | rfl
  · exact ⟨b.toNat / 16, by omega, rfl⟩
  · exact ⟨b.toNat % 16, by omega, rfl⟩

theorem toBytes?_ofBytes (t : Bytes) : toBytes? (ofBytes t) = some t := by
  induction t with
  | nil => rfl
  | cons b t ih =>
    have hb := b.toNat_lt
    have hvalue : 16 * (b.toNat / 16) + b.toNat % 16 = b.toNat := by omega
    simp only [ofBytes, List.flatMap_cons, padded_two, List.cons_append, List.nil_append, toBytes?]
    rw [digit?_digitChar (by omega), digit?_digitChar (by omega)]
    simp only [ofBytes, padded_two] at ih
    simp [ih, hvalue]

/-- What is read as bytes is what these bytes are printed as, digit by digit. -/
theorem toBytes?_eq_some_iff {s t : Bytes} : toBytes? s = some t ↔ s = ofBytes t := by
  constructor
  · intro h
    induction s using toBytes?.induct generalizing t with
    | case1 =>
      cases h
      rfl
    | case2 b => contradiction
    | case3 a b s x y hx hy ih =>
      simp only [toBytes?, hx, hy, Option.map_eq_some_iff] at h
      obtain ⟨t', ht', rfl⟩ := h
      obtain ⟨hxlt, rfl⟩ := eq_of_digit? hx
      obtain ⟨hylt, rfl⟩ := eq_of_digit? hy
      have hvalue : (16 * x + y).toUInt8.toNat = 16 * x + y := by
        simp only [Nat.toUInt8, UInt8.toNat_ofNat']
        omega
      have hdiv : (16 * x + y) / 16 = x := by omega
      have hmod : (16 * x + y) % 16 = y := by omega
      rw [ih ht']
      simp only [ofBytes, List.flatMap_cons, padded_two, hvalue, hdiv, hmod, List.cons_append,
        List.nil_append]
    | case4 a b s hnone =>
      simp only [toBytes?] at h
      contradiction
  · intro h
    rw [h, toBytes?_ofBytes]

end Hex
