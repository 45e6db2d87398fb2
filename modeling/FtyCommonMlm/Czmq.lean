import FtyCommonMlm.Lib.CString

/-- A czmq message: its frames, first frame first. -/
abbrev Zmsg := List Bytes

namespace Zmsg

/-- `zmsg_size`: the number of frames. -/
def size (m : Zmsg) : Nat := m.length

/-- `zmsg_addstr` on a `c_str()`: the frame stops at the first NUL. -/
def addstr (m : Zmsg) (s : Bytes) : Zmsg := m ++ [s.cStr]

/-- `zmsg_pushstr` on a `c_str()`. -/
def pushstr (m : Zmsg) (s : Bytes) : Zmsg := s.cStr :: m

/-- `zmsg_popstr`: the first frame as a fresh C string, or null when no frame
is left. The buffer holds the frame's bytes and a NUL behind them. -/
def popstr : Zmsg → Option Bytes × Zmsg
  | [] => (none, [])
  | frame :: m => (some frame, m)

/-- The loops of the library that add every string of a vector. -/
def addAll (m : Zmsg) (frames : List Bytes) : Zmsg := frames.foldl addstr m

/-- The loops that pop a counted number of frames into a vector of
`std::string`. There is no result when a null string would be converted. -/
def popStrings : Nat → Zmsg → Option (List Bytes)
  | 0, _ => some []
  | n + 1, m =>
    match m.popstr with
    | (none, _) => none
    | (some frame, rest) => (popStrings n rest).map (fun strings => frame.cStr :: strings)

theorem addAll_eq (m : Zmsg) (frames : List Bytes) :
    m.addAll frames = m ++ frames.map Bytes.cStr := by
  induction frames generalizing m with
  | nil => simp [addAll]
  | cons frame frames ih =>
    have h := ih (m.addstr frame)
    simp only [addAll, List.foldl_cons] at h ⊢
    rw [h]
    simp [addstr]

/-- Popping as many frames as the message has never meets a null string, and
yields the frames cut at their first NUL. -/
theorem popStrings_length (m : Zmsg) : popStrings m.length m = some (m.map Bytes.cStr) := by
  induction m with
  | nil => rfl
  | cons frame m ih => simp [popStrings, popstr, ih]

end Zmsg

/-- A `zuuid_t` as `zuuid_str` or `zuuid_str_canonical` prints it. -/
@[ext] structure Zuuid where
  text : Bytes
  noNul : text.NoNul
  nonempty : text ≠ []
deriving DecidableEq
