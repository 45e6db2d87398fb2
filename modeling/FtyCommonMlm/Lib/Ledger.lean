import FtyCommonMlm.Lib.Runs

namespace Ledger
open Runs

/-- What happens to the objects a program owns. One that is passed on is somebody
else's to destroy. -/
inductive Entry (Object : Type)
  | made (o : Object)
  | used (o : Object)
  | passed (o : Object)
  | destroyed (o : Object)
deriving DecidableEq

inductive Life
  | unmade
  | alive
  | gone
deriving DecidableEq

variable {Object : Type}

def Entry.object : Entry Object → Object
  | .made o | .used o | .passed o | .destroyed o => o

/-- An object is made once, and used, passed on or destroyed while it is alive. -/
def Life.next : Life → Entry Object → Option Life
  | .unmade, .made _ => some .alive
  | .alive, .used _ => some .alive
  | .alive, .passed _ | .alive, .destroyed _ => some .gone
  | _, _ => none

variable [DecidableEq Object]

/-- What the entries of a ledger make of one object's life. -/
def life (o : Object) (l : Life) (ledger : List (Entry Object)) : Option Life :=
  exec (fun l e => if e.object = o then l.next e else some l) l ledger

/-- Nothing is used before it is made or after it is gone, nothing is destroyed
twice, and nothing is left. -/
def Clean (ledger : List (Entry Object)) : Prop :=
  ∀ o, ∃ l, life o .unmade ledger = some l ∧ l ≠ .alive

section Rules

variable {o : Object} {l l' : Life} {e : Entry Object} {ledger more : List (Entry Object)}

@[simp] theorem life_nil : life o l ([] : List (Entry Object)) = some l := rfl

@[simp] theorem life_cons : life o l (e :: ledger) =
    (if e.object = o then l.next e else some l).bind fun l' => life o l' ledger := rfl

theorem life_append : life o l (ledger ++ more) =
    (life o l ledger).bind fun l' => life o l' more := by
  induction ledger generalizing l with
  | nil => rfl
  | cons e ledger ih =>
    rw [List.cons_append, life_cons, life_cons, Option.bind_assoc]
    exact congrArg _ (funext fun _ => ih)

/-- The life of an object goes by its own entries. -/
theorem life_of_forall_ne (h : ∀ e ∈ ledger, e.object ≠ o) : life o l ledger = some l := by
  induction ledger with
  | nil => rfl
  | cons e ledger ih =>
    rw [life_cons, if_neg (h e List.mem_cons_self), Option.bind_some]
    exact ih fun e he => h e (List.mem_cons_of_mem _ he)

/-- An object that is only used stays alive. -/
theorem life_of_forall_used (h : ∀ e ∈ ledger, e.object = o → e = .used o) :
    life o .alive ledger = some .alive := by
  induction ledger with
  | nil => rfl
  | cons e ledger ih =>
    have hrest := ih fun e he => h e (List.mem_cons_of_mem _ he)
    rw [life_cons]
    split
    · rename_i ho
      rw [h e List.mem_cons_self ho]
      exact hrest
    · exact hrest

/-- A ledger is clean if nothing is alive at its end. -/
theorem clean_iff_none_left {left : Object → Prop}
    (h : ∀ o, ∃ l, life o .unmade ledger = some l ∧ (l = .alive ↔ left o)) :
    Clean ledger ↔ ∀ o, ¬left o := by
  refine forall_congr' fun o => ?_
  obtain ⟨l, hlife, halive⟩ := h o
  rw [← halive]
  constructor
  · intro hclean
    obtain ⟨l', hlife', hl'⟩ := hclean
    rw [hlife] at hlife'
    cases hlife'
    exact hl'
  · intro hl
    exact ⟨l, hlife, hl⟩

end Rules

section Numbered

variable {o : Object} {l : Life} {ledger : List (Entry Object)} {current n : Nat}
  {now now' : Life → Prop}

/-- Of numbered objects of one kind, those before the current one are not alive,
and those behind it have not been made. -/
def UpTo (current : Nat) (now : Life → Prop) (n : Nat) (l : Life) : Prop :=
  (n < current → l ≠ .alive) ∧ (n = current → now l) ∧ (current < n → l = .unmade)

theorem UpTo.mono (h : UpTo current now n l) (hnow : ∀ l, now l → now' l) :
    UpTo current now' n l :=
  ⟨h.1, fun hn => hnow l (h.2.1 hn), h.2.2⟩

/-- Only the current one may be alive. -/
theorem UpTo.alive (h : UpTo current now n .alive) : n = current ∧ now .alive := by
  obtain ⟨hbefore, hnow, hbehind⟩ := h
  have hn : n = current := by
    rcases Nat.lt_trichotomy n current with hlt | he | hlt
    · exact absurd rfl (hbefore hlt)
    · exact he
    · exact absurd (hbehind hlt) (by simp)
  exact ⟨hn, hnow hn⟩

/-- A new one that has not been made yet. -/
theorem UpTo.fresh (h : UpTo current now n l) (hended : ∀ l, now l → l ≠ .alive) :
    UpTo (current + 1) (fun l => l = .unmade) n l := by
  obtain ⟨hbefore, hnow, hbehind⟩ := h
  refine ⟨?_, fun hn => hbehind (by omega), fun hn => hbehind (by omega)⟩
  intro hn
  rcases Nat.lt_or_eq_of_le (Nat.le_of_lt_succ hn) with hlt | he
  · exact hbefore hlt
  · exact hended l (hnow he)

/-- What a step does to the current one of a kind, and to no other. -/
theorem UpTo.step (h : UpTo current now n l) (hother : n ≠ current → life o l ledger = some l)
    (hcurrent : n = current → now l → ∃ l', life o l ledger = some l' ∧ now' l') :
    ∃ l', life o l ledger = some l' ∧ UpTo current now' n l' := by
  obtain ⟨hbefore, hnow, hbehind⟩ := h
  by_cases hn : n = current
  · obtain ⟨l', hlife, hl'⟩ := hcurrent hn (hnow hn)
    exact ⟨l', hlife, fun hlt => by omega, fun _ => hl', fun hlt => by omega⟩
  · exact ⟨l, hother hn, hbefore, fun he => absurd he hn, hbehind⟩

/-- A new one is made. -/
theorem UpTo.next (h : UpTo current now n l) (hended : ∀ l, now l → l ≠ .alive)
    (hother : n ≠ current + 1 → life o l ledger = some l)
    (hmade : n = current + 1 → ∃ l', life o .unmade ledger = some l' ∧ now' l') :
    ∃ l', life o l ledger = some l' ∧ UpTo (current + 1) now' n l' :=
  (h.fresh hended).step hother fun hn hl => hl ▸ hmade hn

end Numbered

section Held

variable {o : Object} {l : Life} {ledger : List (Entry Object)} {held : Option Nat}
  {k next n : Nat}

/-- Of numbered objects of one kind, the one that is held is alive and no other, and
those from `next` on have not been made. -/
def Held (held : Option Nat) (next n : Nat) (l : Life) : Prop :=
  (l = .alive ↔ held = some n) ∧ (next ≤ n → l = .unmade)

theorem Held.made (h : Held none next n l) (hother : n ≠ next → life o l ledger = some l)
    (hmade : n = next → life o .unmade ledger = some .alive) :
    ∃ l', life o l ledger = some l' ∧ Held (some next) (next + 1) n l' := by
  by_cases hn : n = next
  · have hl : l = .unmade := h.2 (Nat.le_of_eq hn.symm)
    refine ⟨.alive, hl ▸ hmade hn, by simp [hn], fun hle => ?_⟩
    omega
  · refine ⟨l, hother hn, ?_, fun hle => h.2 (Nat.le_of_succ_le hle)⟩
    simpa [Ne.symm hn] using h.1

theorem Held.used (h : Held (some k) next n l) (hother : n ≠ k → life o l ledger = some l)
    (hused : n = k → life o .alive ledger = some .alive) :
    ∃ l', life o l ledger = some l' ∧ Held (some k) next n l' := by
  refine ⟨l, ?_, h⟩
  by_cases hn : n = k
  · have hl : l = .alive := h.1.mpr (congrArg some hn.symm)
    exact hl ▸ hused hn
  · exact hother hn

theorem Held.destroyed (h : Held (some k) next n l) (hlt : k < next)
    (hother : n ≠ k → life o l ledger = some l)
    (hdestroyed : n = k → life o .alive ledger = some .gone) :
    ∃ l', life o l ledger = some l' ∧ Held none next n l' := by
  by_cases hn : n = k
  · have hl : l = .alive := h.1.mpr (congrArg some hn.symm)
    refine ⟨.gone, hl ▸ hdestroyed hn, by simp, fun hle => ?_⟩
    omega
  · refine ⟨l, hother hn, ?_, h.2⟩
    simpa [Ne.symm hn] using h.1

/-- One that does not outlive the step that makes it. -/
theorem Held.brief (h : Held none next n l) (hother : n ≠ next → life o l ledger = some l)
    (hbrief : n = next → life o .unmade ledger = some .gone) :
    ∃ l', life o l ledger = some l' ∧ Held none (next + 1) n l' := by
  by_cases hn : n = next
  · have hl : l = .unmade := h.2 (Nat.le_of_eq hn.symm)
    refine ⟨.gone, hl ▸ hbrief hn, by simp, fun hle => ?_⟩
    omega
  · exact ⟨l, hother hn, h.1, fun hle => h.2 (Nat.le_of_succ_le hle)⟩

end Held

section Parts

variable {Part : Type} {number : Object → Nat} {entries : Nat → Part → List (Entry Object)}

/-- The ledger of parts that come one after the other, each with its number. -/
def parts (entries : Nat → Part → List (Entry Object)) (first : Nat) :
    List Part → List (Entry Object)
  | [] => []
  | p :: ps => entries first p ++ parts entries (first + 1) ps

theorem life_parts_before (hentries : ∀ n p, ∀ e ∈ entries n p, number e.object = n)
    {o : Object} {l : Life} {first : Nat} {ps : List Part} (ho : number o < first) :
    life o l (parts entries first ps) = some l := by
  induction ps generalizing first with
  | nil => rfl
  | cons p ps ih =>
    have hpart : life o l (entries first p) = some l := by
      apply life_of_forall_ne
      intro e he heo
      have hnumber := hentries first p e he
      rw [heo] at hnumber
      omega
    rw [parts, life_append, hpart, Option.bind_some]
    exact ih (Nat.lt_succ_of_lt ho)

/-- If the entries of a part are about objects of its number, an object has the
life that its own part gives it. -/
theorem life_parts (hentries : ∀ n p, ∀ e ∈ entries n p, number e.object = n) {o : Object}
    {l : Life} {first i : Nat} {ps : List Part} (ho : number o = first + i) :
    life o l (parts entries first ps) =
      (ps[i]?).elim (some l) fun p => life o l (entries (first + i) p) := by
  induction ps generalizing first i with
  | nil => rfl
  | cons p ps ih =>
    rw [parts, life_append]
    cases i with
    | zero =>
      have hrest : ∀ l', life o l' (parts entries (first + 1) ps) = some l' :=
        fun l' => life_parts_before hentries (by omega)
      simp [hrest]
    | succ i =>
      have hpart : life o l (entries first p) = some l := by
        apply life_of_forall_ne
        intro e he heo
        have hnumber := hentries first p e he
        rw [heo] at hnumber
        omega
      have hnext : number o = first + 1 + i := by omega
      rw [hpart, Option.bind_some, ih hnext, List.getElem?_cons_succ, Nat.add_right_comm,
        Nat.add_assoc]

end Parts

/-- Where one step takes an object from one life that the state allows it to
another, the ledger of a run does. -/
theorem life_of_run {State Action : Type} {step : State → Action → Option State}
    {out : State → Action → List (Entry Object)} {I : State → Prop}
    {Allows : State → Object → Life → Prop}
    (hstep : ∀ s a t, I s → step s a = some t → I t ∧ ∀ o l, Allows s o l →
      ∃ l', life o l (out s a) = some l' ∧ Allows t o l')
    {s t : State} {as : List Action} {ledger : List (Entry Object)} (hs : I s)
    (hrun : exec (logged step out) (s, []) as = some (t, ledger)) {o : Object} {l : Life}
    (hl : Allows s o l) : ∃ l', life o l ledger = some l' ∧ Allows t o l' := by
  have hinv : I t ∧ ∃ l', life o l ledger = some l' ∧ Allows t o l' := by
    refine inv_of_exec (I := fun p => I p.1 ∧ ∃ l', life o l p.2 = some l' ∧ Allows p.1 o l')
      ⟨hs, l, rfl, hl⟩ ?_ hrun
    intro p a q hp hq
    obtain ⟨hp, l', hlife, hallows⟩ := hp
    obtain ⟨u, hu, rfl⟩ := logged_eq.mp hq
    obtain ⟨hi, hmoves⟩ := hstep p.1 a u hp hu
    obtain ⟨l'', hlife', hallows'⟩ := hmoves o l' hallows
    refine ⟨hi, l'', ?_, hallows'⟩
    rw [life_append, hlife, Option.bind_some, hlife']
  exact hinv.2

end Ledger
