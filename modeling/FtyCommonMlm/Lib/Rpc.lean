import FtyCommonMlm.Lib.Runs

namespace Rpc
open Runs

variable {Who Arg Res : Type}

/-- A remote call: who makes it and with what, what its procedure has come to
once it has run, and how it has ended. A procedure may come to no result, and a
call may end without one. -/
structure Call (Who Arg Res : Type) where
  who : Who
  arg : Arg
  ran : Option (Option Res) := none
  ended : Option (Option Res) := none

inductive Action (Who Arg Res : Type)
  | begin (who : Who) (arg : Arg)
  | run (i : Nat) (procedure : Who → Arg → Option Res)
  | ret (i : Nat)
  | fail (i : Nat)

/-- Remote calls with at most one run of the procedure for each. A call returns
what its own run has come to, or fails. -/
def step (calls : List (Call Who Arg Res)) : Action Who Arg Res → Option (List (Call Who Arg Res))
  | .begin who arg => some (calls ++ [⟨who, arg, none, none⟩])
  | .run i procedure =>
    match calls[i]? with
    | none => none
    | some c =>
      if c.ran.isNone then some (calls.set i { c with ran := some (procedure c.who c.arg) })
      else none
  | .ret i =>
    match calls[i]? with
    | none => none
    | some c =>
      match c.ended, c.ran with
      | none, some (some res) => some (calls.set i { c with ended := some (some res) })
      | _, _ => none
  | .fail i =>
    match calls[i]? with
    | none => none
    | some c => if c.ended.isNone then some (calls.set i { c with ended := some none }) else none

/-- How many calls have begun. -/
def begun (log : List (Action Who Arg Res)) : Nat :=
  (log.filter fun a => match a with
    | .begin _ _ => true
    | _ => false).length

def NotRun (log : List (Action Who Arg Res)) (i : Nat) : Prop := ∀ procedure, .run i procedure ∉ log

/-- The procedure of a call that had begun has run once. -/
def RanOnce (log : List (Action Who Arg Res)) (i : Nat) (who : Who) (arg : Arg)
    (res : Option Res) : Prop :=
  ∃ before procedure behind, log = before ++ .run i procedure :: behind ∧ i < begun before ∧
    procedure who arg = res ∧ NotRun before i ∧ NotRun behind i

/-- A call has returned what its procedure had come to by then. -/
def Returned (log : List (Action Who Arg Res)) (i : Nat) (who : Who) (arg : Arg) (res : Res) :
    Prop :=
  ∃ before behind, log = before ++ .ret i :: behind ∧ RanOnce before i who arg (some res) ∧
    NotRun behind i

/-- What the calls tell of the actions that have been taken. -/
structure Told (calls : List (Call Who Arg Res)) (log : List (Action Who Arg Res)) : Prop where
  begun : begun log = calls.length
  fresh : ∀ i, (∀ c, calls[i]? = some c → c.ran = none) → NotRun log i
  ran : ∀ i c res, calls[i]? = some c → c.ran = some res → RanOnce log i c.who c.arg res
  returned : ∀ i c res, calls[i]? = some c → c.ended = some (some res) →
    c.ran = some (some res) ∧ Returned log i c.who c.arg res

section Steps

variable {calls calls' : List (Call Who Arg Res)} {log : List (Action Who Arg Res)}
  {a : Action Who Arg Res} {i : Nat} {c : Call Who Arg Res}

theorem NotRun.snoc (h : NotRun log i) (ha : ∀ procedure, a ≠ .run i procedure) :
    NotRun (log ++ [a]) i := by
  intro procedure hmem
  rcases List.mem_append.mp hmem with hmem | hmem
  · exact h procedure hmem
  · exact ha procedure (List.mem_singleton.mp hmem).symm

theorem RanOnce.snoc {who : Who} {arg : Arg} {res : Option Res} (h : RanOnce log i who arg res)
    (ha : ∀ procedure, a ≠ .run i procedure) : RanOnce (log ++ [a]) i who arg res := by
  obtain ⟨before, procedure, behind, rfl, hbegun, hres, hbefore, hbehind⟩ := h
  exact ⟨before, procedure, behind ++ [a], by simp, hbegun, hres, hbefore, hbehind.snoc ha⟩

theorem Returned.snoc {who : Who} {arg : Arg} {res : Res} (h : Returned log i who arg res)
    (ha : ∀ procedure, a ≠ .run i procedure) : Returned (log ++ [a]) i who arg res := by
  obtain ⟨before, behind, rfl, hran, hbehind⟩ := h
  exact ⟨before, behind ++ [a], by simp, hran, hbehind.snoc ha⟩

/-- All a step can do. -/
inductive Stepped (calls : List (Call Who Arg Res)) :
    Action Who Arg Res → List (Call Who Arg Res) → Prop
  | begin (who : Who) (arg : Arg) : Stepped calls (.begin who arg) (calls ++ [⟨who, arg, none, none⟩])
  | run (i : Nat) (procedure : Who → Arg → Option Res) (c : Call Who Arg Res)
      (hc : calls[i]? = some c) (hran : c.ran = none) :
      Stepped calls (.run i procedure) (calls.set i { c with ran := some (procedure c.who c.arg) })
  | ret (i : Nat) (c : Call Who Arg Res) (res : Res) (hc : calls[i]? = some c)
      (hended : c.ended = none) (hran : c.ran = some (some res)) :
      Stepped calls (.ret i) (calls.set i { c with ended := some (some res) })
  | fail (i : Nat) (c : Call Who Arg Res) (hc : calls[i]? = some c) (hended : c.ended = none) :
      Stepped calls (.fail i) (calls.set i { c with ended := some none })

theorem step_cases (h : step calls a = some calls') : Stepped calls a calls' := by
  cases a with
  | begin who arg =>
    cases h
    exact .begin who arg
  | run i procedure =>
    simp only [step] at h
    split at h
    · contradiction
    · rename_i c hc
      split at h
      · rename_i hran
        cases h
        exact .run i procedure c hc (Option.isNone_iff_eq_none.mp hran)
      · contradiction
  | ret i =>
    simp only [step] at h
    split at h
    · contradiction
    · rename_i c hc
      split at h
      · rename_i res hended hran
        cases h
        exact .ret i c res hc hended hran
      · contradiction
  | fail i =>
    simp only [step] at h
    split at h
    · contradiction
    · rename_i c hc
      split at h
      · rename_i hended
        cases h
        exact .fail i c hc (Option.isNone_iff_eq_none.mp hended)
      · contradiction

/-- A call of a changed list is one that stays or the changed one. -/
theorem getElem?_set_cases {d : Call Who Arg Res} {j : Nat}
    (hc : calls[i]? = some c) {e : Call Who Arg Res} (h : (calls.set i d)[j]? = some e) :
    (i ≠ j ∧ calls[j]? = some e) ∨ (i = j ∧ e = d) := by
  rw [List.getElem?_set] at h
  split at h
  · rename_i hij
    obtain ⟨hlt, _⟩ := List.getElem?_eq_some_iff.mp hc
    rw [if_pos hlt, Option.some.injEq] at h
    exact Or.inr ⟨hij, h.symm⟩
  · rename_i hij
    exact Or.inl ⟨hij, h⟩

theorem Told.ended (h : Told calls log) (hc : calls[i]? = some c) {d : Call Who Arg Res}
    (hran : d.ran = c.ran) (hsame : d.who = c.who ∧ d.arg = c.arg)
    (ha : Rpc.begun (log ++ [a]) = Rpc.begun log) (hnot : ∀ j procedure, a ≠ .run j procedure)
    (hreturned : ∀ res, d.ended = some (some res) →
      d.ran = some (some res) ∧ Returned (log ++ [a]) i d.who d.arg res) :
    Told (calls.set i d) (log ++ [a]) := by
  refine ⟨?_, ?_, ?_, ?_⟩
  · rw [ha, h.begun, List.length_set]
  · intro j hj
    refine (h.fresh j ?_).snoc (hnot j)
    intro e he
    by_cases hij : i = j
    · subst hij
      obtain ⟨hlt, _⟩ := List.getElem?_eq_some_iff.mp hc
      have hd := hj d (by rw [List.getElem?_set_self hlt])
      rw [hc] at he
      cases he
      rw [← hran, hd]
    · exact hj e (by rw [List.getElem?_set_ne hij, he])
  · intro j e res he hres
    rcases getElem?_set_cases hc he with ⟨_, he⟩ | ⟨rfl, rfl⟩
    · exact (h.ran j e res he hres).snoc (hnot j)
    · rw [hran] at hres
      rw [hsame.1, hsame.2]
      exact (h.ran i c res hc hres).snoc (hnot i)
  · intro j e res he hres
    rcases getElem?_set_cases hc he with ⟨_, he⟩ | ⟨rfl, rfl⟩
    · obtain ⟨hres, hback⟩ := h.returned j e res he hres
      exact ⟨hres, hback.snoc (hnot j)⟩
    · exact hreturned res hres

theorem Told.begin (h : Told calls log) (who : Who) (arg : Arg) :
    Told (calls ++ [⟨who, arg, none, none⟩]) (log ++ [.begin who arg]) := by
  have hnot : ∀ j procedure, (.begin who arg : Action Who Arg Res) ≠ .run j procedure := by
    simp
  have hnew : ∀ (j : Nat) (e : Call Who Arg Res),
      (calls ++ [⟨who, arg, none, none⟩])[j]? = some e →
        calls[j]? = some e ∨ e = ⟨who, arg, none, none⟩ := by
    intro j e he
    rw [List.getElem?_append] at he
    split at he
    · exact Or.inl he
    · rw [List.getElem?_singleton] at he
      split at he
      · exact Or.inr (Option.some.inj he).symm
      · contradiction
  refine ⟨?_, ?_, ?_, ?_⟩
  · have hbegun := h.begun
    simp only [Rpc.begun] at hbegun
    simp [Rpc.begun, hbegun]
  · intro j hj
    refine (h.fresh j ?_).snoc (hnot j)
    intro e he
    obtain ⟨hlt, _⟩ := List.getElem?_eq_some_iff.mp he
    exact hj e (by rw [List.getElem?_append_left hlt, he])
  · intro j e res he hres
    rcases hnew j e he with he | rfl
    · exact (h.ran j e res he hres).snoc (hnot j)
    · contradiction
  · intro j e res he hres
    rcases hnew j e he with he | rfl
    · obtain ⟨hres, hback⟩ := h.returned j e res he hres
      exact ⟨hres, hback.snoc (hnot j)⟩
    · contradiction

theorem Told.run (h : Told calls log) (hc : calls[i]? = some c) (hran : c.ran = none)
    (procedure : Who → Arg → Option Res) :
    Told (calls.set i { c with ran := some (procedure c.who c.arg) })
      (log ++ [.run i procedure]) := by
  obtain ⟨hlt, _⟩ := List.getElem?_eq_some_iff.mp hc
  have hfresh : NotRun log i := by
    apply h.fresh i
    intro e he
    rw [hc] at he
    cases he
    exact hran
  have hother : ∀ j, i ≠ j → ∀ p, (.run i procedure : Action Who Arg Res) ≠ .run j p := by
    intro j hij p he
    cases he
    exact hij rfl
  refine ⟨?_, ?_, ?_, ?_⟩
  · have hbegun := h.begun
    simp only [Rpc.begun] at hbegun
    simp [Rpc.begun, hbegun]
  · intro j hj
    have hij : i ≠ j := by
      intro he
      subst he
      have hnone := hj _ (List.getElem?_set_self hlt)
      contradiction
    refine (h.fresh j ?_).snoc (hother j hij)
    intro e he
    exact hj e (by rw [List.getElem?_set_ne hij, he])
  · intro j e res he hres
    rcases getElem?_set_cases hc he with ⟨hij, he⟩ | ⟨rfl, rfl⟩
    · exact (h.ran j e res he hres).snoc (hother j hij)
    · refine ⟨log, procedure, [], rfl, ?_, Option.some.inj hres, hfresh, by simp [NotRun]⟩
      rw [h.begun]
      exact hlt
  · intro j e res he hres
    rcases getElem?_set_cases hc he with ⟨hij, he⟩ | ⟨rfl, rfl⟩
    · obtain ⟨hres, hback⟩ := h.returned j e res he hres
      exact ⟨hres, hback.snoc (hother j hij)⟩
    · have hcontra := (h.returned i c res hc hres).1
      rw [hran] at hcontra
      contradiction

theorem Told.step (h : Told calls log) (hs : step calls a = some calls') :
    Told calls' (log ++ [a]) := by
  cases step_cases hs with
  | begin who arg => exact h.begin who arg
  | run i procedure c hc hran => exact h.run hc hran procedure
  | ret i c res hc hended hran =>
    refine h.ended hc rfl ⟨rfl, rfl⟩ (by simp [Rpc.begun]) (by simp) ?_
    intro res' hres'
    cases hres'
    exact ⟨hran, log, [], rfl, h.ran i c _ hc hran, by simp [NotRun]⟩
  | fail i c hc hended =>
    refine h.ended hc rfl ⟨rfl, rfl⟩ (by simp [Rpc.begun]) (by simp) ?_
    intro res' hres'
    cases hres'

end Steps

theorem told {log : List (Action Who Arg Res)} {calls : List (Call Who Arg Res)}
    (h : exec step [] log = some calls) : Told calls log := by
  refine inv_of_history (I := Told) ?_ (fun _ _ _ _ hs hstep => hs.step hstep) h
  exact ⟨rfl, by simp [NotRun], by simp, by simp⟩

end Rpc
