import Mathlib.Data.List.Induction

namespace Runs

variable {State Action : Type} {step : State → Action → Option State}

/-- Takes the actions in order. A run that meets an action which is not enabled
has no result. -/
def exec (step : State → Action → Option State) : State → List Action → Option State
  | s, [] => some s
  | s, a :: as => (step s a).bind (fun t => exec step t as)

theorem exec_cons {s u : State} {a : Action} {as : List Action} :
    exec step s (a :: as) = some u ↔ ∃ t, step s a = some t ∧ exec step t as = some u :=
  Option.bind_eq_some_iff

theorem exec_append {s u : State} {as bs : List Action} :
    exec step s (as ++ bs) = some u ↔ ∃ t, exec step s as = some t ∧ exec step t bs = some u := by
  induction as generalizing s with
  | nil => simp [exec]
  | cons a as ih =>
    simp only [List.cons_append, exec_cons, ih]
    constructor
    · intro hgiven
      obtain ⟨r, hr, t, ht, hu⟩ := hgiven
      exact ⟨t, ⟨r, hr, ht⟩, hu⟩
    · intro hgiven
      obtain ⟨t, ⟨r, hr, ht⟩, hu⟩ := hgiven
      exact ⟨r, hr, t, ht, hu⟩

/-- The machine with a log, to which each step adds what `out` reads off it. -/
def logged {Out : Type} (step : State → Action → Option State) (out : State → Action → List Out)
    (p : State × List Out) (a : Action) : Option (State × List Out) :=
  (step p.1 a).map fun t => (t, p.2 ++ out p.1 a)

section Log

variable {Out : Type} {out : State → Action → List Out}

theorem logged_eq {p q : State × List Out} {a : Action} :
    logged step out p a = some q ↔ ∃ t, step p.1 a = some t ∧ (t, p.2 ++ out p.1 a) = q :=
  Option.map_eq_some_iff

/-- The log changes nothing about the run. -/
theorem exec_of_logged {p q : State × List Out} {as : List Action}
    (h : exec (logged step out) p as = some q) : exec step p.1 as = some q.1 := by
  induction as generalizing p with
  | nil => cases h; rfl
  | cons a as ih =>
    obtain ⟨r, hr, hq⟩ := exec_cons.mp h
    obtain ⟨t, ht, rfl⟩ := logged_eq.mp hr
    exact exec_cons.mpr ⟨t, ht, ih hq⟩

/-- Every run has its log. -/
theorem exists_logged {p : State × List Out} {t : State} {as : List Action}
    (h : exec step p.1 as = some t) :
    ∃ log, exec (logged step out) p as = some (t, p.2 ++ log) := by
  induction as generalizing p with
  | nil => cases h; exact ⟨[], by simp [exec]⟩
  | cons a as ih =>
    obtain ⟨r, hr, ht⟩ := exec_cons.mp h
    obtain ⟨log, hlog⟩ := ih (p := (r, p.2 ++ out p.1 a)) ht
    refine ⟨out p.1 a ++ log, exec_cons.mpr ⟨_, logged_eq.mpr ⟨r, hr, rfl⟩, ?_⟩⟩
    rw [hlog, List.append_assoc]

/-- The log only grows. -/
theorem log_prefix {p q : State × List Out} {as : List Action}
    (h : exec (logged step out) p as = some q) : ∃ more, q.2 = p.2 ++ more := by
  obtain ⟨more, hmore⟩ : ∃ more, exec (logged step out) p as = some (q.1, p.2 ++ more) :=
    exists_logged (exec_of_logged h)
  rw [h, Option.some.injEq] at hmore
  exact ⟨more, congrArg Prod.snd hmore⟩

end Log

/-- The largest value of a measure in the first state of the run and in those
it reaches. -/
def peak (step : State → Action → Option State) (measure : State → Nat) :
    State → List Action → Nat
  | s, [] => measure s
  | s, a :: as =>
    max (measure s) (match step s a with
      | none => 0
      | some t => peak step measure t as)

theorem le_peak {measure : State → Nat} {s : State} {as : List Action} :
    measure s ≤ peak step measure s as := by
  cases as with
  | nil => exact Nat.le_refl _
  | cons a as => exact Nat.le_max_left _ _

theorem peak_cons {measure : State → Nat} {s t : State} {a : Action} {as : List Action}
    (h : step s a = some t) :
    peak step measure s (a :: as) = max (measure s) (peak step measure t as) := by
  simp only [peak, h]

theorem peak_le_append {measure : State → Nat} {s : State} {as bs : List Action} :
    peak step measure s as ≤ peak step measure s (as ++ bs) := by
  induction as generalizing s with
  | nil =>
    rw [peak]
    exact le_peak
  | cons a as ih =>
    cases h : step s a with
    | none => simp only [List.cons_append, peak, h, Nat.le_refl]
    | some t =>
      rw [List.cons_append, peak_cons h, peak_cons h]
      have hle := ih (s := t)
      omega

/-- Every step taken on the run relates the state before, the action and the
state after as `R` says. -/
def Along (step : State → Action → Option State) (R : State → Action → State → Prop) :
    State → List Action → Prop
  | _, [] => True
  | s, a :: as => ∀ t, step s a = some t → R s a t ∧ Along step R t as

/-- `P` holds in the first state of the run and in every state it reaches. -/
def Always (step : State → Action → Option State) (P : State → Prop) (s : State)
    (as : List Action) : Prop :=
  P s ∧ Along step (fun _ _ t => P t) s as

/-- Every step of the run is taken in a state that meets the condition `G`. -/
def Guarded (step : State → Action → Option State) (G : State → Action → Prop) (s : State)
    (as : List Action) : Prop :=
  Along step (fun s a _ => G s a) s as

theorem along_append {R : State → Action → State → Prop} {s : State} {as bs : List Action} :
    Along step R s (as ++ bs) ↔
      Along step R s as ∧ ∀ t, exec step s as = some t → Along step R t bs := by
  induction as generalizing s with
  | nil => simp [Along, exec]
  | cons a as ih =>
    constructor
    · intro h
      refine ⟨fun r hr => ⟨(h r hr).1, (ih.mp (h r hr).2).1⟩, ?_⟩
      intro t ht
      obtain ⟨r, hr, ht⟩ := exec_cons.mp ht
      exact (ih.mp (h r hr).2).2 t ht
    · intro hgiven r hr
      obtain ⟨has, hbs⟩ := hgiven
      refine ⟨(has r hr).1, ih.mpr ⟨(has r hr).2, ?_⟩⟩
      intro t ht
      exact hbs t (exec_cons.mpr ⟨r, hr, ht⟩)

section Rules

variable {I : State → Prop} {G : State → Action → Prop}
  {R : State → Action → State → Prop} {s t : State} {as : List Action}

/-- The invariant rule. -/
theorem inv_of_exec (hs : I s) (hstep : ∀ s a t, I s → step s a = some t → I t)
    (h : exec step s as = some t) : I t := by
  induction as generalizing s with
  | nil => cases h; exact hs
  | cons a as ih =>
    obtain ⟨u, hu, ht⟩ := exec_cons.mp h
    exact ih (hstep s a u hs hu) ht

/-- The invariant rule for a run whose steps all meet a condition. -/
theorem inv_of_guarded (hs : I s) (hg : Guarded step G s as)
    (hstep : ∀ s a t, I s → G s a → step s a = some t → I t)
    (h : exec step s as = some t) : I t := by
  induction as generalizing s with
  | nil => cases h; exact hs
  | cons a as ih =>
    obtain ⟨u, hu, ht⟩ := exec_cons.mp h
    obtain ⟨ha, hg⟩ := hg u hu
    exact ih (hstep s a u hs ha hu) hg ht

/-- The invariant rule for a property of a state and the actions that led to it. -/
theorem inv_of_history {I : State → List Action → Prop} (hs : I s [])
    (hstep : ∀ u done a v, I u done → step u a = some v → I v (done ++ [a]))
    (h : exec step s as = some t) : I t as := by
  induction as using List.reverseRecOn generalizing t with
  | nil => cases h; exact hs
  | append_singleton as a ih =>
    obtain ⟨u, hu, ht⟩ := exec_append.mp h
    obtain ⟨v, hv, hend⟩ := exec_cons.mp ht
    cases hend
    exact hstep u as a t (ih hu) hv

theorem along_of_guarded (hs : I s) (hg : Guarded step G s as)
    (hstep : ∀ s a t, I s → G s a → step s a = some t → I t ∧ R s a t) :
    Along step R s as := by
  induction as generalizing s with
  | nil => trivial
  | cons a as ih =>
    intro t ht
    obtain ⟨ha, hg⟩ := hg t ht
    obtain ⟨hi, hr⟩ := hstep s a t hs ha ht
    exact ⟨hr, ih hi hg⟩

/-- A property of steps is exactly a condition on the states they are taken in
when, from an invariant state, one step has it just in case it meets the
condition, and meeting the condition keeps the invariant. -/
theorem along_iff_guarded (hs : I s)
    (hstep : ∀ s a t, I s → step s a = some t → (R s a t ↔ G s a))
    (hinv : ∀ s a t, I s → G s a → step s a = some t → I t) :
    Along step R s as ↔ Guarded step G s as := by
  induction as generalizing s with
  | nil => exact Iff.rfl
  | cons a as ih =>
    constructor
    · intro h t ht
      obtain ⟨hr, htail⟩ := h t ht
      have ha := (hstep s a t hs ht).mp hr
      exact ⟨ha, (ih (hinv s a t hs ha ht)).mp htail⟩
    · intro h t ht
      obtain ⟨ha, htail⟩ := h t ht
      exact ⟨(hstep s a t hs ht).mpr ha, (ih (hinv s a t hs ha ht)).mpr htail⟩

/-- An invariant holds in every state of a run. -/
theorem always_of_inv (hs : I s) (hstep : ∀ s a t, I s → step s a = some t → I t) :
    Always step I s as := by
  refine ⟨hs, ?_⟩
  induction as generalizing s with
  | nil => trivial
  | cons a as ih =>
    intro t ht
    have hi := hstep s a t hs ht
    exact ⟨hi, ih hi⟩

/-- A run that stays in `P` keeps what a step from a state of `P` keeps. -/
theorem always_and {P : State → Prop} (hs : I s)
    (hstep : ∀ s a t, I s → P s → step s a = some t → I t) (h : Always step P s as) :
    Always step (fun t => I t ∧ P t) s as := by
  obtain ⟨hp, halong⟩ := h
  refine ⟨⟨hs, hp⟩, ?_⟩
  induction as generalizing s with
  | nil => trivial
  | cons a as ih =>
    intro t ht
    obtain ⟨hp', hrest⟩ := halong t ht
    have hi := hstep s a t hs hp ht
    exact ⟨⟨hi, hp'⟩, ih hi hp' hrest⟩

theorem Always.mono {P Q : State → Prop} (h : Always step P s as) (hpq : ∀ s, P s → Q s) :
    Always step Q s as := by
  obtain ⟨hp, halong⟩ := h
  refine ⟨hpq s hp, ?_⟩
  induction as generalizing s with
  | nil => trivial
  | cons a as ih =>
    intro t ht
    obtain ⟨hp', hrest⟩ := halong t ht
    exact ⟨hpq t hp', ih hp' hrest⟩

theorem guarded_of_forall (h : ∀ a ∈ as, ∀ s, G s a) : Guarded step G s as := by
  induction as generalizing s with
  | nil => trivial
  | cons a as ih =>
    intro t _
    exact ⟨h a List.mem_cons_self s, ih (fun b hb => h b (List.mem_cons_of_mem _ hb))⟩

end Rules

end Runs
