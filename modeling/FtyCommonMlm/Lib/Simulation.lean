import FtyCommonMlm.Lib.Runs

namespace Runs

variable {State Action State' Action' : Type} {low : State → Action → Option State}
  {high : State' → Action' → Option State'}

/-- Under an invariant, what one step of the lower machine does is, seen through
`view`, a run of the upper one on the actions it stands for. -/
def Simulates (low : State → Action → Option State) (high : State' → Action' → Option State')
    (view : State → State') (stands : State → Action → List Action') (I : State → Prop) : Prop :=
  ∀ s a t, I s → low s a = some t → exec high (view s) (stands s a) = some (view t)

/-- Where the steps of the lower machine that meet a condition are, seen through
`view`, runs of the upper one, so is a run of such steps. -/
theorem viewed_run {view : State → State'} {stands : State → Action → List Action'}
    {I : State → Prop} {G : State → Action → Prop}
    (hstep : ∀ s a t, I s → G s a → low s a = some t →
      I t ∧ exec high (view s) (stands s a) = some (view t)) {s t : State} {as : List Action}
    {log : List Action'} (hs : I s) (hg : Guarded low G s as)
    (hrun : exec (logged low stands) (s, []) as = some (t, log)) :
    I t ∧ exec high (view s) log = some (view t) := by
  have hgeneral : ∀ (p : State × List Action') (as : List Action), I p.1 →
      Guarded low G p.1 as → exec (logged low stands) p as = some (t, log) →
      exec high (view s) p.2 = some (view p.1) →
      I t ∧ exec high (view s) log = some (view t) := by
    intro p as
    induction as generalizing p with
    | nil =>
      intro hp _ hrun hview
      cases hrun
      exact ⟨hp, hview⟩
    | cons a as ih =>
      intro hp hg hrun hview
      obtain ⟨q, hq, hrest⟩ := exec_cons.mp hrun
      obtain ⟨u, hu, rfl⟩ := logged_eq.mp hq
      obtain ⟨ha, hg⟩ := hg u hu
      obtain ⟨hi, hviewed⟩ := hstep _ _ _ hp ha hu
      apply ih (u, p.2 ++ stands p.1 a) hi hg hrest
      exact exec_append.mpr ⟨view p.1, hview, hviewed⟩
  exact hgeneral (s, []) as hs hg hrun rfl

/-- Then each run of the lower machine is one of the upper machine. -/
theorem Simulates.run {view : State → State'} {stands : State → Action → List Action'}
    {I : State → Prop} {G : State → Action → Prop} (h : Simulates low high view stands I)
    (hstep : ∀ s a t, I s → G s a → low s a = some t → I t) {s t : State} {as : List Action}
    {log : List Action'} (hs : I s) (hg : Guarded low G s as)
    (hrun : exec (logged low stands) (s, []) as = some (t, log)) :
    exec high (view s) log = some (view t) :=
  (viewed_run (fun s a t hi ha ht => ⟨hstep s a t hi ha ht, h s a t hi ht⟩) hs hg hrun).2

/-- What all outputs of the steps are, the log is. -/
theorem forall_mem_log {Out : Type} {out : State → Action → List Out} {P : Out → Prop} {s t : State}
    {as : List Action} {log : List Out} (hP : ∀ a ∈ as, ∀ s, ∀ x ∈ out s a, P x)
    (hrun : exec (logged low out) (s, []) as = some (t, log)) : ∀ x ∈ log, P x := by
  refine inv_of_guarded (I := fun p : State × List Out => ∀ x ∈ p.2, P x)
    (G := fun _ a => ∀ s, ∀ x ∈ out s a, P x) (by simp) (guarded_of_forall fun a ha _ => hP a ha)
    ?_ hrun
  intro p a q hp ha hq
  obtain ⟨u, _, rfl⟩ := logged_eq.mp hq
  intro x hx
  rcases List.mem_append.mp hx with hx | hx
  · exact hp x hx
  · exact ha p.1 x hx

/-- A run of the lowest of three machines is one of the middle machine, and so one
of the highest. -/
theorem Simulates.through {State'' Action'' : Type}
    {highest : State'' → Action'' → Option State''} {view : State → State'}
    {view' : State' → State''} {stands : State → Action → List Action'}
    {stands' : State' → Action' → List Action''} {I' : State' → Prop} {G' : Action' → Prop}
    (h : Simulates low high view stands fun _ => True)
    (h' : Simulates high highest view' stands' I')
    (hstep : ∀ s a t, I' s → G' a → high s a = some t → I' t) {s t : State} {as : List Action}
    {log : List Action'} (hs : I' (view s)) (hg : ∀ a ∈ as, ∀ s, ∀ b ∈ stands s a, G' b)
    (hrun : exec (logged low stands) (s, []) as = some (t, log)) :
    exec high (view s) log = some (view t) ∧
    ∃ log', exec (logged high stands') (view s, []) log = some (view t, log') ∧
      exec highest (view' (view s)) log' = some (view' (view t)) := by
  have hmiddle : exec high (view s) log = some (view t) :=
    h.run (G := fun _ _ => True) (fun _ _ _ _ _ _ => trivial) trivial
      (guarded_of_forall fun _ _ _ => trivial) hrun
  obtain ⟨log', hlog⟩ : ∃ log', exec (logged high stands') (view s, []) log =
      some (view t, [] ++ log') := exists_logged hmiddle
  rw [List.nil_append] at hlog
  have hlabels := forall_mem_log hg hrun
  exact ⟨hmiddle, log', hlog, h'.run (fun _ _ _ hi ha hst => hstep _ _ _ hi ha hst) hs
    (guarded_of_forall fun b hb _ => hlabels b hb) hlog⟩

/-- With a relation in the place of a view: each run of the lower machine has one
of the upper machine beside it. -/
theorem related_run {R : State → State' → Prop} {stands : State → Action → List Action'}
    (hstep : ∀ s a t s', R s s' → low s a = some t →
      ∃ t', exec high s' (stands s a) = some t' ∧ R t t') {s t : State} {s' : State'}
    {as : List Action} {log : List Action'} (hs : R s s')
    (hrun : exec (logged low stands) (s, []) as = some (t, log)) :
    ∃ t', exec high s' log = some t' ∧ R t t' := by
  refine inv_of_exec (I := fun p => ∃ t', exec high s' p.2 = some t' ∧ R p.1 t')
    ⟨s', rfl, hs⟩ ?_ hrun
  intro p a q hp hq
  obtain ⟨u', hu', hu⟩ := hp
  obtain ⟨v, hv, rfl⟩ := logged_eq.mp hq
  obtain ⟨v', hv', hrelated⟩ := hstep p.1 a v u' hu hv
  exact ⟨v', exec_append.mpr ⟨u', hu', hv'⟩, hrelated⟩

end Runs
