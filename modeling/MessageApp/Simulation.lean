import MessageApp.Runs

/-! Rules about two runs: how runs compose, when every run of one machine is answered by a run of
another one, when some run brings a measure down, and where in a run something came from. -/
namespace MessageApp
namespace Machine

variable {σ ε : Type} {m : Machine σ ε} {P : σ → Prop}

theorem exec_append (s : σ) (es fs : List ε) :
    m.exec s (es ++ fs) = (m.exec s es).bind fun t => m.exec t fs := by
  induction es generalizing s with
  | nil => rfl
  | cons e es ih =>
    simp only [List.cons_append,exec,Option.bind_assoc]
    exact congrArg _ (funext ih)

theorem exec_trans {s t u : σ} {es fs : List ε} (h : m.exec s es = some t)
    (h' : m.exec t fs = some u) : m.exec s (es ++ fs) = some u := by
  rw [exec_append,h]
  exact h'

theorem exec_concat {s t u : σ} {es : List ε} {e : ε} (h : m.exec s es = some t)
    (hstep : m.step t e = some u) : m.exec s (es ++ [e]) = some u :=
  exec_trans h (exec_cons_eq.mpr ⟨u,hstep,rfl⟩)

/-- The rule for simulations: where every step of one machine is answered by a run of another
one between related states, so is every run. -/
theorem exec_simulation {τ δ : Type} {n : Machine τ δ} {R : σ → τ → Prop}
    (hstep : ∀ s e t a, R s a → m.step s e = some t → ∃ fs b, n.exec a fs = some b ∧ R t b)
    {s t : σ} {a : τ} {es : List ε} (h : R s a) (run : m.exec s es = some t) :
    ∃ fs b, n.exec a fs = some b ∧ R t b := by
  induction es generalizing s a with
  | nil =>
    obtain rfl : s = t := Option.some.inj run
    exact ⟨[],a,rfl,h⟩
  | cons e es ih =>
    obtain ⟨u,hu,hut⟩ := exec_cons_eq.mp run
    obtain ⟨fs,b,hfs,hb⟩ := hstep s e u a h hu
    obtain ⟨gs,c,hgs,hc⟩ := ih hb hut
    exact ⟨fs ++ gs,c,exec_trans hfs hgs,hc⟩

/-- The rule for progress: where a measure can be lowered by an allowed event whenever it is not
zero, some run of allowed events brings it to zero. -/
theorem exists_exec_of_measure {Q : ε → Prop} (μ : σ → ℕ)
    (hstep : ∀ s, P s → μ s ≠ 0 → ∃ e t, Q e ∧ m.step s e = some t ∧ P t ∧ μ t < μ s) {s : σ}
    (hs : P s) : ∃ es t, (∀ e ∈ es, Q e) ∧ m.exec s es = some t ∧ P t ∧ μ t = 0 := by
  induction hn : μ s using Nat.strong_induction_on generalizing s with
  | _ n ih =>
    by_cases hzero : μ s = 0
    · exact ⟨[],s,by simp,rfl,hs,hzero⟩
    · obtain ⟨e,t,he,ht,hpt,hlt⟩ := hstep s hs hzero
      obtain ⟨es,u,hes,hu,hpu,hu0⟩ := ih (μ t) (hn ▸ hlt) hpt rfl
      refine ⟨e::es,u,fun f hf => ?_,exec_cons_eq.mpr ⟨t,ht,hu⟩,hpu,hu0⟩
      rcases List.mem_cons.mp hf with rfl | hf
      · exact he
      · exact hes f hf

/-- The rule for origins: what a run ends with, and did not start with, one of its steps has
brought about. -/
theorem exists_origin {I : σ → Prop} {O : σ → ε → Prop}
    (hinv : ∀ s e t, I s → m.step s e = some t → I t)
    (hstep : ∀ s e t, I s → m.step s e = some t → P t → P s ∨ O s e) {s t : σ} {es : List ε}
    (hI : I s) (run : m.exec s es = some t) (hs : ¬ P s) (ht : P t) :
    ∃ before e u, before ++ [e] <+: es ∧ m.exec s before = some u ∧ I u ∧ O u e := by
  induction es generalizing s with
  | nil =>
    obtain rfl : s = t := Option.some.inj run
    exact absurd ht hs
  | cons e es ih =>
    obtain ⟨u,hu,hut⟩ := exec_cons_eq.mp run
    by_cases hhas : P u
    · exact ⟨[],e,s,by simp,rfl,hI,(hstep s e u hI hu hhas).resolve_left hs⟩
    · obtain ⟨before,f,v,hpre,hv,hIv,horigin⟩ := ih (hinv s e u hI hu) hut hhas
      exact ⟨e::before,f,v,by simpa using hpre,exec_cons_eq.mpr ⟨u,hu,hv⟩,hIv,horigin⟩

end Machine
end MessageApp
