import Mathlib.Data.List.Basic
import Mathlib.Data.List.Infix
import Mathlib.Tactic

/-! Finite runs of a machine driven by events, with the induction rules used for
invariants, for runs whose steps all meet a guard, and for the exact case in
which the guard is also necessary. -/
namespace MessageApp

/-- A machine reads one event at a time; `none` means the event cannot happen there.
All nondeterminism of the environment is carried by the events. -/
structure Machine (σ ε : Type) where
  start : σ
  step : σ → ε → Option σ

theorem guarded {α : Type} {c : Prop} [Decidable c] {a b : α}
    (h : (if c then some a else none) = some b) : c ∧ b = a := by
  obtain ⟨hc,hab⟩ := Option.ite_none_right_eq_some.mp h
  exact ⟨hc,(Option.some.inj hab).symm⟩

/-- Every event of the list meets a condition on the events that came before it. -/
def EachAfter {ε : Type} (C : List ε → ε → Prop) : List ε → List ε → Prop
  | _, [] => True
  | past, e::es => C past e ∧ EachAfter C (past ++ [e]) es

instance EachAfter.decidable {ε : Type} (C : List ε → ε → Prop) [∀ past e, Decidable (C past e)] :
    ∀ past es, Decidable (EachAfter C past es)
  | _, [] => isTrue trivial
  | past, e::es =>
    have := EachAfter.decidable C (past ++ [e]) es
    inferInstanceAs (Decidable (_ ∧ _))

namespace Machine

variable {σ ε : Type} {m : Machine σ ε} {P : σ → Prop} {G : σ → ε → Prop}

def exec (m : Machine σ ε) : σ → List ε → Option σ
  | s, [] => some s
  | s, e::es => (m.step s e).bind fun t => m.exec t es

def Reachable (m : Machine σ ε) (s : σ) : Prop := ∃ es, m.exec m.start es = some s

/-- `P` holds in every state the run passes through, its two ends included. -/
def Throughout (m : Machine σ ε) (P : σ → Prop) (s : σ) (es : List ε) : Prop :=
  ∀ before t, before <+: es → m.exec s before = some t → P t

/-- Every step of the run is taken from a state that meets the guard for its event. -/
def Along (m : Machine σ ε) (G : σ → ε → Prop) (s : σ) (es : List ε) : Prop :=
  ∀ before e t, before ++ [e] <+: es → m.exec s before = some t → G t e

theorem exec_cons_eq {s u : σ} {e : ε} {es : List ε} :
    m.exec s (e::es) = some u ↔ ∃ t, m.step s e = some t ∧ m.exec t es = some u := by
  simp [exec,Option.bind_eq_some_iff]

/-- The rule for invariants: what every step keeps, every run keeps. -/
theorem exec_invariant (hstep : ∀ s e t, P s → m.step s e = some t → P t)
    {s t : σ} {es : List ε} (hs : P s) (h : m.exec s es = some t) : P t := by
  induction es generalizing s with
  | nil =>
    have he : s = t := Option.some.inj h
    exact he ▸ hs
  | cons e es ih =>
    obtain ⟨u,hu,hut⟩ := exec_cons_eq.mp h
    exact ih (hstep s e u hs hu) hut

theorem Reachable.invariant (hstart : P m.start)
    (hstep : ∀ s e t, P s → m.step s e = some t → P t) {s : σ} (hs : m.Reachable s) : P s := by
  obtain ⟨es,hes⟩ := hs
  exact exec_invariant hstep hstart hes

theorem along_nil (s : σ) : m.Along G s [] := by
  intro before e t hpre
  simp at hpre

theorem along_cons {s t : σ} {e : ε} {es : List ε} (h : m.step s e = some t) :
    m.Along G s (e::es) ↔ G s e ∧ m.Along G t es := by
  constructor
  · intro ha
    refine ⟨ha [] e s (by simp) rfl,?_⟩
    intro before f u hpre hu
    refine ha (e::before) f u ?_ (exec_cons_eq.mpr ⟨t,h,hu⟩)
    simpa using hpre
  · rintro ⟨hg,ha⟩ before f u hpre hu
    cases before with
    | nil =>
      have hf : f = e := by simpa using hpre
      have hs : s = u := Option.some.inj hu
      rwa [hf,← hs]
    | cons a before =>
      obtain ⟨rfl,hrest⟩ : a = e ∧ before ++ [f] <+: es := by simpa using hpre
      obtain ⟨t',ht',hu⟩ := exec_cons_eq.mp hu
      have he : t = t' := Option.some.inj (h.symm.trans ht')
      exact ha before f u hrest (he ▸ hu)

/-- Runs a guard along with the machine; a run stops being judged where it cannot go on. -/
def check (m : Machine σ ε) (G : σ → ε → Prop) [∀ s e, Decidable (G s e)] : σ → List ε → Bool
  | _, [] => true
  | s, e::es => decide (G s e) && ((m.step s e).elim true fun t => m.check G t es)

theorem along_of_check [∀ s e, Decidable (G s e)] {s : σ} {es : List ε}
    (h : m.check G s es = true) : m.Along G s es := by
  induction es generalizing s with
  | nil => exact along_nil s
  | cons e es ih =>
    obtain ⟨hg,hrest⟩ : G s e ∧ (m.step s e).elim true (fun t => m.check G t es) = true := by
      simpa [check] using h
    intro before f u hpre hu
    cases before with
    | nil =>
      obtain rfl : f = e := by simpa using hpre
      obtain rfl : s = u := Option.some.inj hu
      exact hg
    | cons a before =>
      obtain ⟨rfl,hpref⟩ : a = e ∧ before ++ [f] <+: es := by simpa using hpre
      obtain ⟨t,ht,hu⟩ := exec_cons_eq.mp hu
      rw [ht] at hrest
      exact ih hrest before f u hpref hu

theorem throughout_nil (s : σ) : m.Throughout P s [] ↔ P s := by
  constructor
  · intro h
    exact h [] s (by simp) rfl
  · intro h before t hpre ht
    obtain rfl : before = [] := by simpa using hpre
    have he : s = t := Option.some.inj ht
    exact he ▸ h

theorem throughout_cons {s t : σ} {e : ε} {es : List ε} (h : m.step s e = some t) :
    m.Throughout P s (e::es) ↔ P s ∧ m.Throughout P t es := by
  constructor
  · intro hp
    refine ⟨hp [] s (by simp) rfl,?_⟩
    intro before u hpre hu
    exact hp (e::before) u (by simpa using hpre) (exec_cons_eq.mpr ⟨t,h,hu⟩)
  · rintro ⟨hs,hp⟩ before u hpre hu
    cases before with
    | nil =>
      have he : s = u := Option.some.inj hu
      exact he ▸ hs
    | cons a before =>
      obtain ⟨rfl,hrest⟩ : a = e ∧ before <+: es := by simpa using hpre
      obtain ⟨t',ht',hu⟩ := exec_cons_eq.mp hu
      have he : t = t' := Option.some.inj (h.symm.trans ht')
      exact hp before u hrest (he ▸ hu)

theorem throughout_of_along (hstep : ∀ s e t, P s → G s e → m.step s e = some t → P t)
    {s t : σ} {es : List ε} (hs : P s) (h : m.exec s es = some t) (ha : m.Along G s es) :
    m.Throughout P s es := by
  induction es generalizing s with
  | nil => exact (throughout_nil s).mpr hs
  | cons e es ih =>
    obtain ⟨u,hu,hut⟩ := exec_cons_eq.mp h
    obtain ⟨hg,ha⟩ := (along_cons hu).mp ha
    exact (throughout_cons hu).mpr ⟨hs,ih (hstep s e u hs hg hu) hut ha⟩

/-- When, under an invariant, each step keeps the property exactly if it meets the guard, a
whole run keeps the property exactly if all its steps meet the guard. -/
theorem throughout_iff_along {I : σ → Prop} (hinv : ∀ s e t, I s → m.step s e = some t → I t)
    (hstep : ∀ s e t, I s → P s → m.step s e = some t → (P t ↔ G s e))
    {s t : σ} {es : List ε} (hI : I s) (hs : P s) (h : m.exec s es = some t) :
    m.Throughout P s es ↔ m.Along G s es := by
  induction es generalizing s with
  | nil => simp [throughout_nil,hs,along_nil]
  | cons e es ih =>
    obtain ⟨u,hu,hut⟩ := exec_cons_eq.mp h
    have hIu := hinv s e u hI hu
    rw [throughout_cons hu,along_cons hu,← hstep s e u hI hs hu]
    constructor
    · rintro ⟨_,ht⟩
      have hpu : P u := ht [] u (by simp) rfl
      exact ⟨hpu,(ih hIu hpu hut).mp ht⟩
    · rintro ⟨hpu,ha⟩
      exact ⟨hs,(ih hIu hpu hut).mpr ha⟩

/-- The same for a condition on the events so far, under an invariant that ties the state to them. -/
theorem throughout_iff_each {I : List ε → σ → Prop} {C : List ε → ε → Prop}
    (hinv : ∀ past s e t, I past s → m.step s e = some t → I (past ++ [e]) t)
    (hstep : ∀ past s e t, I past s → P s → m.step s e = some t → (P t ↔ C past e))
    {past : List ε} {s t : σ} {es : List ε} (hI : I past s) (hs : P s) (h : m.exec s es = some t) :
    m.Throughout P s es ↔ EachAfter C past es := by
  induction es generalizing past s with
  | nil => exact iff_of_true ((throughout_nil s).mpr hs) trivial
  | cons e es ih =>
    obtain ⟨u,hu,hut⟩ := exec_cons_eq.mp h
    have hIu := hinv past s e u hI hu
    rw [throughout_cons hu,EachAfter,← hstep past s e u hI hs hu]
    constructor
    · rintro ⟨_,ht⟩
      have hpu : P u := ht [] u (by simp) rfl
      exact ⟨hpu,(ih hIu hpu hut).mp ht⟩
    · rintro ⟨hpu,heach⟩
      exact ⟨hs,(ih hIu hpu hut).mpr heach⟩

theorem exec_mono {m' : Machine σ ε} (hstep : ∀ s e t, m'.step s e = some t → m.step s e = some t)
    {s t : σ} {es : List ε} (h : m'.exec s es = some t) : m.exec s es = some t := by
  induction es generalizing s with
  | nil => exact h
  | cons e es ih =>
    obtain ⟨u,hu,hut⟩ := exec_cons_eq.mp h
    exact exec_cons_eq.mpr ⟨u,hstep s e u hu,ih hut⟩

end Machine
end MessageApp
