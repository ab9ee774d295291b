import Mathlib.Data.List.Perm.Basic
import Mathlib.Data.List.Pairwise
import Mathlib.Tactic

/-! Lists produced by several ordered sources whose entries interleave. Two such lists
with the same entries from each source differ only in how the sources cross, and with
a clock on the entries the crossings are read off the times. -/
namespace MessageApp
namespace Interleaving

variable {ι κ : Type} [DecidableEq κ]

theorem eq_of_map_eq_of_filter_eq (source : ι → κ) (l₁ l₂ : List ι)
    (hmap : l₁.map source = l₂.map source)
    (hsource : ∀ k, l₁.filter (fun x => source x = k) = l₂.filter (fun x => source x = k)) :
    l₁ = l₂ := by
  induction l₁ generalizing l₂ with
  | nil => simpa using hmap.symm
  | cons x l₁ ih =>
    cases l₂ with
    | nil => simp at hmap
    | cons y l₂ =>
      obtain ⟨hxy,htail⟩ : source x = source y ∧ l₁.map source = l₂.map source := by
        simpa using hmap
      have hhead : x = y := by
        have h := hsource (source y)
        simp only [List.filter_cons,hxy,decide_true,if_true,List.cons.injEq] at h
        exact h.1
      subst y
      congr 1
      refine ih l₂ htail fun k => ?_
      have h := hsource k
      by_cases hk : source x = k <;> simpa [hk] using h

theorem perm_of_filter_eq [DecidableEq ι] (source : ι → κ) {l₁ l₂ : List ι}
    (hsource : ∀ k, l₁.filter (fun x => source x = k) = l₂.filter (fun x => source x = k)) :
    l₁.Perm l₂ := by
  apply List.perm_iff_count.mpr
  intro x
  have h := congrArg (List.count x) (hsource (source x))
  rwa [List.count_filter (by simp),List.count_filter (by simp)] at h

theorem clocks_agree {τ₁ τ₂ : ι → ℕ} {l : List ι} (h₁ : l.Pairwise fun x y => τ₁ x < τ₁ y)
    (h₂ : l.Pairwise fun x y => τ₂ x < τ₂ y) {x y : ι} (hx : x ∈ l) (hy : y ∈ l)
    (hxy : τ₁ x < τ₁ y) : τ₂ x < τ₂ y := by
  let R : ι → ι → Prop := fun a b => (τ₁ a < τ₁ b ∧ τ₂ a < τ₂ b) ∨ (τ₁ b < τ₁ a ∧ τ₂ b < τ₂ a)
  have hboth : l.Pairwise R := (h₁.and h₂).imp fun h => Or.inl h
  have hsymm : Std.Symm R := ⟨fun a b h => h.symm⟩
  have hne : x ≠ y := by
    intro he
    subst he
    exact lt_irrefl _ hxy
  rcases hboth.forall hx hy hne with h | h
  · exact h.2
  · omega

/-- Two interleavings of the same sources, each sorted by its own clock, are equal
exactly when the clocks agree on every pair of entries from different sources. -/
theorem eq_iff_cross_agree [DecidableEq ι] (source : ι → κ) {τ₁ τ₂ : ι → ℕ} {l₁ l₂ : List ι}
    (h₁ : l₁.Pairwise fun x y => τ₁ x < τ₁ y) (h₂ : l₂.Pairwise fun x y => τ₂ x < τ₂ y)
    (hsource : ∀ k, l₁.filter (fun x => source x = k) = l₂.filter (fun x => source x = k)) :
    l₁ = l₂ ↔ ∀ x ∈ l₁, ∀ y ∈ l₁, source x ≠ source y → τ₁ x < τ₁ y → τ₂ x < τ₂ y := by
  constructor
  · intro he x hx y hy _ hxy
    exact clocks_agree h₁ (he ▸ h₂) hx hy hxy
  · intro hcross
    have hagree : ∀ x ∈ l₁, ∀ y ∈ l₁, τ₁ x < τ₁ y → τ₂ x < τ₂ y := by
      intro x hx y hy hxy
      by_cases hs : source x = source y
      · -- entries of one source keep its order in both lists
        have hx' : x ∈ l₁.filter fun z => source z = source y := by simp [hx,hs]
        have hy' : y ∈ l₁.filter fun z => source z = source y := by simp [hy]
        exact clocks_agree (h₁.filter _) (hsource (source y) ▸ h₂.filter _) hx' hy' hxy
      · exact hcross x hx y hy hs hxy
    have h₁' : l₁.Pairwise fun x y => τ₂ x < τ₂ y :=
      h₁.imp_of_mem fun hx hy hxy => hagree _ hx _ hy hxy
    refine List.Perm.eq_of_pairwise (fun a b _ _ hab hba => ?_) h₁' h₂ (perm_of_filter_eq source hsource)
    omega

theorem filter_moved (q : ι → Bool) (front before after : List ι) (x : ι)
    (hx : q x = true → ∀ y ∈ before, q y = false) :
    (front ++ [x] ++ (before ++ after)).filter q = (front ++ (before ++ x::after)).filter q := by
  simp only [List.filter_append,List.filter_cons,List.filter_nil]
  cases hq : q x with
  | false => simp
  | true =>
    have hb : before.filter q = [] := by
      simpa using hx hq
    simp [hb]

/-- Removing an entry of a class removes one entry of that class, behind those of the class that
stood in front of it. -/
theorem exists_filter_eraseIdx (q : ι → Bool) {l : List ι} {i : ℕ} {x : ι} (hx : l[i]? = some x)
    (hq : q x = true) :
    ∃ j : ℕ, (l.filter q)[j]? = some x ∧ (l.eraseIdx i).filter q = (l.filter q).eraseIdx j ∧
      (l.filter q).take j = (l.take i).filter q := by
  induction l generalizing i with
  | nil => simp at hx
  | cons a l ih =>
    cases i with
    | zero =>
      obtain rfl : a = x := by simpa using hx
      exact ⟨0,by simp [hq],by simp [hq],rfl⟩
    | succ i =>
      obtain ⟨j,hj,herase,htake⟩ := ih (by simpa using hx)
      cases ha : q a with
      | false =>
        exact ⟨j,by simpa [ha] using hj,by simpa [ha] using herase,by simpa [ha] using htake⟩
      | true =>
        exact ⟨j+1,by simpa [ha] using hj,by simpa [ha] using herase,by simpa [ha] using htake⟩

theorem filter_eraseIdx_of_neg (q : ι → Bool) {l : List ι} {i : ℕ} {x : ι} (hx : l[i]? = some x)
    (hq : q x = false) : (l.eraseIdx i).filter q = l.filter q := by
  induction l generalizing i with
  | nil => simp at hx
  | cons a l ih =>
    cases i with
    | zero =>
      obtain rfl : a = x := by simpa using hx
      simp [hq]
    | succ i => simp [List.filter_cons,ih (by simpa using hx)]

theorem filter_eq_cons_eraseIdx (q : ι → Bool) {l : List ι} {i : ℕ} {x : ι} (hx : l[i]? = some x)
    (hq : q x = true) (hfirst : ∀ y ∈ l.take i, q y = false) :
    l.filter q = x::(l.eraseIdx i).filter q := by
  induction l generalizing i with
  | nil => simp at hx
  | cons a l ih =>
    cases i with
    | zero =>
      obtain rfl : a = x := by simpa using hx
      simp [hq]
    | succ i =>
      have ha : q a = false := hfirst a (by simp)
      have htail := ih (i := i) (by simpa using hx) fun y hy => hfirst y (by simp [hy])
      simpa [ha] using htail

theorem exists_index_of_filter_eq_singleton (q : ι → Bool) {l : List ι} {x : ι}
    (h : l.filter q = [x]) :
    ∃ r : ℕ, l[r]? = some x ∧ ∀ k : ℕ, (∃ y, l[k]? = some y ∧ q y = true) ↔ k = r := by
  induction l with
  | nil => simp at h
  | cons a l ih =>
    cases hq : q a with
    | false =>
      obtain ⟨r,hr,hunique⟩ := ih (by simpa [hq] using h)
      refine ⟨r+1,by simpa using hr,fun k => ?_⟩
      cases k with
      | zero => simp [hq]
      | succ k => simpa using hunique k
    | true =>
      obtain ⟨hax,hl⟩ : a = x ∧ l.filter q = [] := by simpa [hq] using h
      subst a
      refine ⟨0,by simp,fun k => ?_⟩
      cases k with
      | zero => simp [hq]
      | succ k =>
        have hnone : ∀ y, l[k]? = some y → q y = false := by
          intro y hy
          simpa using List.filter_eq_nil_iff.mp hl y (List.mem_of_getElem? hy)
        constructor
        · rintro ⟨y,hy,hqy⟩
          have hf := hnone y (by simpa using hy)
          simp [hf] at hqy
        · intro hk
          omega

end Interleaving
end MessageApp
