import Mathlib.Data.List.AList
import Mathlib.Data.List.Nodup
import Mathlib.Tactic

/-! A keyed table built by replaying a log of assignments. The log is kept with its
newest entry first: a lookup reads the newest assignment of a key, and the keys that
were assigned only once are listed in the order of the log. -/
namespace MessageApp
namespace KeyedLog

variable {κ β : Type} [DecidableEq κ]

abbrev Table (κ β : Type) [DecidableEq κ] := AList fun _ : κ => β

def replay : List (κ × β) → Table κ β
  | [] => ∅
  | e::log => (replay log).insert e.1 e.2

theorem lookup_replay (log : List (κ × β)) (k : κ) :
    (replay log).lookup k = (log.find? fun e => e.1 = k).map Prod.snd := by
  induction log with
  | nil => rfl
  | cons e log ih =>
    by_cases h : e.1 = k
    · subst h
      simp [replay,AList.lookup_insert]
    · have hk : k ≠ e.1 := fun hk => h hk.symm
      simp [replay,AList.lookup_insert_ne hk,ih,h]

theorem mem_keys_replay (log : List (κ × β)) (k : κ) :
    k ∈ (replay log).entries.keys ↔ k ∈ log.map Prod.fst := by
  induction log with
  | nil => simp [replay]
  | cons e log ih =>
    by_cases h : k = e.1
    · simp [replay,AList.entries_insert,h]
    · simp [replay,AList.entries_insert,List.mem_keys_kerase_of_ne h,ih,h]

theorem filter_kerase (q : κ → Bool) {k : κ} (hk : q k = false) (l : List (Sigma fun _ : κ => β)) :
    (l.kerase k).filter (fun e => q e.1) = l.filter (fun e => q e.1) := by
  induction l with
  | nil => simp
  | cons e l ih =>
    by_cases h : k = e.1
    · have he : q e.1 = false := h ▸ hk
      rw [List.kerase_cons_eq h,List.filter_cons_of_neg (by simp [he])]
    · rw [List.kerase_cons_ne h]
      simp only [List.filter_cons,ih]

theorem kerase_filter (q : κ → Bool) {k : κ} (hk : q k = true) (l : List (Sigma fun _ : κ => β)) :
    (l.kerase k).filter (fun e => q e.1) = (l.filter fun e => q e.1).kerase k := by
  induction l with
  | nil => simp
  | cons e l ih =>
    by_cases h : k = e.1
    · have he : q e.1 = true := h ▸ hk
      simp only [List.kerase_cons_eq h,List.filter_cons,he,if_true]
    · rw [List.kerase_cons_ne h]
      cases he : q e.1 with
      | false => simp [he,ih]
      | true => simp [he,ih,List.kerase_cons_ne h]

/-- Keys of a class that is never overwritten appear exactly in the order of the log. -/
theorem filter_entries_replay (q : κ → Bool) (log : List (κ × β))
    (hnodup : ((log.map Prod.fst).filter q).Nodup) :
    (replay log).entries.filter (fun e => q e.1) =
      (log.filter fun e => q e.1).map fun e => ⟨e.1,e.2⟩ := by
  induction log with
  | nil => rfl
  | cons e log ih =>
    cases hq : q e.1 with
    | false =>
      have hn : ((log.map Prod.fst).filter q).Nodup := by simpa [hq] using hnodup
      simp [replay,AList.entries_insert,hq,filter_kerase q hq,ih hn]
    | true =>
      simp only [List.map_cons,List.filter_cons_of_pos hq,List.nodup_cons] at hnodup
      have hfresh : e.1 ∉ (replay log).entries.keys := by
        intro hmem
        exact hnodup.1 (List.mem_filter.mpr ⟨(mem_keys_replay log e.1).mp hmem,hq⟩)
      simp [replay,AList.entries_insert,hq,List.kerase_of_notMem_keys hfresh,ih hnodup.2]

end KeyedLog
end MessageApp
