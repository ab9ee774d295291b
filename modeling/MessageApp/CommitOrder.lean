import MessageApp.Delivery

/-! Commit order on the ordered network. Within one client the commits follow the order of
issue, so the commit times of any two of its writes are ordered as they were issued; between
two clients nothing is fixed. -/
namespace MessageApp
namespace Network

variable {users : Finset String} {s t : Network}

/-- The committed and the waiting writes of every client, one after the other, are the
writes it issued, in the order of issue. -/
def Ordered (s : Network) : Prop :=
  ∀ u, (s.log.reverse.map Commit.pending ++ s.inFlight).filter (fun p => p.client = u) =
    (issuedFrom 0 s.sends).filter fun p => p.client = u

theorem ordered_start : Ordered start := by
  intro u
  simp [start,issuedFrom]

theorem Ordered.step {ev : NetworkEvent} (h : Ordered s)
    (hstep : s.orderedStep users ev = some t) : Ordered t := by
  obtain ⟨hfirst,hstep⟩ := Option.ite_none_right_eq_some.mp hstep
  rcases step_cases hstep with ⟨e,_,_,rfl⟩ | ⟨i,time,p,rfl,hp,_,rfl⟩
  · intro u
    rw [issuedFrom_append,Nat.zero_add]
    simp only [← List.append_assoc]
    rw [List.filter_append,List.filter_append _ (e.issue _),h u]
  · intro u
    obtain ⟨hi,hget⟩ := List.getElem?_eq_some_iff.mp hp
    have hsplit : s.inFlight = s.inFlight.take i ++ p::s.inFlight.drop (i+1) := by
      rw [← hget,List.getElem_cons_drop hi,List.take_append_drop]
    have hbefore : decide (p.client = u) = true →
        ∀ q ∈ s.inFlight.take i, decide (q.client = u) = false := by
      intro hpu q hq
      have hne := hfirst p hp q hq
      simp only [decide_eq_true_eq] at hpu
      simpa [hpu] using hne
    have hmoved := Interleaving.filter_moved (fun q : Pending => decide (q.client = u))
      (s.log.reverse.map Commit.pending) (s.inFlight.take i) (s.inFlight.drop (i+1)) p hbefore
    rw [← hsplit,h u] at hmoved
    simpa [List.eraseIdx_eq_take_drop_succ] using hmoved

theorem Ordered.of_exec {es : List NetworkEvent}
    (h : (orderedNetwork users).exec Network.start es = some s) : Ordered s :=
  Machine.exec_invariant (m := orderedNetwork users) (P := Ordered)
    (fun _ _ _ hs hst => hs.step hst) ordered_start h

def stamp (s : Network) (n : ℕ) (part : Part) : ℕ :=
  ((s.log.find? fun c => c.pending.send = n ∧ c.pending.part = part).map Commit.time).getD 0

end Network

def Pending.key (p : Pending) : ℕ × Part := (p.send,p.part)

theorem issue_keys_sublist (n : ℕ) (e : Send) :
    ((e.issue n).map Pending.key).Sublist
      [(n,.ownMessage),(n,.peerMessage),(n,.ownPreview),(n,.peerPreview)] := by
  cases hv : e.vc.idContato with
  | none => simp [Send.issue_none hv]
  | some v => simp [Send.issue,Send.writes,ChatViewController.actionPushMessage,hv,Pending.key]

theorem issuedFrom_keys_nodup (n : ℕ) (es : List Send) :
    ((issuedFrom n es).map Pending.key).Nodup := by
  induction es generalizing n with
  | nil => simp [issuedFrom]
  | cons e es ih =>
    rw [issuedFrom,List.map_append]
    refine List.Nodup.append ((issue_keys_sublist n e).nodup (by simp)) (ih (n+1)) ?_
    intro k hk hk'
    obtain ⟨p,hp,rfl⟩ := List.mem_map.mp hk
    obtain ⟨q,hq,hqp⟩ := List.mem_map.mp hk'
    obtain ⟨j,e',_,hq⟩ := mem_issuedFrom.mp hq
    have hsend : q.send = p.send := congrArg Prod.fst hqp
    rw [send_of_mem_issue hp,send_of_mem_issue hq] at hsend
    omega

namespace Network

variable {users : Finset String} {s : Network}

theorem Accounted.stamp_eq (h : Accounted users s) {c : Commit} (hc : c ∈ s.log) :
    s.stamp c.pending.send c.pending.part = c.time := by
  have hkeys : (s.log.map fun c => c.pending.key).Nodup := by
    have hall := (h.accounted.map Pending.key).nodup_iff.mpr (issuedFrom_keys_nodup 0 s.sends)
    rw [List.map_append,List.map_map] at hall
    exact hall.of_append_left
  obtain ⟨d,hd⟩ : ∃ d, s.log.find? (fun d => decide (d.pending.send = c.pending.send ∧
      d.pending.part = c.pending.part)) = some d := by
    apply Option.isSome_iff_exists.mp
    rw [List.find?_isSome]
    exact ⟨c,hc,by simp⟩
  have hkey : d.pending.key = c.pending.key := by
    have h := List.find?_some hd
    simp only [decide_eq_true_eq] at h
    exact Prod.ext h.1 h.2
  have hdc : d = c := List.inj_on_of_nodup_map hkeys (List.mem_of_find?_eq_some hd) hc hkey
  rw [stamp,hd,hdc]
  rfl

theorem Accounted.committed (h : Accounted users s) (quiet : s.inFlight = []) {p : Pending}
    (hp : p ∈ issuedFrom 0 s.sends) : ∃ c ∈ s.log, c.pending = p := by
  have hmem := h.accounted.symm.subset hp
  rw [quiet,List.append_nil] at hmem
  exact List.mem_map.mp hmem

theorem Accounted.stamp_ne (h : Accounted users s) (quiet : s.inFlight = []) {p q : Pending}
    (hp : p ∈ issuedFrom 0 s.sends) (hq : q ∈ issuedFrom 0 s.sends) (hpq : p ≠ q) :
    s.stamp p.send p.part ≠ s.stamp q.send q.part := by
  obtain ⟨c,hc,rfl⟩ := h.committed quiet hp
  obtain ⟨d,hd,rfl⟩ := h.committed quiet hq
  rw [h.stamp_eq hc,h.stamp_eq hd]
  intro htime
  have htimes : (s.log.map Commit.time).Nodup := by
    rw [List.Nodup,List.pairwise_map]
    exact h.sorted.imp fun hab => Nat.ne_of_gt hab
  exact hpq (congrArg Commit.pending (List.inj_on_of_nodup_map htimes hc hd htime))

theorem Ordered.stamp_lt (hord : Ordered s) (h : Accounted users s) (quiet : s.inFlight = [])
    {p q : Pending} {u : String}
    (hpq : [p,q].Sublist ((issuedFrom 0 s.sends).filter fun p => p.client = u)) :
    s.stamp p.send p.part < s.stamp q.send q.part := by
  rw [← hord u,quiet,List.append_nil,List.filter_map] at hpq
  obtain ⟨l,hl,hmap⟩ := List.sublist_map_iff.mp hpq
  obtain ⟨c,d,rfl,rfl,rfl⟩ : ∃ c d, l = [c,d] ∧ p = c.pending ∧ q = d.pending := by
    match l,hmap with
    | [c,d],hmap =>
      simp only [List.map_cons,List.map_nil,List.cons.injEq,and_true] at hmap
      exact ⟨c,d,rfl,hmap.1,hmap.2⟩
  have hlog : [c,d].Sublist s.log.reverse := hl.trans List.filter_sublist
  have hsorted : s.log.reverse.Pairwise fun a b => a.time < b.time :=
    List.pairwise_reverse.mpr h.sorted
  have htime : c.time < d.time := by
    simpa using hsorted.sublist hlog
  rw [h.stamp_eq (List.mem_reverse.mp (hlog.subset (by simp))),
    h.stamp_eq (List.mem_reverse.mp (hlog.subset (by simp)))]
  exact htime

end Network

theorem issue_sublist {es : List Send} {n : ℕ} {e : Send} (he : es[n]? = some e) :
    (e.issue n).Sublist (issuedFrom 0 es) := by
  have h := filter_send_issuedFrom (n := 0) he
  rw [Nat.zero_add] at h
  rw [← h]
  exact List.filter_sublist

theorem pair_sublist_issuedFrom {es : List Send} {k m n : ℕ} {e f : Send} (he : es[m]? = some e)
    (hf : es[n]? = some f) (hmn : m < n) {p q : Pending} (hp : p ∈ e.issue (k+m))
    (hq : q ∈ f.issue (k+n)) : [p,q].Sublist (issuedFrom k es) := by
  induction es generalizing k m n with
  | nil => simp at he
  | cons a es ih =>
    cases n with
    | zero => omega
    | succ n =>
      have hq' : q ∈ f.issue (k+1+n) := by
        rwa [Nat.add_assoc,Nat.add_comm 1]
      cases m with
      | zero =>
        obtain rfl : a = e := by simpa using he
        have hrest : q ∈ issuedFrom (k+1) es := mem_issuedFrom.mpr ⟨n,f,by simpa using hf,hq'⟩
        exact (List.singleton_sublist.mpr hp).append (List.singleton_sublist.mpr hrest)
      | succ m =>
        have hp' : p ∈ e.issue (k+1+m) := by
          rwa [Nat.add_assoc,Nat.add_comm 1]
        have htail := ih (by simpa using he) (by simpa using hf) (by omega) hp' hq'
        exact htail.trans (List.sublist_append_right _ _)

end MessageApp
