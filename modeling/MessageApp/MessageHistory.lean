import MessageApp.Delivery
import MessageApp.Simulation

/-! What becomes of a message after it is sent. Boxes only grow, at the top, so a message that
was once shown stays as it was; and whatever is still in flight can be committed, one write
after the other, until every send is delivered. -/
namespace MessageApp

namespace NetworkEvent

def isCommit : NetworkEvent → Prop
  | .send _ => False
  | .commit _ _ => True

end NetworkEvent

/-- Documents in front of a snapshot move its rows down and change none. -/
theorem ChatViewController.cellForRowAt_front (vc : ChatViewController) (front docs : Snapshot)
    (row : ℕ) : (vc.mensagensSnapshot (some (front ++ docs))).cellForRowAt (front.length+row) =
      (vc.mensagensSnapshot (some docs)).cellForRowAt row := by
  have hrow : ((front ++ docs).map fun d => Message.ofDictionary d.2)[front.length+row]? =
      (docs.map fun d => Message.ofDictionary d.2)[row]? := by
    simp [List.getElem?_append_right]
  simp only [cellForRowAt,mensagensSnapshot,hrow]
  rfl

namespace Network

variable {users : Finset String} {s t : Network} {x y : String}

theorem log_suffix {es : List NetworkEvent} (h : (network users).exec s es = some t) :
    s.log <:+ t.log := by
  refine Machine.exec_invariant (m := network users) (P := fun t => s.log <:+ t.log) ?_
    (List.suffix_refl _) h
  intro t e u hst hstep
  rcases step_cases hstep with ⟨e,_,_,rfl⟩ | ⟨i,time,p,_,_,_,rfl⟩
  · exact hst
  · exact hst.trans (List.suffix_cons _ _)

theorem Accounted.consulta_suffix (hs : Accounted users s) (ht : Accounted users t)
    (hlog : s.log <:+ t.log) (x y : String) :
    consultaMensagens s.store x y <:+ consultaMensagens t.store x y := by
  rw [hs.consulta_eq,ht.consulta_eq]
  exact (hlog.filter _).map _

theorem Accounted.consulta_ids_nodup (h : Accounted users s) (x y : String) :
    ((consultaMensagens s.store x y).map Prod.fst).Nodup := by
  rw [h.consulta_eq,List.map_map]
  exact h.boxLog_ids_nodup x y

theorem step_commit {e : NetworkEvent} (he : e.isCommit) (h : s.step users e = some t) :
    t.sends = s.sends ∧ t.inFlight.length + 1 = s.inFlight.length := by
  rcases step_cases h with ⟨m,rfl,_,_⟩ | ⟨i,time,p,_,hp,_,rfl⟩
  · exact he.elim
  · obtain ⟨hi,_⟩ := List.getElem?_eq_some_iff.mp hp
    refine ⟨rfl,?_⟩
    have hlength := List.length_eraseIdx_of_lt hi
    simp only [hlength]
    omega

theorem exec_commits {cs : List NetworkEvent} (hcs : ∀ c ∈ cs, c.isCommit)
    (h : (network users).exec s cs = some t) :
    t.sends = s.sends ∧ cs.length + t.inFlight.length = s.inFlight.length := by
  induction cs generalizing s with
  | nil =>
    obtain rfl : s = t := Option.some.inj h
    exact ⟨rfl,Nat.zero_add _⟩
  | cons c cs ih =>
    obtain ⟨u,hu,hut⟩ := Machine.exec_cons_eq.mp h
    obtain ⟨hsends,hlength⟩ := step_commit (hcs c (by simp)) hu
    obtain ⟨hsends',hlength'⟩ := ih (fun d hd => hcs d (by simp [hd])) hut
    refine ⟨hsends'.trans hsends,?_⟩
    simp only [List.length_cons]
    omega

/-- The oldest write in flight can always be committed, on the ordered network too. -/
theorem commit_oldest (users : Finset String) (s : Network) (hfly : s.inFlight.length ≠ 0) :
    ∃ e t, e.isCommit ∧ s.orderedStep users e = some t ∧ t.sends = s.sends ∧
      t.inFlight.length < s.inFlight.length := by
  obtain ⟨p,rest,hp⟩ := List.exists_cons_of_length_pos (Nat.pos_of_ne_zero hfly)
  refine ⟨.commit 0 (s.clock+1),{ s with
    store := s.store.commit (s.clock+1) p.write
    clock := s.clock+1
    inFlight := rest
    log := ⟨s.clock+1,p⟩::s.log },trivial,?_,rfl,?_⟩
  · simp [orderedStep,FirstOfClient,step,hp]
  · simp [hp]

end Network

section
variable {users : Finset String} {es : List NetworkEvent} {s : Network}

/-- A message that a chat shows is shown unchanged in every later state, in the same order and
below the ones that came after it, whatever is sent and committed in between. -/
theorem messages_permanent (run : (network users).exec Network.start es = some s)
    {later : List NetworkEvent} {t : Network} (hlater : (network users).exec s later = some t)
    (x y : String) :
    consultaMensagens s.store x y <:+ consultaMensagens t.store x y ∧
    ((consultaMensagens t.store x y).map Prod.fst).Nodup ∧
    ∃ new : ℕ, ∀ (vc : ChatViewController) (row : ℕ) (cell : Side × Message),
      (vc.mensagensSnapshot (some (consultaMensagens s.store x y))).cellForRowAt row = some cell →
      (vc.mensagensSnapshot (some (consultaMensagens t.store x y))).cellForRowAt (new+row) =
        some cell := by
  have hs := Network.Accounted.of_exec run
  have ht := Network.Accounted.of_exec (Machine.exec_trans run hlater)
  have hsuffix := hs.consulta_suffix ht (Network.log_suffix hlater) x y
  refine ⟨hsuffix,ht.consulta_ids_nodup x y,?_⟩
  obtain ⟨front,hfront⟩ := hsuffix
  refine ⟨front.length,fun vc row cell hcell => ?_⟩
  rw [← hfront,ChatViewController.cellForRowAt_front]
  exact hcell

theorem messages_permanent_oi :
    ∃ s t, (network {"u1","u2"}).exec Network.start oiDelivered = some s ∧
      (network {"u1","u2"}).exec s [.send sendOla,.commit 0 5] = some t ∧
      consultaMensagens s.store "u2" "u1" <:+ consultaMensagens t.store "u2" "u1" :=
  ⟨_,_,rfl,rfl,(@messages_permanent {"u1","u2"} oiDelivered _ rfl [.send sendOla,.commit 0 5] _
    rfl "u2" "u1").1⟩

/-- From every state of the ordered network commits alone deliver all sends: some run of them
leaves nothing in flight and every send between two users in both their chats; and no run of
commits is longer than what is in flight, each settling one write. -/
theorem delivery_reachable (run : (orderedNetwork users).exec Network.start es = some s) :
    (∃ cs t, (∀ c ∈ cs, c.isCommit) ∧ (orderedNetwork users).exec s cs = some t ∧
      t.inFlight = [] ∧ t.sends = s.sends ∧
      ∀ a b, a ≠ b → ∀ e ∈ s.sends, e.Between a b →
        ShownOnce t.store a b e a .outgoing ∧ ShownOnce t.store b a e a .incoming) ∧
    ∀ cs t, (∀ c ∈ cs, c.isCommit) → (orderedNetwork users).exec s cs = some t →
      t.sends = s.sends ∧ cs.length + t.inFlight.length = s.inFlight.length := by
  refine ⟨?_,fun cs t hcs ht => Network.exec_commits hcs (orderedNetwork_exec ht)⟩
  obtain ⟨cs,t,hcs,ht,hsends,hzero⟩ := Machine.exists_exec_of_measure (m := orderedNetwork users)
    (P := fun t => t.sends = s.sends) (Q := NetworkEvent.isCommit) (fun t => t.inFlight.length)
    (fun t hsends hfly => by
      obtain ⟨e,u,he,hu,hsame,hlt⟩ := Network.commit_oldest users t hfly
      exact ⟨e,u,he,hu,hsame.trans hsends,hlt⟩) (rfl : s.sends = s.sends)
  have hquiet : t.inFlight = [] := List.length_eq_zero_iff.mp hzero
  refine ⟨cs,t,hcs,ht,hquiet,hsends,fun a b hab e he hb => ?_⟩
  have hacc := Network.Accounted.of_exec (orderedNetwork_exec (Machine.exec_trans run ht))
  exact hacc.shownBoth hquiet hab (hsends ▸ he) hb

theorem delivery_reachable_oi :
    ∃ s cs t, (orderedNetwork {"u1","u2"}).exec Network.start [.send sendOi] = some s ∧
      (orderedNetwork {"u1","u2"}).exec s cs = some t ∧ t.inFlight = [] ∧
      ShownOnce t.store "u2" "u1" sendOi "u1" .incoming := by
  obtain ⟨⟨cs,t,_,ht,hquiet,_,hshown⟩,_⟩ :=
    @delivery_reachable {"u1","u2"} [.send sendOi] _ rfl
  have hboth := hshown "u1" "u2" (by decide) sendOi (List.mem_singleton.mpr rfl) ⟨rfl,rfl⟩
  exact ⟨_,cs,t,rfl,ht,hquiet,hboth.2⟩

end
end MessageApp
