import MessageApp.PostOffice
import MessageApp.Simulation
import MessageApp.ConversationOrder
import MessageApp.Preview

/-! The ordered network as a post office: a send posts a letter, a commit is the next stage of
its author's letters, the message boxes and the previews are what the stages left. What the
post office guarantees holds in every state of the network, with any writes still in flight. -/
namespace MessageApp

open PostOffice

def Part.stage : Part → Stage
  | .ownMessage => .ownCopy
  | .peerMessage => .peerCopy
  | .ownPreview => .ownNotice
  | .peerPreview => .peerNotice

/-- A send in a chat without a contact writes nothing. -/
def Send.letter (e : Send) : Option (Letter String String) :=
  e.vc.idContato.map fun v => ⟨e.vc.idUsuarioLogado.getD "",v,e.texto⟩

def Pending.effect (sends : List Send) (p : Pending) : Option (Effect String String) :=
  sends[p.send]?.bind fun e => e.letter.map fun l => ⟨l,p.part.stage⟩

theorem Send.letter_eq {e : Send} {u v : String} (h : e.Between u v) :
    e.letter = some ⟨u,v,e.texto⟩ := by
  simp [letter,h.1,h.2]

structure Network.Refines (s : Network) (o : Office String String) : Prop where
  letters : o.letters = s.sends.filterMap Send.letter
  queue : ∀ u, (o.queue u).map some =
    (s.inFlight.filter fun p => p.client = u).map (Pending.effect s.sends)
  done : o.done.map some = s.log.map fun c => c.pending.effect s.sends

namespace Network

variable {users : Finset String} {s t : Network} {o : Office String String} {x y : String}

theorem Accounted.pending_cases (h : Accounted users s) {p : Pending}
    (hp : p ∈ issuedFrom 0 s.sends) :
    ∃ (n : ℕ) (e : Send) (u v : String), s.sends[n]? = some e ∧ e.Between u v ∧ (p = e.ownMessage n u v ∨
      p = e.peerMessage n u v ∨ p = e.ownPreview n u v ∨ p = e.peerPreview n u v) := by
  obtain ⟨n,e,he,hp⟩ := mem_issuedFrom.mp hp
  rw [Nat.zero_add] at hp
  rcases h.registered e (List.mem_of_getElem? he) with hnone | ⟨u,_,v,_,hb⟩
  · simp [Send.issue_none hnone] at hp
  · rw [Send.issue_eq hb] at hp
    exact ⟨n,e,u,v,he,hb,by simpa using hp⟩

theorem Accounted.issued_of_inFlight (h : Accounted users s) {p : Pending} (hp : p ∈ s.inFlight) :
    p ∈ issuedFrom 0 s.sends :=
  h.accounted.subset (List.mem_append_right _ hp)

theorem effect_append {es : List Send} {p : Pending} (hp : p ∈ issuedFrom 0 es) (e : Send) :
    p.effect (es ++ [e]) = p.effect es := by
  obtain ⟨k,f,hf,hp⟩ := mem_issuedFrom.mp hp
  have hsend : p.send = k := (send_of_mem_issue hp).trans (Nat.zero_add k)
  obtain ⟨hk,_⟩ := List.getElem?_eq_some_iff.mp hf
  rw [Pending.effect,Pending.effect,hsend,List.getElem?_append_left hk]

theorem effect_issue {es : List Send} {e : Send} {u v : String} (h : e.Between u v) :
    (e.issue es.length).map (Pending.effect (es ++ [e])) =
      (Letter.effects ⟨u,v,e.texto⟩).map some := by
  simp [Send.issue_eq h,Pending.effect,Send.ownMessage,Send.peerMessage,Send.ownPreview,
    Send.peerPreview,Send.letter_eq h,Letter.effects,Part.stage]

theorem refines_start : start.Refines Office.start := ⟨rfl,fun _ => rfl,rfl⟩

theorem Refines.send (h : s.Refines o) (hacc : Accounted users s) {e : Send}
    (hadm : Admissible users s.sends e) :
    ∃ fs b, (office String String).exec o fs = some b ∧
      Refines { s with inFlight := s.inFlight ++ e.issue s.sends.length, sends := s.sends ++ [e] } b := by
  have hfly : ∀ u, (s.inFlight.filter fun p => p.client = u).map (Pending.effect (s.sends ++ [e])) =
      (s.inFlight.filter fun p => p.client = u).map (Pending.effect s.sends) := fun u =>
    List.map_congr_left fun p hp =>
      effect_append (hacc.issued_of_inFlight (List.mem_filter.mp hp).1) e
  have hlog : s.log.map (fun c => c.pending.effect (s.sends ++ [e])) =
      s.log.map fun c => c.pending.effect s.sends :=
    List.map_congr_left fun c hc => effect_append (hacc.issued_of_log hc) e
  rcases Send.between_or_none hadm with hnone | ⟨u,_,v,_,hb⟩
  · refine ⟨[],o,rfl,?_,fun w => ?_,h.done.trans hlog.symm⟩
    · simp [h.letters,Send.letter,hnone]
    · simp only [Send.issue_none hnone,List.append_nil]
      exact (h.queue w).trans (hfly w).symm
  · refine ⟨[.post ⟨u,v,e.texto⟩],_,rfl,?_,fun w => ?_,h.done.trans hlog.symm⟩
    · simp [h.letters,Send.letter_eq hb]
    · rw [List.filter_append,List.map_append,hfly]
      by_cases hw : u = w
      · subst hw
        have hall : (e.issue s.sends.length).filter (fun p => p.client = u) = e.issue s.sends.length :=
          List.filter_eq_self.mpr fun p hp => by simpa using client_of_mem_issue hb hp
        rw [hall,effect_issue hb,← h.queue u]
        simp
      · have hnone : (e.issue s.sends.length).filter (fun p => p.client = w) = [] := by
          refine List.filter_eq_nil_iff.mpr fun p hp => ?_
          simpa [client_of_mem_issue hb hp] using hw
        have hne : w ≠ u := fun he => hw he.symm
        rw [hnone,List.map_nil,List.append_nil,← h.queue w]
        simp [Function.update_of_ne hne]

/-- A commit of the first write of a client is the next stage of that author. -/
theorem Refines.commit (h : s.Refines o) {i time : ℕ} {p : Pending} (hp : s.inFlight[i]? = some p)
    (hfirst : ∀ q ∈ s.inFlight.take i, q.client ≠ p.client) :
    ∃ fs b, (office String String).exec o fs = some b ∧
      Refines { s with
        store := s.store.commit time p.write
        clock := time
        inFlight := s.inFlight.eraseIdx i
        log := ⟨time,p⟩::s.log } b := by
  have hhead := Interleaving.filter_eq_cons_eraseIdx (fun q : Pending => decide (q.client = p.client))
    hp (by simp) fun q hq => by simpa using hfirst q hq
  have hqueue := h.queue p.client
  rw [hhead,List.map_cons] at hqueue
  obtain ⟨e,rest,hq,he,hrest⟩ := List.map_eq_cons_iff.mp hqueue
  refine ⟨[.act p.client],{ o with
    done := e::o.done
    queue := Function.update o.queue p.client rest },?_,h.letters,fun u => ?_,?_⟩
  · refine Machine.exec_cons_eq.mpr ⟨_,?_,rfl⟩
    change o.step (.act p.client) = _
    simp [Office.step,hq]
  · by_cases hu : p.client = u
    · subst hu
      simpa using hrest
    · have hne : u ≠ p.client := fun he => hu he.symm
      have hother := Interleaving.filter_eraseIdx_of_neg (fun q : Pending => decide (q.client = u)) hp
        (by simpa using hu)
      simp only [Function.update_of_ne hne,hother]
      exact h.queue u
  · simp [h.done,he]

/-- Every step of the ordered network is answered by the post office. -/
theorem Refines.step (h : s.Refines o) (hacc : Accounted users s) {ev : NetworkEvent}
    (hstep : s.orderedStep users ev = some t) :
    ∃ fs b, (office String String).exec o fs = some b ∧ t.Refines b := by
  obtain ⟨hfirst,hstep⟩ := Option.ite_none_right_eq_some.mp hstep
  rcases step_cases hstep with ⟨e,_,hadm,rfl⟩ | ⟨i,time,p,rfl,hp,_,rfl⟩
  · exact h.send hacc hadm
  · exact h.commit hp (hfirst p hp)

theorem Refines.of_exec {es : List NetworkEvent}
    (run : (orderedNetwork users).exec start es = some s) :
    ∃ fs o, (office String String).exec Office.start fs = some o ∧ s.Refines o := by
  have hrun := Machine.exec_simulation (m := orderedNetwork users) (n := office String String)
    (R := fun s o => Refines s o ∧ Accounted users s) ?_ ⟨refines_start,accounted_start⟩ run
  · obtain ⟨fs,o,hfs,ho,_⟩ := hrun
    exact ⟨fs,o,hfs,ho⟩
  · rintro s e t o ⟨h,hacc⟩ hstep
    obtain ⟨fs,b,hfs,hb⟩ := h.step hacc hstep
    exact ⟨fs,b,hfs,hb,hacc.step (Option.ite_none_right_eq_some.mp hstep).2⟩

end Network

section
variable {α β γ : Type}

theorem filterMap_of_map_some {l : List β} {l' : List α} {g : α → Option β} (h : l.map some = l'.map g)
    (f : β → Option γ) : l.filterMap f = l'.filterMap fun a => (g a).bind f := by
  have hl : l.filterMap f = (l.map some).filterMap fun b => b.bind f := by
    simp [List.filterMap_map]
  rw [hl,h,List.filterMap_map]
  rfl

theorem findSome?_of_map_some {l : List β} {l' : List α} {g : α → Option β} (h : l.map some = l'.map g)
    (f : β → Option γ) : l.findSome? f = l'.findSome? fun a => (g a).bind f := by
  have hl : l.findSome? f = (l.map some).findSome? fun b => b.bind f := by
    simp [List.findSome?_map,Function.comp_def]
  rw [hl,h,List.findSome?_map]
  rfl

theorem findSome?_eq_find?_bind {l : List α} {f t : α → Option β} {q : α → Bool}
    (h : ∀ a ∈ l, f a = if q a then t a else none) (ht : ∀ a ∈ l, q a = true → (t a).isSome) :
    l.findSome? f = (l.find? q).bind t := by
  induction l with
  | nil => rfl
  | cons a l ih =>
    have htail := ih (fun b hb => h b (by simp [hb])) fun b hb => ht b (by simp [hb])
    have ha := h a (by simp)
    cases hq : q a with
    | false => simpa [hq,ha] using htail
    | true =>
      obtain ⟨b,hb⟩ := Option.isSome_iff_exists.mp (ht a (by simp) hq)
      simp [hq,ha,hb]

theorem filterMap_eq_map_filter {l : List α} {f : α → Option β} {t : α → β} {q : α → Bool}
    (h : ∀ a ∈ l, f a = if q a then some (t a) else none) : l.filterMap f = (l.filter q).map t := by
  induction l with
  | nil => rfl
  | cons a l ih =>
    have htail := ih fun b hb => h b (by simp [hb])
    have ha := h a (by simp)
    cases hq : q a <;> simp [hq,ha,htail]

end

namespace Network

variable {users : Finset String} {s : Network} {o : Office String String} {x y : String}

def decoded (m : String × String) : Option String × Option String := (some m.1,some m.2)

theorem Accounted.effect_cases (h : Accounted users s) {p : Pending} (hp : p ∈ issuedFrom 0 s.sends) :
    ∃ (n : ℕ) (e : Send) (u v : String), p.effect s.sends = some ⟨⟨u,v,e.texto⟩,p.part.stage⟩ ∧
      (p = e.ownMessage n u v ∨ p = e.peerMessage n u v ∨ p = e.ownPreview n u v ∨
        p = e.peerPreview n u v) := by
  obtain ⟨n,e,u,v,he,hb,hcases⟩ := h.pending_cases hp
  refine ⟨n,e,u,v,?_,hcases⟩
  have hsend : p.send = n := by
    rcases hcases with rfl | rfl | rfl | rfl <;> rfl
  simp [Pending.effect,hsend,he,Send.letter_eq hb]

theorem Accounted.effect_intoBox (h : Accounted users s) {p : Pending}
    (hp : p ∈ issuedFrom 0 s.sends) (x y : String) :
    ((p.effect s.sends).bind (Effect.intoBox x y)).map decoded =
      if inBox x y p then some (said p.write.data) else none := by
  obtain ⟨n,e,u,v,heffect,hcases⟩ := h.effect_cases hp
  rw [heffect]
  rcases hcases with rfl | rfl | rfl | rfl
  · by_cases hxy : u = x ∧ v = y <;>
      simp [Effect.intoBox,Send.ownMessage,Part.stage,inBox,Write.path,Write.data,decoded,hxy]
  · by_cases hxy : v = x ∧ u = y <;>
      simp [Effect.intoBox,Send.peerMessage,Part.stage,inBox,Write.path,Write.data,decoded,hxy]
  · simp [Effect.intoBox,Send.ownPreview,Part.stage,inBox,Write.path]
  · simp [Effect.intoBox,Send.peerPreview,Part.stage,inBox,Write.path]

theorem Accounted.effect_announces (h : Accounted users s) {p : Pending}
    (hp : p ∈ issuedFrom 0 s.sends) (x y : String) :
    (p.effect s.sends).bind (Effect.announces x y) =
      if setsPreview x y p then (Conversa.ofDictionary p.write.data).ultimaMensagem else none := by
  obtain ⟨n,e,u,v,heffect,hcases⟩ := h.effect_cases hp
  rw [heffect]
  have hne : ∀ a b c : String, mensagens a b ≠ ultimasConversas c :=
    fun a b c => (ultimasConversas_ne_mensagens c a b).symm
  rcases hcases with rfl | rfl | rfl | rfl
  · simp [Effect.announces,Send.ownMessage,Part.stage,setsPreview,Write.path,hne]
  · simp [Effect.announces,Send.peerMessage,Part.stage,setsPreview,Write.path,hne]
  · by_cases hxy : u = x ∧ v = y <;>
      simp [Effect.announces,Send.ownPreview,Part.stage,setsPreview,Write.path,Write.data,
        Conversa.ofDictionary,hxy]
  · by_cases hxy : v = x ∧ u = y <;>
      simp [Effect.announces,Send.peerPreview,Part.stage,setsPreview,Write.path,Write.data,
        Conversa.ofDictionary,hxy]

theorem Accounted.setsPreview_text (h : Accounted users s) {p : Pending}
    (hp : p ∈ issuedFrom 0 s.sends) (hset : setsPreview x y p = true) :
    (Conversa.ofDictionary p.write.data).ultimaMensagem.isSome := by
  obtain ⟨n,e,u,v,_,hcases⟩ := h.effect_cases hp
  have hpath : p.write.path = ⟨ultimasConversas x,y⟩ := by simpa [setsPreview] using hset
  rcases hcases with rfl | rfl | rfl | rfl
  · exact absurd (congrArg DocPath.collection hpath).symm (ultimasConversas_ne_mensagens _ _ _)
  · exact absurd (congrArg DocPath.collection hpath).symm (ultimasConversas_ne_mensagens _ _ _)
  · simp [Conversa.ofDictionary,Send.ownPreview,Write.data]
  · simp [Conversa.ofDictionary,Send.peerPreview,Write.data]

theorem Refines.conversation_eq (h : s.Refines o) (hacc : Accounted users s) (x y : String) :
    conversation s.store x y = (o.box x y).map decoded := by
  rw [hacc.conversation_eq,boxLog,Office.box,List.map_filterMap,filterMap_of_map_some h.done]
  refine (filterMap_eq_map_filter fun c hc => ?_).symm
  rw [← hacc.effect_intoBox (hacc.issued_of_log hc) x y]
  cases c.pending.effect s.sends <;> rfl

theorem Refines.preview_eq (h : s.Refines o) (hacc : Accounted users s) (x y : String) :
    preview s.store x y = o.notice x y := by
  rw [hacc.preview_eq,Office.notice,findSome?_of_map_some h.done]
  exact (findSome?_eq_find?_bind
    (fun c hc => hacc.effect_announces (hacc.issued_of_log hc) x y)
    fun c hc hset => hacc.setsPreview_text (hacc.issued_of_log hc) hset).symm

theorem Refines.posted_eq (h : s.Refines o) (hacc : Accounted users s) (x y : String) :
    o.posted x y = (s.sends.filter fun e => e.Between x y).map Send.texto := by
  rw [Office.posted,h.letters,List.filterMap_filterMap]
  refine filterMap_eq_map_filter fun e he => ?_
  rcases hacc.registered e he with hnone | ⟨u,_,v,_,hb⟩
  · have hno : ¬ e.Between x y := by simp [Send.Between,hnone]
    simp [Send.letter,hnone,hno]
  · by_cases huv : u = x ∧ v = y
    · obtain ⟨rfl,rfl⟩ := huv
      simp [Send.letter_eq hb,Letter.textFor,hb]
    · have hno : ¬ e.Between x y := fun hxy => huv (Send.between_unique hb hxy)
      simp [Send.letter_eq hb,Letter.textFor,huv,hno]

end Network

section
variable {users : Finset String} {es : List NetworkEvent} {s : Network}

/-- Every run of the ordered network is a run of the post office: the same letters are posted,
and at its end every chat is the box and every preview the announcement of the post office. -/
theorem network_refines_office (run : (orderedNetwork users).exec Network.start es = some s) :
    ∃ fs o, (office String String).exec Office.start fs = some o ∧
      o.letters = s.sends.filterMap Send.letter ∧
      (∀ x y, conversation s.store x y = (o.box x y).map fun m => (some m.1,some m.2)) ∧
      ∀ x y, preview s.store x y = o.notice x y := by
  obtain ⟨fs,o,hfs,h⟩ := Network.Refines.of_exec run
  have hacc := Network.Accounted.of_exec (orderedNetwork_exec run)
  exact ⟨fs,o,hfs,h.letters,h.conversation_eq hacc,h.preview_eq hacc⟩

/-- In every state, with any writes in flight, a preview only announces a message of one of its
two users that both of them already have in their chat. -/
theorem preview_announces_delivered (run : (orderedNetwork users).exec Network.start es = some s)
    {x y texto : String} (hpreview : preview s.store x y = some texto) :
    ∃ autor, (autor = x ∨ autor = y) ∧
      (some autor,some texto) ∈ conversation s.store x y ∧
      (some autor,some texto) ∈ conversation s.store y x := by
  obtain ⟨fs,o,hfs,h⟩ := Network.Refines.of_exec run
  have hacc := Network.Accounted.of_exec (orderedNetwork_exec run)
  have hseq := Office.Sequential.of_reachable ⟨fs,hfs⟩
  rw [h.preview_eq hacc] at hpreview
  obtain ⟨autor,hautor,hown,hpeer⟩ := hseq.notice_delivered hpreview
  refine ⟨autor,hautor,?_,?_⟩
  · rw [h.conversation_eq hacc]
    exact List.mem_map_of_mem hown
  · rw [h.conversation_eq hacc]
    exact List.mem_map_of_mem hpeer

/-- In every state, with any writes in flight, the messages of `x` in the chat of `x` with `y`
are the first ones that `x` sent to `y`, in that order and without a gap, and the chat of `y`
has the same ones, but perhaps the last. -/
theorem received_without_gaps (run : (orderedNetwork users).exec Network.start es = some s)
    {x y : String} (hxy : x ≠ y) :
    ∃ shown received : List String,
      shown <+: (s.sends.filter fun e => e.Between x y).map Send.texto ∧ received <+: shown ∧
      shown.length ≤ received.length + 1 ∧
      (conversation s.store x y).filter (fun m => m.1 = some x) =
        (shown.map fun texto => (some x,some texto)).reverse ∧
      (conversation s.store y x).filter (fun m => m.1 = some x) =
        (received.map fun texto => (some x,some texto)).reverse := by
  obtain ⟨fs,o,hfs,h⟩ := Network.Refines.of_exec run
  have hacc := Network.Accounted.of_exec (orderedNetwork_exec run)
  have hseq := Office.Sequential.of_reachable ⟨fs,hfs⟩
  obtain ⟨shown,received,hshown,hreceived,hlength,hown,hpeer⟩ := hseq.received hxy
  rw [h.posted_eq hacc] at hshown
  have hread : ∀ l : List (String × String),
      (l.map Network.decoded).filter (fun m => m.1 = some x) =
        (l.filter fun m => m.1 = x).map Network.decoded := by
    intro l
    simp [List.filter_map,Function.comp_def,Network.decoded]
  refine ⟨shown,received,hshown,hreceived,hlength,?_,?_⟩
  · rw [h.conversation_eq hacc,hread,hown]
    simp [Network.decoded,Function.comp_def]
  · rw [h.conversation_eq hacc,hread,hpeer]
    simp [Network.decoded,Function.comp_def]

end
end MessageApp
