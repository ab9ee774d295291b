import MessageApp.CommitOrder

/-! The conversation preview against the chat. The newest message of a box and the preview
beside it are each left by the last send of one of the two participants; they are left by
different sends exactly when the two last sends cross between messages and previews. -/
namespace MessageApp

/-- The text of the document of `mensagens/x/y` with the greatest `data`. -/
def newestTexto (store : Store) (x y : String) : Option String :=
  (consultaMensagens store x y).head?.bind fun d => (Message.ofDictionary d.2).texto

/-- The text the conversation list of `x` shows for `y`. -/
def preview (store : Store) (x y : String) : Option String :=
  (store.lookup ⟨ultimasConversas x,y⟩).bind fun d => (Conversa.ofDictionary d).ultimaMensagem

def setsPreview (x y : String) (p : Pending) : Bool := p.write.path = ⟨ultimasConversas x,y⟩

theorem client_of_mem_issue {e : Send} {n : ℕ} {p : Pending} {u v : String} (h : e.Between u v)
    (hp : p ∈ e.issue n) : p.client = u := by
  simp only [Send.issue,List.mem_map] at hp
  obtain ⟨_,_,rfl⟩ := hp
  simp [h.1]

namespace Network

variable {users : Finset String} {s : Network} {x y : String}

def LastSent (s : Network) (x y : String) (n : ℕ) (e : Send) : Prop :=
  s.sends[n]? = some e ∧ e.Between x y ∧ ∀ (k : ℕ) (f : Send), s.sends[k]? = some f →
    f.Between x y → k ≤ n

/-- A class of writes that each send between `x` and `y` makes exactly once: `own` for a
send from `x` and `peer` for one from `y`. -/
structure Slot (s : Network) (x y : String) (q : Pending → Bool)
    (own peer : ℕ → Send → Pending) : Prop where
  own_issued : ∀ (n : ℕ) (e : Send), e.Between x y → own n e ∈ e.issue n ∧ q (own n e) = true
  peer_issued : ∀ (n : ℕ) (e : Send), e.Between y x → peer n e ∈ e.issue n ∧ q (peer n e) = true
  complete : ∀ (n : ℕ) (e : Send) (p : Pending), s.sends[n]? = some e → p ∈ e.issue n →
    q p = true → (e.Between x y ∧ p = own n e) ∨ (e.Between y x ∧ p = peer n e)

theorem Slot.symm {q : Pending → Bool} {own peer : ℕ → Send → Pending}
    (h : s.Slot x y q own peer) : s.Slot y x q peer own where
  own_issued := h.peer_issued
  peer_issued := h.own_issued
  complete n e p he hp hq := (h.complete n e p he hp hq).symm

theorem Accounted.slot_message (h : Accounted users s) (x y : String) :
    s.Slot x y (inBox x y) (fun n e => e.ownMessage n x y) (fun n e => e.peerMessage n y x) where
  own_issued n e hb := by simp [Send.issue_eq hb]
  peer_issued n e hb := by simp [Send.issue_eq hb]
  complete n e p he hp hq := Send.mem_box (h.registered e (List.mem_of_getElem? he)) hp hq

theorem Accounted.slot_preview (h : Accounted users s) (x y : String) :
    s.Slot x y (setsPreview x y) (fun n e => e.ownPreview n x y)
      (fun n e => e.peerPreview n y x) where
  own_issued n e hb := by simp [Send.issue_eq hb,setsPreview,Send.ownPreview,Write.path]
  peer_issued n e hb := by simp [Send.issue_eq hb,setsPreview,Send.peerPreview,Write.path]
  complete n e p he hp hq := by
    rcases h.registered e (List.mem_of_getElem? he) with hnone | ⟨u,_,v,_,hb⟩
    · simp [Send.issue_none hnone] at hp
    · rw [Send.issue_eq hb] at hp
      simp only [List.mem_cons,List.not_mem_nil,or_false] at hp
      have hpath : p.write.path = ⟨ultimasConversas x,y⟩ := by simpa [setsPreview] using hq
      rcases hp with rfl | rfl | rfl | rfl <;>
        simp only [Send.ownMessage,Send.peerMessage,Send.ownPreview,Send.peerPreview,Write.path,
          DocPath.mk.injEq,ultimasConversas_inj] at hpath
      · exact absurd hpath.1.symm (ultimasConversas_ne_mensagens _ _ _)
      · exact absurd hpath.1.symm (ultimasConversas_ne_mensagens _ _ _)
      · obtain ⟨rfl,rfl⟩ := hpath
        exact Or.inl ⟨hb,rfl⟩
      · obtain ⟨rfl,rfl⟩ := hpath
        exact Or.inr ⟨hb,rfl⟩

theorem Accounted.le_newest (h : Accounted users s) {q : Pending → Bool} {c d : Commit}
    (hc : s.log.find? (fun c => q c.pending) = some c) (hd : d ∈ s.log)
    (hq : q d.pending = true) : d.time ≤ c.time := by
  obtain ⟨_,front,back,hlog,hfront⟩ := List.find?_eq_some_iff_append.mp hc
  have hsorted := h.sorted
  rw [hlog] at hsorted hd
  rcases List.mem_append.mp hd with hd | hd
  · have hnq := hfront d hd
    simp [hq] at hnq
  · rcases List.mem_cons.mp hd with rfl | hd
    · exact le_rfl
    · exact ((List.pairwise_cons.mp (List.pairwise_append.mp hsorted).2.1).1 d hd).le

variable {q : Pending → Bool} {own peer : ℕ → Send → Pending}

/-- If the newest write of a slot is by `x`, it is the one of the last send of `x`, and it
was committed after every write of the slot by `y`. -/
theorem Ordered.latest_own (hord : Ordered s) (h : Accounted users s) (quiet : s.inFlight = [])
    (hxy : x ≠ y) (slot : s.Slot x y q own peer) {c : Commit}
    (hc : s.log.find? (fun c => q c.pending) = some c) {m : ℕ} {e : Send}
    (he : s.sends[m]? = some e) (hb : e.Between x y) (hcm : c.pending = own m e) :
    s.LastSent x y m e ∧ ∀ (n : ℕ) (f : Send), s.LastSent y x n f →
      s.stamp (peer n f).send (peer n f).part < s.stamp (own m e).send (own m e).part := by
  have hclog : c ∈ s.log := List.mem_of_find?_eq_some hc
  have hctime := h.stamp_eq hclog
  have hnewest : ∀ (n : ℕ) (f : Send) (p : Pending), s.sends[n]? = some f → p ∈ f.issue n →
      q p = true → s.stamp p.send p.part ≤ c.time := by
    intro n f p hf hp hq
    obtain ⟨d,hd,rfl⟩ := h.committed quiet ((issue_sublist hf).subset hp)
    rw [h.stamp_eq hd]
    exact h.le_newest hc hd hq
  rw [hcm] at hctime
  refine ⟨⟨he,hb,fun k f hf hbf => ?_⟩,fun n f hlast => ?_⟩
  · -- a later send of `x` would have committed its write of the slot later
    by_contra hlt
    obtain ⟨hissued,hq⟩ := slot.own_issued k f hbf
    have hmine := (slot.own_issued m e hb).1
    have hpair := pair_sublist_issuedFrom (k := 0) he hf (by omega) (by simpa using hmine)
      (by simpa using hissued)
    have hclient := hpair.filter fun p => decide (p.client = x)
    rw [List.filter_eq_self.mpr] at hclient
    · have hstamp := hord.stamp_lt h quiet hclient
      have hle := hnewest k f _ hf hissued hq
      omega
    · intro p hp
      simp only [List.mem_cons,List.not_mem_nil,or_false] at hp
      rcases hp with rfl | rfl
      · simpa using client_of_mem_issue hb hmine
      · simpa using client_of_mem_issue hbf hissued
  · obtain ⟨hf,hbf,_⟩ := hlast
    obtain ⟨hissued,hq⟩ := slot.peer_issued n f hbf
    have hle := hnewest n f _ hf hissued hq
    have hmine := (slot.own_issued m e hb).1
    have hne : peer n f ≠ own m e := by
      intro heq
      have hclient := client_of_mem_issue hbf hissued
      rw [heq,client_of_mem_issue hb hmine] at hclient
      exact hxy hclient
    have hstamp := h.stamp_ne quiet ((issue_sublist hf).subset hissued)
      ((issue_sublist he).subset hmine) hne
    omega

/-- The newest write of a slot is that of the last send of one of the two users. -/
theorem Ordered.latest (hord : Ordered s) (h : Accounted users s) (quiet : s.inFlight = [])
    (hxy : x ≠ y) (slot : s.Slot x y q own peer) {c : Commit}
    (hc : s.log.find? (fun c => q c.pending) = some c) :
    (∃ m e, s.LastSent x y m e ∧ c.pending = own m e ∧ ∀ (n : ℕ) (f : Send), s.LastSent y x n f →
      s.stamp (peer n f).send (peer n f).part < s.stamp (own m e).send (own m e).part) ∨
    (∃ n f, s.LastSent y x n f ∧ c.pending = peer n f ∧ ∀ (m : ℕ) (e : Send), s.LastSent x y m e →
      s.stamp (own m e).send (own m e).part < s.stamp (peer n f).send (peer n f).part) := by
  obtain ⟨n,e,he,hp⟩ := mem_issuedFrom.mp (h.issued_of_log (List.mem_of_find?_eq_some hc))
  rw [Nat.zero_add] at hp
  have hq : q c.pending = true := by simpa using List.find?_some hc
  rcases slot.complete n e c.pending he hp hq with ⟨hb,hcp⟩ | ⟨hb,hcp⟩
  · obtain ⟨hlast,hlt⟩ := hord.latest_own h quiet hxy slot hc he hb hcp
    exact Or.inl ⟨n,e,hlast,hcp,hlt⟩
  · obtain ⟨hlast,hlt⟩ := hord.latest_own h quiet hxy.symm slot.symm hc he hb hcp
    exact Or.inr ⟨n,e,hlast,hcp,hlt⟩

/-- The last sends of the two users cross: one committed its message into the box of `x`
last, the other its preview. -/
def Crossed (s : Network) (m n : ℕ) : Prop :=
  ¬ (s.stamp n .peerMessage < s.stamp m .ownMessage ↔ s.stamp n .peerPreview < s.stamp m .ownPreview)

theorem Accounted.newestTexto_eq (h : Accounted users s) (x y : String) :
    newestTexto s.store x y = (s.log.find? fun c => inBox x y c.pending).bind fun c =>
      (Message.ofDictionary c.pending.write.data).texto := by
  rw [newestTexto,h.consulta_eq,List.head?_map,boxLog,List.head?_filter]
  cases s.log.find? fun c => inBox x y c.pending with
  | none => rfl
  | some c => simp [Commit.doc,Commit.entry,Message.ofDictionary]

theorem Accounted.preview_eq (h : Accounted users s) (x y : String) :
    preview s.store x y = (s.log.find? fun c => setsPreview x y c.pending).bind fun c =>
      (Conversa.ofDictionary c.pending.write.data).ultimaMensagem := by
  have hclass : ((fun e => decide (e.1 = ⟨ultimasConversas x,y⟩)) ∘ Commit.entry) =
      fun c => setsPreview x y c.pending := rfl
  rw [preview,h.store_eq,KeyedLog.lookup_replay,List.find?_map,hclass]
  cases s.log.find? fun c => setsPreview x y c.pending with
  | none => rfl
  | some c => simp [Commit.entry,Conversa.ofDictionary]

theorem Accounted.slot_committed (h : Accounted users s) (quiet : s.inFlight = [])
    (slot : s.Slot x y q own peer) {n : ℕ} {e : Send} (he : s.sends[n]? = some e)
    (hb : e.Between x y ∨ e.Between y x) :
    ∃ c, s.log.find? (fun c => q c.pending) = some c := by
  obtain ⟨p,hp,hq⟩ : ∃ p ∈ e.issue n, q p = true := by
    rcases hb with hb | hb
    · exact ⟨_,slot.own_issued n e hb⟩
    · exact ⟨_,slot.peer_issued n e hb⟩
  obtain ⟨c,hc,rfl⟩ := h.committed quiet ((issue_sublist he).subset hp)
  apply Option.isSome_iff_exists.mp
  rw [List.find?_isSome]
  exact ⟨c,hc,hq⟩

theorem LastSent.unique {m n : ℕ} {e f : Send} (he : s.LastSent x y m e)
    (hf : s.LastSent x y n f) : m = n ∧ e = f := by
  have hmn : m = n := le_antisymm (hf.2.2 m e he.1 he.2.1) (he.2.2 n f hf.1 hf.2.1)
  subst hmn
  exact ⟨rfl,Option.some.inj (he.1.symm.trans hf.1)⟩

/-- Which last send left the newest message and which left the preview. -/
theorem Ordered.newest_and_preview (hord : Ordered s) (h : Accounted users s)
    (quiet : s.inFlight = []) (hxy : x ≠ y) (hbox : consultaMensagens s.store x y ≠ []) :
    ((∃ m e, s.LastSent x y m e ∧ newestTexto s.store x y = some e.texto ∧
        ∀ n f, s.LastSent y x n f → s.stamp n .peerMessage < s.stamp m .ownMessage) ∨
      (∃ n f, s.LastSent y x n f ∧ newestTexto s.store x y = some f.texto ∧
        ∀ m e, s.LastSent x y m e → s.stamp m .ownMessage < s.stamp n .peerMessage)) ∧
    ((∃ m e, s.LastSent x y m e ∧ preview s.store x y = some e.texto ∧
        ∀ n f, s.LastSent y x n f → s.stamp n .peerPreview < s.stamp m .ownPreview) ∨
      (∃ n f, s.LastSent y x n f ∧ preview s.store x y = some f.texto ∧
        ∀ m e, s.LastSent x y m e → s.stamp m .ownPreview < s.stamp n .peerPreview)) := by
  obtain ⟨d,hd⟩ := List.exists_mem_of_ne_nil _ hbox
  rw [h.consulta_eq] at hd
  obtain ⟨c,hc,rfl⟩ := List.mem_map.mp hd
  obtain ⟨n,e,he,hcase⟩ := h.mem_boxLog hc
  have hb : e.Between x y ∨ e.Between y x := hcase.imp And.left And.left
  obtain ⟨a,ha⟩ := h.slot_committed quiet (h.slot_message x y) he hb
  obtain ⟨b,hb⟩ := h.slot_committed quiet (h.slot_preview x y) he hb
  rw [h.newestTexto_eq,h.preview_eq,ha,hb]
  refine ⟨?_,?_⟩
  · rcases hord.latest h quiet hxy (h.slot_message x y) ha with ⟨m,e,hlast,hp,hlt⟩ | ⟨n,f,hlast,hp,hlt⟩
    · exact Or.inl ⟨m,e,hlast,by simp [hp,Send.ownMessage,Write.data,Message.ofDictionary],hlt⟩
    · exact Or.inr ⟨n,f,hlast,by simp [hp,Send.peerMessage,Write.data,Message.ofDictionary],hlt⟩
  · rcases hord.latest h quiet hxy (h.slot_preview x y) hb with ⟨m,e,hlast,hp,hlt⟩ | ⟨n,f,hlast,hp,hlt⟩
    · exact Or.inl ⟨m,e,hlast,by simp [hp,Send.ownPreview,Write.data,Conversa.ofDictionary],hlt⟩
    · exact Or.inr ⟨n,f,hlast,by simp [hp,Send.peerPreview,Write.data,Conversa.ofDictionary],hlt⟩

end Network

/-- The preview and the newest message are each the text of somebody's last send, and they
agree unless both users have sent, their last texts differ and their last sends cross. -/
theorem preview_of_last_sends {users : Finset String} {es : List NetworkEvent} {s : Network}
    (run : (orderedNetwork users).exec Network.start es = some s) (quiet : s.inFlight = [])
    {x y : String} (hxy : x ≠ y) (hbox : consultaMensagens s.store x y ≠ []) :
    (∃ n e, (s.LastSent x y n e ∨ s.LastSent y x n e) ∧ preview s.store x y = some e.texto) ∧
    (∃ n e, (s.LastSent x y n e ∨ s.LastSent y x n e) ∧ newestTexto s.store x y = some e.texto) ∧
    (preview s.store x y = newestTexto s.store x y ↔
      ∀ m e n f, s.LastSent x y m e → s.LastSent y x n f → e.texto ≠ f.texto → ¬ s.Crossed m n) := by
  have h := Network.Accounted.of_exec (orderedNetwork_exec run)
  obtain ⟨hnewest,hpreview⟩ := (Network.Ordered.of_exec run).newest_and_preview h quiet hxy hbox
  rcases hnewest with ⟨m,e,he,hmsg,hmlt⟩ | ⟨m,e,he,hmsg,hmlt⟩ <;>
    rcases hpreview with ⟨n,f,hf,hprev,hplt⟩ | ⟨n,f,hf,hprev,hplt⟩ <;>
    rw [hmsg,hprev,Option.some_inj]
  · obtain ⟨rfl,rfl⟩ := he.unique hf
    refine ⟨⟨m,e,Or.inl he,rfl⟩,⟨m,e,Or.inl he,rfl⟩,iff_of_true rfl ?_⟩
    intro m' e' n' f' he' hf' _ hcross
    obtain ⟨rfl,rfl⟩ := he.unique he'
    exact hcross ⟨fun _ => hplt n' f' hf',fun _ => hmlt n' f' hf'⟩
  · refine ⟨⟨n,f,Or.inr hf,rfl⟩,⟨m,e,Or.inl he,rfl⟩,?_,?_⟩
    · intro heq m' e' n' f' he' hf' hne
      obtain ⟨rfl,rfl⟩ := he.unique he'
      obtain ⟨rfl,rfl⟩ := hf.unique hf'
      exact absurd heq.symm hne
    · intro hfree
      by_contra hne
      refine hfree m e n f he hf (Ne.symm hne) fun hiff => ?_
      exact lt_asymm (hiff.mp (hmlt n f hf)) (hplt m e he)
  · refine ⟨⟨n,f,Or.inl hf,rfl⟩,⟨m,e,Or.inr he,rfl⟩,?_,?_⟩
    · intro heq m' e' n' f' he' hf' hne
      obtain ⟨rfl,rfl⟩ := hf.unique he'
      obtain ⟨rfl,rfl⟩ := he.unique hf'
      exact absurd heq hne
    · intro hfree
      by_contra hne
      refine hfree n f m e hf he hne fun hiff => ?_
      exact lt_asymm (hiff.mpr (hplt m e he)) (hmlt n f hf)
  · obtain ⟨rfl,rfl⟩ := he.unique hf
    refine ⟨⟨m,e,Or.inr he,rfl⟩,⟨m,e,Or.inr he,rfl⟩,iff_of_true rfl ?_⟩
    intro m' e' n' f' he' hf' _ hcross
    obtain ⟨rfl,rfl⟩ := he.unique hf'
    exact hcross ⟨fun hlt => absurd hlt (hmlt m' e' he').le.not_gt,
      fun hlt => absurd hlt (hplt m' e' he').le.not_gt⟩

/-- The reply's messages are committed before the first message, its previews after it. -/
def crossedPreviews : List NetworkEvent :=
  [.send sendOi,.send sendOla,.commit 4 1,.commit 4 2,.commit 0 3,.commit 0 4,.commit 0 5,
    .commit 0 6,.commit 0 7,.commit 0 8]

theorem preview_stale :
    ∃ s, (orderedNetwork {"u1","u2"}).exec Network.start crossedPreviews = some s ∧
      s.inFlight = [] ∧ newestTexto s.store "u1" "u2" = some "oi" ∧
      preview s.store "u1" "u2" = some "ola" :=
  ⟨_,rfl,rfl,by decide,by decide⟩

theorem preview_of_last_sends_crossed :
    ∃ s, (orderedNetwork {"u1","u2"}).exec Network.start crossedPreviews = some s ∧
      ∃ n e, (s.LastSent "u1" "u2" n e ∨ s.LastSent "u2" "u1" n e) ∧
        preview s.store "u1" "u2" = some e.texto :=
  ⟨_,rfl,(@preview_of_last_sends {"u1","u2"} crossedPreviews _ rfl rfl "u1" "u2" (by decide)
    (by decide)).1⟩

end MessageApp
