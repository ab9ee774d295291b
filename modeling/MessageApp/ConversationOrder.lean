import MessageApp.CommitOrder

/-! The two copies of a conversation. Both participants hold the same messages, each
sender's in the order they were sent; the two orders agree exactly when no send of one
overlaps a send of the other between its two commits. -/
namespace MessageApp

/-- What a message document says, as its two readers decode it. -/
def said (d : Dict) : Option String × Option String :=
  ((Message.ofDictionary d).idUsuario,(Message.ofDictionary d).texto)

/-- The list of (idUsuario, texto) of `mensagens/x/y`, ordered by `data` descending. -/
def conversation (store : Store) (x y : String) : List (Option String × Option String) :=
  (consultaMensagens store x y).map fun d => said d.2

@[simp] theorem said_resolve (now : ℕ) (d : Dict) : said (Dict.resolve now d) = said d := by
  simp [said,Message.ofDictionary]

@[simp] theorem said_mensagemDict (u texto : String) :
    said (mensagemDict u texto) = (some u,some texto) := rfl

def sentTo (sends : List Send) (u v : String) : List (Option String × Option String) :=
  ((sends.filter fun e => e.Between u v).map fun e => (some u,some e.texto)).reverse

namespace Send

variable {users : Finset String} {e : Send} {u v x y : String}

theorem filter_client_own (h : e.Between x y) (n : ℕ) (huv : u ≠ v) :
    ((e.issue n).filter (inBox u v)).filter (fun p => p.client = u) =
      if e.Between u v then [e.ownMessage n u v] else [] := by
  rw [filter_inBox h]
  by_cases hb : e.Between u v
  · obtain ⟨rfl,rfl⟩ := between_unique h hb
    simp [hb,huv.symm,ownMessage]
  · have hne : ¬ (x = u ∧ y = v) := by
      rintro ⟨rfl,rfl⟩
      exact hb h
    rw [if_neg hne,if_neg hb,List.nil_append]
    split_ifs with hp
    · simp [peerMessage,hp.2,huv.symm]
    · rfl

theorem filter_client_peer (h : e.Between x y) (n : ℕ) (huv : u ≠ v) :
    ((e.issue n).filter (inBox v u)).filter (fun p => p.client = u) =
      if e.Between u v then [e.peerMessage n u v] else [] := by
  rw [filter_inBox h]
  by_cases hb : e.Between u v
  · obtain ⟨rfl,rfl⟩ := between_unique h hb
    simp [hb,huv,peerMessage]
  · have hne : ¬ (y = v ∧ x = u) := by
      rintro ⟨rfl,rfl⟩
      exact hb h
    rw [if_neg hne,if_neg hb,List.append_nil]
    split_ifs with hp
    · simp [ownMessage,hp.1,huv.symm]
    · rfl

end Send

def clientBox (n : ℕ) (es : List Send) (u x y : String) : List Pending :=
  ((issuedFrom n es).filter (inBox x y)).filter fun p => p.client = u

section
variable {users : Finset String} {es : List Send} {u v : String}

theorem clientBox_cons (n : ℕ) (e : Send) (es : List Send) (u x y : String) :
    clientBox n (e::es) u x y =
      ((e.issue n).filter (inBox x y)).filter (fun p => p.client = u) ++ clientBox (n+1) es u x y := by
  rw [clientBox,issuedFrom,List.filter_append,List.filter_append]
  rfl

theorem clientBox_sends (n : ℕ) (huv : u ≠ v)
    (hreg : ∀ e ∈ es, e.vc.idContato = none ∨ ∃ u ∈ users, ∃ v ∈ users, e.Between u v) :
    (clientBox n es u u v).map Pending.send = (clientBox n es u v u).map Pending.send := by
  induction es generalizing n with
  | nil => rfl
  | cons e es ih =>
    have htail := ih (n+1) fun a ha => hreg a (by simp [ha])
    rw [clientBox_cons,clientBox_cons,List.map_append,List.map_append,htail]
    congr 1
    rcases hreg e (by simp) with hnone | ⟨x,_,y,_,h⟩
    · simp [Send.issue_none hnone]
    · rw [Send.filter_client_own h n huv,Send.filter_client_peer h n huv]
      split_ifs <;> rfl

theorem clientBox_said (n : ℕ) (huv : u ≠ v)
    (hreg : ∀ e ∈ es, e.vc.idContato = none ∨ ∃ u ∈ users, ∃ v ∈ users, e.Between u v) :
    (clientBox n es u u v).map (fun p => said p.write.data) = (sentTo es u v).reverse ∧
      (clientBox n es u v u).map (fun p => said p.write.data) = (sentTo es u v).reverse := by
  induction es generalizing n with
  | nil => exact ⟨rfl,rfl⟩
  | cons e es ih =>
    obtain ⟨h₁,h₂⟩ := ih (n+1) fun a ha => hreg a (by simp [ha])
    rcases hreg e (by simp) with hnone | ⟨x,_,y,_,h⟩
    · have hb : ¬ e.Between u v := by simp [Send.Between,hnone]
      simp [clientBox_cons,Send.issue_none hnone,h₁,h₂,sentTo,hb]
    · rw [clientBox_cons,clientBox_cons,List.map_append,List.map_append,h₁,h₂,
        Send.filter_client_own h n huv,Send.filter_client_peer h n huv]
      by_cases hb : e.Between u v <;>
        simp [sentTo,hb,Send.ownMessage,Send.peerMessage,Write.data]

end

namespace Network

variable {users : Finset String} {s : Network} {u v x y : String}

def numbers (s : Network) (x y : String) : List ℕ :=
  (s.boxLog x y).reverse.map fun c => c.pending.send

def author (s : Network) (n : ℕ) : Option String := s.sends[n]?.bind fun e => e.vc.idUsuarioLogado

theorem Accounted.conversation_eq (h : Accounted users s) (x y : String) :
    conversation s.store x y = (s.boxLog x y).map fun c => said c.pending.write.data := by
  rw [conversation,h.consulta_eq,List.map_map]
  exact List.map_congr_left fun c _ => said_resolve c.time _

theorem Accounted.client_of_boxLog (h : Accounted users s) {c : Commit} (hc : c ∈ s.boxLog x y) :
    (said c.pending.write.data).1 = some c.pending.client ∧
      s.author c.pending.send = some c.pending.client ∧
      (said c.pending.write.data).2 = (s.sends[c.pending.send]?).map Send.texto := by
  obtain ⟨n,e,he,⟨hb,hp⟩ | ⟨hb,hp⟩⟩ := h.mem_boxLog hc <;>
    simp [hp,Send.ownMessage,Send.peerMessage,Write.data,author,he,hb.1]

theorem Ordered.boxLog_client (hord : Ordered s) (quiet : s.inFlight = []) (x y u : String) :
    (((s.boxLog x y).reverse.map Commit.pending).filter fun p => p.client = u) =
      clientBox 0 s.sends u x y := by
  have hclient := congrArg (List.filter (inBox x y)) (hord u)
  rw [quiet,List.append_nil] at hclient
  rw [clientBox,List.filter_comm,← hclient]
  simp [boxLog,List.filter_map,Function.comp_def,Bool.and_comm]

theorem Ordered.numbers_filter (hord : Ordered s) (h : Accounted users s) (quiet : s.inFlight = [])
    (x y u : String) :
    (s.numbers x y).filter (fun n => s.author n = some u) =
      (clientBox 0 s.sends u x y).map Pending.send := by
  rw [← hord.boxLog_client quiet x y u,numbers,List.filter_map,List.filter_map,List.map_map]
  refine congrArg _ (List.filter_congr fun c hc => ?_)
  have hauthor := (h.client_of_boxLog (List.mem_reverse.mp hc)).2.1
  simp [hauthor]

def boxTime (s : Network) (x : String) (n : ℕ) : ℕ :=
  if s.author n = some x then s.stamp n .ownMessage else s.stamp n .peerMessage

theorem Accounted.boxTime_eq (h : Accounted users s) (hxy : x ≠ y) {c : Commit}
    (hc : c ∈ s.boxLog x y) : s.boxTime x c.pending.send = c.time := by
  have hstamp := h.stamp_eq (List.mem_filter.mp hc).1
  obtain ⟨n,e,he,⟨hb,hp⟩ | ⟨hb,hp⟩⟩ := h.mem_boxLog hc <;> rw [hp] at hstamp ⊢
  · simpa [boxTime,author,Send.ownMessage,he,hb.1] using hstamp
  · simpa [boxTime,author,Send.peerMessage,he,hb.1,hxy.symm] using hstamp

theorem Accounted.numbers_sorted (h : Accounted users s) (hxy : x ≠ y) :
    (s.numbers x y).Pairwise fun m n => s.boxTime x m < s.boxTime x n := by
  rw [numbers,List.pairwise_map]
  refine (List.pairwise_reverse.mpr (h.sorted.filter _)).imp_of_mem fun {c d} hc hd hcd => ?_
  rw [h.boxTime_eq hxy (List.mem_reverse.mp hc),h.boxTime_eq hxy (List.mem_reverse.mp hd)]
  exact hcd

theorem Accounted.author_numbers (h : Accounted users s) {n : ℕ} (hn : n ∈ s.numbers x y) :
    s.author n = some x ∨ s.author n = some y := by
  obtain ⟨c,hc,rfl⟩ := List.mem_map.mp hn
  obtain ⟨n,e,he,⟨hb,hp⟩ | ⟨hb,hp⟩⟩ := h.mem_boxLog (List.mem_reverse.mp hc)
  · left; simp [hp,Send.ownMessage,author,he,hb.1]
  · right; simp [hp,Send.peerMessage,author,he,hb.1]

theorem Ordered.numbers_swap (hord : Ordered s) (h : Accounted users s) (quiet : s.inFlight = [])
    (hxy : x ≠ y) (k : Option String) :
    (s.numbers x y).filter (fun n => s.author n = k) =
      (s.numbers y x).filter fun n => s.author n = k := by
  by_cases hk : k = some x ∨ k = some y
  · rcases hk with rfl | rfl
    · rw [hord.numbers_filter h quiet,hord.numbers_filter h quiet]
      exact clientBox_sends 0 hxy h.registered
    · rw [hord.numbers_filter h quiet,hord.numbers_filter h quiet]
      exact (clientBox_sends 0 hxy.symm h.registered).symm
  · have hnone : ∀ a b, (a = x ∧ b = y) ∨ (a = y ∧ b = x) →
        (s.numbers a b).filter (fun n => s.author n = k) = [] := by
      intro a b hab
      apply List.filter_eq_nil_iff.mpr
      intro n hn
      simp only [decide_eq_true_eq]
      rintro rfl
      rcases h.author_numbers hn with ha | ha <;> rcases hab with ⟨rfl,rfl⟩ | ⟨rfl,rfl⟩ <;>
        simp [ha] at hk
    rw [hnone x y (Or.inl ⟨rfl,rfl⟩),hnone y x (Or.inr ⟨rfl,rfl⟩)]

theorem Accounted.mem_numbers (h : Accounted users s) (quiet : s.inFlight = []) {n : ℕ} :
    n ∈ s.numbers x y ↔ ∃ e, s.sends[n]? = some e ∧ (e.Between x y ∨ e.Between y x) := by
  constructor
  · intro hn
    obtain ⟨c,hc,rfl⟩ := List.mem_map.mp hn
    obtain ⟨n,e,he,⟨hb,hp⟩ | ⟨hb,hp⟩⟩ := h.mem_boxLog (List.mem_reverse.mp hc)
    · exact ⟨e,by simpa [hp,Send.ownMessage] using he,Or.inl hb⟩
    · exact ⟨e,by simpa [hp,Send.peerMessage] using he,Or.inr hb⟩
  · rintro ⟨e,he,hb⟩
    have hmem : ∃ p ∈ e.issue n, inBox x y p = true := by
      rcases hb with hb | hb
      · exact ⟨e.ownMessage n x y,by simp [Send.issue_eq hb n],by simp⟩
      · exact ⟨e.peerMessage n y x,by simp [Send.issue_eq hb n],by simp⟩
    obtain ⟨p,hp,hbox⟩ := hmem
    obtain ⟨c,hc,rfl⟩ := h.committed quiet ((issue_sublist he).subset hp)
    refine List.mem_map.mpr ⟨c,List.mem_reverse.mpr (List.mem_filter.mpr ⟨hc,hbox⟩),?_⟩
    exact send_of_mem_issue hp

theorem Ordered.own_lt_peer (hord : Ordered s) (h : Accounted users s) (quiet : s.inFlight = [])
    {n : ℕ} {e : Send} (he : s.sends[n]? = some e) (hb : e.Between x y) :
    s.stamp n .ownMessage < s.stamp n .peerMessage := by
  have hpair : [e.ownMessage n x y,e.peerMessage n x y].Sublist (issuedFrom 0 s.sends) := by
    refine List.Sublist.trans ?_ (issue_sublist he)
    rw [Send.issue_eq hb]
    simp
  have hclient := hpair.filter fun p => decide (p.client = x)
  exact hord.stamp_lt h quiet (p := e.ownMessage n x y) (q := e.peerMessage n x y) (u := x)
    (by simpa [Send.ownMessage,Send.peerMessage] using hclient)

/-- Each of two sends commits its own copy before the other's peer copy. -/
def Overlap (s : Network) (m n : ℕ) : Prop :=
  s.stamp m .ownMessage < s.stamp n .peerMessage ∧ s.stamp n .ownMessage < s.stamp m .peerMessage

theorem Ordered.numbers_eq_iff (hord : Ordered s) (h : Accounted users s) (quiet : s.inFlight = [])
    (hxy : x ≠ y) :
    s.numbers x y = s.numbers y x ↔
      ∀ m e n f, s.sends[m]? = some e → e.Between x y → s.sends[n]? = some f → f.Between y x →
        ¬ s.Overlap m n := by
  rw [Interleaving.eq_iff_cross_agree s.author (h.numbers_sorted hxy) (h.numbers_sorted hxy.symm)
    (hord.numbers_swap h quiet hxy)]
  have hx : ∀ m e, s.sends[m]? = some e → e.Between x y →
      s.boxTime x m = s.stamp m .ownMessage ∧ s.boxTime y m = s.stamp m .peerMessage := by
    intro m e he hb
    simp [boxTime,author,he,hb.1,hxy]
  have hy : ∀ n f, s.sends[n]? = some f → f.Between y x →
      s.boxTime x n = s.stamp n .peerMessage ∧ s.boxTime y n = s.stamp n .ownMessage := by
    intro n f hf hb
    simp [boxTime,author,hf,hb.1,hxy.symm]
  constructor
  · rintro hcross m e n f he hbe hf hbf ⟨hmn,hnm⟩
    have hm : m ∈ s.numbers x y := (h.mem_numbers quiet).mpr ⟨e,he,Or.inl hbe⟩
    have hn : n ∈ s.numbers x y := (h.mem_numbers quiet).mpr ⟨f,hf,Or.inr hbf⟩
    have hne : s.author m ≠ s.author n := by simp [author,he,hf,hbe.1,hbf.1,hxy]
    have hlt := hcross m hm n hn hne (by rw [(hx m e he hbe).1,(hy n f hf hbf).1]; exact hmn)
    rw [(hx m e he hbe).2,(hy n f hf hbf).2] at hlt
    omega
  · intro hfree m hm n hn hne hlt
    obtain ⟨e,he,hbe⟩ := (h.mem_numbers quiet).mp hm
    obtain ⟨f,hf,hbf⟩ := (h.mem_numbers quiet).mp hn
    rcases hbe with hbe | hbe <;> rcases hbf with hbf | hbf
    · simp [author,he,hf,hbe.1,hbf.1] at hne
    · -- the pair overlaps unless the earlier send is complete before the later one starts
      have hfree := hfree m e n f he hbe hf hbf
      rw [(hx m e he hbe).1,(hy n f hf hbf).1] at hlt
      rw [(hx m e he hbe).2,(hy n f hf hbf).2]
      have hne' := h.stamp_ne quiet (p := e.peerMessage m x y) (q := f.ownMessage n y x)
        ((issue_sublist he).subset (by simp [Send.issue_eq hbe]))
        ((issue_sublist hf).subset (by simp [Send.issue_eq hbf]))
        (by simp [Send.peerMessage,Send.ownMessage])
      have hnlt : ¬ s.stamp n .ownMessage < s.stamp m .peerMessage := fun hnm => hfree ⟨hlt,hnm⟩
      simp only [Send.peerMessage,Send.ownMessage] at hne'
      omega
    · have hm := hord.own_lt_peer h quiet he hbe
      have hn := hord.own_lt_peer h quiet hf hbf
      rw [(hy m e he hbe).1,(hx n f hf hbf).1] at hlt
      rw [(hy m e he hbe).2,(hx n f hf hbf).2]
      omega
    · simp [author,he,hf,hbe.1,hbf.1] at hne

theorem Accounted.conversation_numbers (h : Accounted users s) (x y : String) :
    conversation s.store x y =
      ((s.numbers x y).map fun n => (s.author n,(s.sends[n]?).map Send.texto)).reverse := by
  rw [h.conversation_eq,numbers,List.map_map,← List.map_reverse,List.reverse_reverse]
  refine List.map_congr_left fun c hc => ?_
  obtain ⟨hid,hauthor,htexto⟩ := h.client_of_boxLog hc
  exact Prod.ext (hid.trans hauthor.symm) htexto

theorem Ordered.conversation_eq_iff (hord : Ordered s) (h : Accounted users s)
    (quiet : s.inFlight = []) (hxy : x ≠ y) :
    conversation s.store x y = conversation s.store y x ↔ s.numbers x y = s.numbers y x := by
  rw [h.conversation_numbers,h.conversation_numbers]
  constructor
  · intro heq
    have hmap := congrArg (List.map Prod.fst) (List.reverse_injective heq)
    rw [List.map_map,List.map_map] at hmap
    exact Interleaving.eq_of_map_eq_of_filter_eq s.author _ _ hmap (hord.numbers_swap h quiet hxy)
  · intro heq
    rw [heq]

theorem Ordered.conversation_filter (hord : Ordered s) (h : Accounted users s)
    (quiet : s.inFlight = []) (huv : u ≠ v) :
    (conversation s.store u v).filter (fun m => m.1 = some u) = sentTo s.sends u v ∧
      (conversation s.store v u).filter (fun m => m.1 = some u) = sentTo s.sends u v := by
  have hbox : ∀ x y, (clientBox 0 s.sends u x y).map (fun p => said p.write.data) =
      (sentTo s.sends u v).reverse →
      (conversation s.store x y).filter (fun m => m.1 = some u) = sentTo s.sends u v := by
    intro x y hsaid
    have hfilter : (conversation s.store x y).filter (fun m => m.1 = some u) =
        ((s.boxLog x y).filter fun c => c.pending.client = u).map fun c => said c.pending.write.data := by
      rw [h.conversation_eq,List.filter_map]
      refine congrArg _ (List.filter_congr fun c hc => ?_)
      simp [(h.client_of_boxLog hc).1]
    have hrev := congrArg (List.map fun p => said p.write.data) (hord.boxLog_client quiet x y u)
    rw [hsaid,List.filter_map,List.map_map,List.filter_reverse,List.map_reverse] at hrev
    rw [hfilter]
    exact List.reverse_injective hrev
  obtain ⟨hown,hpeer⟩ := clientBox_said 0 huv h.registered
  exact ⟨hbox u v hown,hbox v u hpeer⟩

end Network

/-- Both participants hold the same messages and see each sender's in the order sent;
the two lists are equal exactly when no two sends of the two sides overlap. -/
theorem conversation_order {users : Finset String} {es : List NetworkEvent} {s : Network}
    (run : (orderedNetwork users).exec Network.start es = some s) (quiet : s.inFlight = [])
    {a b : String} (hab : a ≠ b) :
    (conversation s.store a b).Perm (conversation s.store b a) ∧
    (∀ u v, (u = a ∧ v = b) ∨ (u = b ∧ v = a) →
      (conversation s.store a b).filter (fun m => m.1 = some u) = sentTo s.sends u v ∧
      (conversation s.store b a).filter (fun m => m.1 = some u) = sentTo s.sends u v) ∧
    (conversation s.store a b = conversation s.store b a ↔
      ∀ (m : ℕ) (e : Send) (n : ℕ) (f : Send), s.sends[m]? = some e → e.Between a b →
        s.sends[n]? = some f → f.Between b a → ¬ s.Overlap m n) := by
  have h := Network.Accounted.of_exec (orderedNetwork_exec run)
  have hord := Network.Ordered.of_exec run
  refine ⟨?_,?_,?_⟩
  · rw [h.conversation_numbers,h.conversation_numbers]
    have hperm := Interleaving.perm_of_filter_eq s.author (hord.numbers_swap h quiet hab)
    exact (List.reverse_perm _).trans ((hperm.map _).trans (List.reverse_perm _).symm)
  · rintro u v (⟨rfl,rfl⟩ | ⟨rfl,rfl⟩)
    · exact hord.conversation_filter h quiet hab
    · exact (hord.conversation_filter h quiet hab.symm).symm
  · exact (hord.conversation_eq_iff h quiet hab).trans (hord.numbers_eq_iff h quiet hab)

/-- Both sends commit their own copy before either commits its peer copy. -/
def crossedSends : List NetworkEvent :=
  [.send sendOi,.send sendOla,.commit 0 1,.commit 3 2,.commit 0 3,.commit 2 4,.commit 0 5,
    .commit 1 6,.commit 0 7,.commit 0 8]

theorem conversation_order_overlap :
    ∃ s, (orderedNetwork {"u1","u2"}).exec Network.start crossedSends = some s ∧
      s.inFlight = [] ∧ conversation s.store "u1" "u2" ≠ conversation s.store "u2" "u1" :=
  ⟨_,rfl,rfl,by decide⟩

theorem conversation_order_crossed :
    ∃ s, (orderedNetwork {"u1","u2"}).exec Network.start crossedSends = some s ∧
      (conversation s.store "u1" "u2").Perm (conversation s.store "u2" "u1") :=
  ⟨_,rfl,(@conversation_order {"u1","u2"} crossedSends _ rfl rfl "u1" "u2" (by decide)).1⟩

end MessageApp
