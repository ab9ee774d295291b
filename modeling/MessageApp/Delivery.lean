import MessageApp.Network

/-! Delivery of messages. A message box lists exactly the committed message writes into
it, newest first, and once nothing is in flight every send shows in the boxes of its two
participants exactly once. -/
namespace MessageApp

/-- The listener's query on `mensagens/x/y`. -/
def consultaMensagens (store : Store) (x y : String) : Snapshot :=
  (store.documents (mensagens x y)).orderByDescending "data"

def Commit.doc (c : Commit) : String × Dict := (c.entry.1.id,c.entry.2)

namespace Send

variable {users : Finset String} {e : Send} {n : ℕ} {p : Pending} {u v x y : String}

theorem filter_inBox (h : e.Between u v) (x y : String) :
    (e.issue n).filter (inBox x y) =
      (if u = x ∧ v = y then [e.ownMessage n u v] else []) ++
      (if v = x ∧ u = y then [e.peerMessage n u v] else []) := by
  rw [issue_eq h]
  simp only [List.filter_cons,List.filter_nil,inBox,ownMessage,peerMessage,ownPreview,peerPreview,
    Write.path,mensagens_inj,decide_eq_true_eq,ultimasConversas_ne_mensagens,if_false]
  split_ifs <;> rfl

/-- A message write into `mensagens/x/y` is the sender's copy of a send from `x` to `y`
or the recipient's copy of a send from `y` to `x`. -/
theorem mem_box (hreg : e.vc.idContato = none ∨ ∃ u ∈ users, ∃ v ∈ users, e.Between u v)
    (hp : p ∈ e.issue n) (hbox : inBox x y p = true) :
    (e.Between x y ∧ p = e.ownMessage n x y) ∨ (e.Between y x ∧ p = e.peerMessage n y x) := by
  rcases hreg with hnone | ⟨u,_,v,_,h⟩
  · simp [issue_none hnone] at hp
  · have hmem : p ∈ (e.issue n).filter (inBox x y) := List.mem_filter.mpr ⟨hp,hbox⟩
    rw [filter_inBox h,List.mem_append] at hmem
    rcases hmem with hmem | hmem
    · split_ifs at hmem with huv
      · obtain ⟨rfl,rfl⟩ := huv
        exact Or.inl ⟨h,List.mem_singleton.mp hmem⟩
      · simp at hmem
    · split_ifs at hmem with huv
      · obtain ⟨rfl,rfl⟩ := huv
        exact Or.inr ⟨h,List.mem_singleton.mp hmem⟩
      · simp at hmem

@[simp] theorem ownMessage_inBox (n : ℕ) (e : Send) (u v : String) :
    inBox u v (e.ownMessage n u v) = true := by
  simp [inBox,ownMessage,Write.path]

@[simp] theorem peerMessage_inBox (n : ℕ) (e : Send) (u v : String) :
    inBox v u (e.peerMessage n u v) = true := by
  simp [inBox,peerMessage,Write.path]

theorem id_mem_ids (hreg : e.vc.idContato = none ∨ ∃ u ∈ users, ∃ v ∈ users, e.Between u v)
    (hp : p ∈ e.issue n) (hbox : inBox x y p = true) : p.write.path.id ∈ e.ids := by
  rcases mem_box hreg hp hbox with ⟨_,rfl⟩ | ⟨_,rfl⟩ <;>
    simp [ownMessage,peerMessage,Write.path,ids]

theorem box_ids_sublist (hreg : e.vc.idContato = none ∨ ∃ u ∈ users, ∃ v ∈ users, e.Between u v)
    (n : ℕ) (x y : String) :
    (((e.issue n).filter (inBox x y)).map fun p => p.write.path.id).Sublist e.ids := by
  rcases hreg with hnone | ⟨u,_,v,_,h⟩
  · simp [issue_none hnone]
  · rw [filter_inBox h]
    split_ifs <;> simp [ownMessage,peerMessage,Write.path,ids]

end Send

theorem box_ids_issuedFrom {users : Finset String} (n : ℕ) {es : List Send} (x y : String)
    (hreg : ∀ e ∈ es, e.vc.idContato = none ∨ ∃ u ∈ users, ∃ v ∈ users, e.Between u v) :
    (((issuedFrom n es).filter (inBox x y)).map fun p => p.write.path.id).Sublist
      (es.flatMap Send.ids) := by
  induction es generalizing n with
  | nil => simp [issuedFrom]
  | cons e es ih =>
    simp only [issuedFrom,List.filter_append,List.map_append,List.flatMap_cons]
    exact (Send.box_ids_sublist (hreg e (by simp)) n x y).append
      (ih (n+1) fun a ha => hreg a (by simp [ha]))

namespace Network

variable {users : Finset String} {s : Network} {x y : String}

def boxLog (s : Network) (x y : String) : List Commit := s.log.filter fun c => inBox x y c.pending

theorem Accounted.issued_of_log (h : Accounted users s) {c : Commit} (hc : c ∈ s.log) :
    c.pending ∈ issuedFrom 0 s.sends :=
  h.accounted.subset (List.mem_append_left _ (List.mem_map_of_mem hc))

theorem Accounted.mem_boxLog (h : Accounted users s) {c : Commit} (hc : c ∈ s.boxLog x y) :
    ∃ (n : ℕ) (e : Send), s.sends[n]? = some e ∧
      ((e.Between x y ∧ c.pending = e.ownMessage n x y) ∨
        (e.Between y x ∧ c.pending = e.peerMessage n y x)) := by
  obtain ⟨hlog,hbox⟩ := List.mem_filter.mp hc
  obtain ⟨n,e,he,hp⟩ := mem_issuedFrom.mp (h.issued_of_log hlog)
  rw [Nat.zero_add] at hp
  exact ⟨n,e,he,Send.mem_box (h.registered e (List.mem_of_getElem? he)) hp hbox⟩

theorem Accounted.boxLog_ids_nodup (h : Accounted users s) (x y : String) :
    ((s.boxLog x y).map fun c => c.pending.write.path.id).Nodup := by
  have hissued := (box_ids_issuedFrom 0 x y h.registered).nodup h.fresh
  have hperm := (h.accounted.filter (inBox x y)).map fun p => p.write.path.id
  have hall := hperm.nodup_iff.mpr hissued
  rw [List.filter_append,List.map_append] at hall
  have hlog := hall.of_append_left
  simpa only [List.filter_map,List.map_map,Function.comp_def,boxLog] using hlog

theorem Accounted.documents_box (h : Accounted users s) (x y : String) :
    (s.store.documents (mensagens x y)).Perm ((s.boxLog x y).map Commit.doc) := by
  have hkeys : (((s.log.map Commit.entry).map Prod.fst).filter
      fun p => decide (p.collection = mensagens x y)).Nodup := by
    have hids := h.boxLog_ids_nodup x y
    have hpaths : ((s.boxLog x y).map fun c => c.pending.write.path).Nodup := by
      apply List.Nodup.of_map DocPath.id
      simpa only [List.map_map,Function.comp_def] using hids
    simpa only [List.map_map,List.filter_map,Function.comp_def,boxLog,inBox,Commit.entry] using hpaths
  refine (Store.documents_perm _ _).trans (List.Perm.of_eq ?_)
  rw [h.store_eq,KeyedLog.filter_entries_replay _ _ hkeys]
  simp only [List.map_map,List.filter_map,Function.comp_def,boxLog,inBox,Commit.entry]
  rfl

theorem Accounted.doc_data (h : Accounted users s) {c : Commit} (hc : c ∈ s.boxLog x y) :
    c.doc.2 "data" = some (.timestamp c.time) := by
  obtain ⟨n,e,_,⟨_,hp⟩ | ⟨_,hp⟩⟩ := h.mem_boxLog hc <;>
    simp only [Commit.doc,Commit.entry,hp,Send.ownMessage,Send.peerMessage,Write.data,
      mensagemDict_data]

theorem Accounted.mem_box (h : Accounted users s) {d : String × Dict}
    (hd : d ∈ s.store.documents (mensagens x y)) : ∃ c ∈ s.boxLog x y, c.doc = d :=
  List.mem_map.mp ((h.documents_box x y).subset hd)

/-- The listener's query returns the commits newest first, however the box is listed. -/
theorem Accounted.consulta_eq (h : Accounted users s) (x y : String) :
    consultaMensagens s.store x y = (s.boxLog x y).map Commit.doc := by
  have htime : ∀ c ∈ s.boxLog x y, Snapshot.time "data" c.doc = c.time := by
    intro c hc
    simp [Snapshot.time,h.doc_data hc,Value.asTimestamp]
  apply Snapshot.orderByDescending_of_perm (h.documents_box x y)
  · intro d hd
    obtain ⟨c,hc,rfl⟩ := List.mem_map.mp hd
    simp [h.doc_data hc]
  · rw [List.pairwise_map]
    refine (h.sorted.filter _).imp_of_mem fun {a b} ha hb hab => ?_
    rwa [htime a ha,htime b hb]

/-- Freshness: an automatic id identifies its send. -/
theorem Accounted.send_of_id (h : Accounted users s) {n : ℕ} {e : Send} {p : Pending}
    (he : s.sends[n]? = some e) (hp : p ∈ issuedFrom 0 s.sends) (hbox : inBox x y p = true)
    (hid : p.write.path.id ∈ e.ids) : p.send = n := by
  obtain ⟨k,e',he',hpe⟩ := mem_issuedFrom.mp hp
  rw [Nat.zero_add] at hpe
  have hid' := Send.id_mem_ids (h.registered e' (List.mem_of_getElem? he')) hpe hbox
  have hdisjoint := (List.pairwise_iff_getElem.mp (List.nodup_flatMap.mp h.fresh).2)
  obtain ⟨hn,rfl⟩ := List.getElem?_eq_some_iff.mp he
  obtain ⟨hk,rfl⟩ := List.getElem?_eq_some_iff.mp he'
  rw [send_of_mem_issue hpe]
  rcases lt_trichotomy k n with hlt | heq | hgt
  · exact absurd hid (hdisjoint k n hk hn hlt hid')
  · exact heq
  · exact absurd hid' (hdisjoint n k hn hk hgt hid)

theorem Accounted.filter_ids (h : Accounted users s) {n : ℕ} {e : Send}
    (he : s.sends[n]? = some e) (x y : String) :
    (issuedFrom 0 s.sends).filter (fun p => inBox x y p && decide (p.write.path.id ∈ e.ids)) =
      (e.issue n).filter (inBox x y) := by
  have hsend := filter_send_issuedFrom (n := 0) he
  rw [Nat.zero_add] at hsend
  rw [← hsend,List.filter_filter]
  apply List.filter_congr
  intro p hp
  cases hbox : inBox x y p with
  | false => simp
  | true =>
    simp only [Bool.true_and,decide_eq_decide]
    constructor
    · exact h.send_of_id he hp hbox
    · intro hpn
      obtain ⟨k,e',he',hpe⟩ := mem_issuedFrom.mp hp
      rw [Nat.zero_add] at hpe
      have hk : k = n := (send_of_mem_issue hpe).symm.trans hpn
      subst hk
      have hee : e' = e := Option.some.inj (he'.symm.trans he)
      subst hee
      exact Send.id_mem_ids (h.registered e' (List.mem_of_getElem? he')) hpe hbox

theorem Accounted.filter_boxLog (h : Accounted users s) (quiet : s.inFlight = []) {n : ℕ}
    {e : Send} (he : s.sends[n]? = some e) {p : Pending}
    (hp : (e.issue n).filter (inBox x y) = [p]) :
    ∃ c, c.pending = p ∧ (s.boxLog x y).filter (fun c => decide (c.doc.1 ∈ e.ids)) = [c] := by
  have hperm : (s.log.map Commit.pending).Perm (issuedFrom 0 s.sends) := by
    simpa [quiet] using h.accounted
  have hlog := hperm.filter fun p => inBox x y p && decide (p.write.path.id ∈ e.ids)
  rw [h.filter_ids he,hp,List.perm_singleton] at hlog
  have hmap : ((s.boxLog x y).filter fun c => decide (c.doc.1 ∈ e.ids)).map Commit.pending = [p] := by
    rw [← hlog,List.filter_map,boxLog,List.filter_filter]
    congr 1
    apply List.filter_congr
    exact fun c _ => Bool.and_comm _ _
  obtain ⟨c,hc,hcp⟩ := List.map_eq_singleton_iff.mp hmap
  exact ⟨c,hcp,hc⟩

end Network

/-- On the device of `dono`, the chat with `peer` shows the documents of the send in one
single row: its text, by `autor`, in a cell of the given side. -/
def ShownOnce (store : Store) (dono peer : String) (e : Send) (autor : String) (side : Side) :
    Prop :=
  ∃ r : ℕ, (∀ k : ℕ, (∃ d, (consultaMensagens store dono peer)[k]? = some d ∧ d.1 ∈ e.ids) ↔ k = r) ∧
    ∀ vc : ChatViewController, vc.idUsuarioLogado = some dono →
      (vc.mensagensSnapshot (some (consultaMensagens store dono peer))).cellForRowAt r =
        some (side,⟨some e.texto,some autor,none⟩)

theorem cellForRowAt_snapshot {vc : ChatViewController} {docs : Snapshot} {r : ℕ}
    {d : String × Dict} (hd : docs[r]? = some d) {dono autor texto : String}
    (hvc : vc.idUsuarioLogado = some dono)
    (hm : Message.ofDictionary d.2 = ⟨some texto,some autor,none⟩) :
    (vc.mensagensSnapshot (some docs)).cellForRowAt r =
      some (if dono = autor then .outgoing else .incoming,⟨some texto,some autor,none⟩) := by
  by_cases h : dono = autor <;>
    simp [ChatViewController.mensagensSnapshot,ChatViewController.cellForRowAt,hd,hm,hvc,h]

namespace Network

variable {users : Finset String} {s : Network} {x y : String}

theorem Accounted.shownOnce (h : Accounted users s) (quiet : s.inFlight = []) {n : ℕ} {e : Send}
    (he : s.sends[n]? = some e) {p : Pending} (hp : (e.issue n).filter (inBox x y) = [p])
    {autor : String} (hdata : p.write.data = mensagemDict autor e.texto) :
    ShownOnce s.store x y e autor (if x = autor then .outgoing else .incoming) := by
  obtain ⟨c,hcp,hc⟩ := h.filter_boxLog quiet he hp
  have hdocs : (consultaMensagens s.store x y).filter (fun d => decide (d.1 ∈ e.ids)) = [c.doc] := by
    rw [h.consulta_eq,List.filter_map]
    exact congrArg (List.map Commit.doc) hc
  obtain ⟨r,hr,hunique⟩ := Interleaving.exists_index_of_filter_eq_singleton _ hdocs
  refine ⟨r,by simpa using hunique,fun vc hvc => ?_⟩
  apply cellForRowAt_snapshot hr hvc
  simp [Commit.doc,Commit.entry,hcp,hdata]

theorem Accounted.shownBoth (h : Accounted users s) (quiet : s.inFlight = []) (hxy : x ≠ y)
    {e : Send} (he : e ∈ s.sends) (hbetween : e.Between x y) :
    ShownOnce s.store x y e x .outgoing ∧ ShownOnce s.store y x e x .incoming := by
  obtain ⟨n,hn⟩ := List.getElem?_of_mem he
  have hown : (e.issue n).filter (inBox x y) = [e.ownMessage n x y] := by
    simp [Send.filter_inBox hbetween,hxy]
  have hpeer : (e.issue n).filter (inBox y x) = [e.peerMessage n x y] := by
    simp [Send.filter_inBox hbetween,hxy]
  refine ⟨?_,?_⟩
  · simpa using h.shownOnce quiet hn hown rfl
  · simpa [hxy.symm] using h.shownOnce quiet hn hpeer rfl

theorem Accounted.mem_documents (h : Accounted users s) {d : String × Dict}
    (hd : d ∈ s.store.documents (mensagens x y)) :
    ∃ e ∈ s.sends, (e.Between x y ∨ e.Between y x) ∧ d.1 ∈ e.ids := by
  obtain ⟨c,hc,rfl⟩ := h.mem_box hd
  obtain ⟨n,e,he,hcase⟩ := h.mem_boxLog hc
  refine ⟨e,List.mem_of_getElem? he,hcase.imp And.left And.left,?_⟩
  rcases hcase with ⟨_,hp⟩ | ⟨_,hp⟩ <;>
    simp [Commit.doc,Commit.entry,hp,Send.ownMessage,Send.peerMessage,Write.path,Send.ids]

theorem Accounted.id_notMem (h : Accounted users s) {e : Send} (he : e ∈ s.sends) {u v : String}
    (huv : e.Between u v) (hx : (x,y) ≠ (u,v)) (hy : (x,y) ≠ (v,u)) {d : String × Dict}
    (hd : d ∈ s.store.documents (mensagens x y)) : d.1 ∉ e.ids := by
  intro hid
  obtain ⟨n,hn⟩ := List.getElem?_of_mem he
  obtain ⟨c,hc,rfl⟩ := h.mem_box hd
  obtain ⟨hlog,hbox⟩ := List.mem_filter.mp hc
  obtain ⟨k,e',hk,hcase⟩ := h.mem_boxLog hc
  have hsend := h.send_of_id hn (h.issued_of_log hlog) hbox hid
  have hkn : k = n := by
    rcases hcase with ⟨_,hp⟩ | ⟨_,hp⟩ <;> rw [hp] at hsend <;> exact hsend
  subst hkn
  have hee : e' = e := Option.some.inj (hk.symm.trans hn)
  subst hee
  rcases hcase with ⟨hb,_⟩ | ⟨hb,_⟩
  · obtain ⟨rfl,rfl⟩ := Send.between_unique huv hb
    exact hx rfl
  · obtain ⟨rfl,rfl⟩ := Send.between_unique huv hb
    exact hy rfl

end Network

theorem Send.documents_commit {e : Send} {u v x y : String} (huv : e.Between u v)
    (hx : (x,y) ≠ (u,v)) (hy : (x,y) ≠ (v,u)) {w : Write} (hw : w ∈ e.writes) (store : Store)
    (now : ℕ) : (store.commit now w).documents (mensagens x y) =
      store.documents (mensagens x y) := by
  apply Store.documents_commit_of_ne
  rw [Send.writes,ChatViewController.actionPushMessage_eq huv.1 huv.2] at hw
  simp only [List.mem_cons,List.not_mem_nil,or_false] at hw
  rcases hw with rfl | rfl | rfl | rfl
  · rintro hc
    obtain ⟨rfl,rfl⟩ := mensagens_inj.mp hc
    exact hx rfl
  · rintro hc
    obtain ⟨rfl,rfl⟩ := mensagens_inj.mp hc
    exact hy rfl
  · exact ultimasConversas_ne_mensagens u x y
  · exact ultimasConversas_ne_mensagens v x y

/-- Delivery is exactly once and correctly attributed: when nothing is in flight each send
from `a` to `b` shows as one outgoing row for `a` and one incoming row for `b`, every item
of the two boxes comes from a send between them, and no other box holds or is changed by one. -/
theorem delivery_exactly_once {users : Finset String} {es : List NetworkEvent} {s : Network}
    (run : (network users).exec Network.start es = some s) (quiet : s.inFlight = [])
    {a b : String} (hab : a ≠ b) :
    (∀ e ∈ s.sends, e.Between a b →
      ShownOnce s.store a b e a .outgoing ∧ ShownOnce s.store b a e a .incoming) ∧
    (∀ d, d ∈ s.store.documents (mensagens a b) ∨ d ∈ s.store.documents (mensagens b a) →
      ∃ e ∈ s.sends, (e.Between a b ∨ e.Between b a) ∧ d.1 ∈ e.ids) ∧
    ∀ e ∈ s.sends, e.Between a b → ∀ x y, (x,y) ≠ (a,b) → (x,y) ≠ (b,a) →
      (∀ d ∈ s.store.documents (mensagens x y), d.1 ∉ e.ids) ∧
      ∀ w ∈ e.writes, ∀ (store : Store) (now : ℕ),
        (store.commit now w).documents (mensagens x y) = store.documents (mensagens x y) := by
  have h := Network.Accounted.of_exec run
  refine ⟨fun e he hbetween => ?_,fun d hd => ?_,fun e he hbetween x y hx hy => ?_⟩
  · exact h.shownBoth quiet hab he hbetween
  · rcases hd with hd | hd
    · exact h.mem_documents hd
    · obtain ⟨e,he,hbetween,hid⟩ := h.mem_documents hd
      exact ⟨e,he,hbetween.symm,hid⟩
  · exact ⟨fun d hd => h.id_notMem he hbetween hx hy hd,
      fun w hw store now => Send.documents_commit hbetween hx hy hw store now⟩

def openChat (uid nome peer nomePeer : String) : ChatViewController :=
  (ChatViewController.viewDidLoad (.ofFields (some peer) (some nomePeer) (some "")) (some uid))
    |>.dadosUsuarioLogado false (some (Dict.ofList [("nome",.string nome),("id",.string uid)]))

def sendOi : Send := ⟨openChat "u1" "Ana" "u2" "Bia","oi","m1","m2"⟩

def sendOla : Send := ⟨openChat "u2" "Bia" "u1" "Ana","ola","m3","m4"⟩

def oiDelivered : List NetworkEvent :=
  [.send sendOi,.commit 1 1,.commit 2 2,.commit 0 3,.commit 0 4]

theorem delivery_exactly_once_oi :
    ∃ s, (network {"u1","u2"}).exec Network.start oiDelivered = some s ∧
      ShownOnce s.store "u1" "u2" sendOi "u1" .outgoing ∧
      ShownOnce s.store "u2" "u1" sendOi "u1" .incoming := by
  refine ⟨_,rfl,?_⟩
  have h := @delivery_exactly_once {"u1","u2"} oiDelivered _ rfl rfl "u1" "u2" (by decide)
  exact h.1 sendOi (List.mem_singleton.mpr rfl) ⟨rfl,rfl⟩

end MessageApp
