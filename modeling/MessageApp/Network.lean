import MessageApp.ChatController
import MessageApp.Interleaving
import MessageApp.Runs

/-! Sends in flight. Any number of clients execute `actionPushMessage`; every write
they issue waits in flight until the server commits it. The network commits waiting
writes in any order; the ordered network commits those of one client in issue order. -/
namespace MessageApp

inductive Part
  | ownMessage | peerMessage | ownPreview | peerPreview
  deriving DecidableEq

structure Send where
  vc : ChatViewController
  texto : String
  autoRemetente : String
  autoDestinatario : String

/-- An issued write. `client`, `send` and `part` tell where it comes from; the server
does not see them. -/
structure Pending where
  client : String
  send : ℕ
  part : Part
  write : Write

structure Commit where
  time : ℕ
  pending : Pending

namespace Send

def ids (e : Send) : List String := [e.autoRemetente,e.autoDestinatario]

def Between (e : Send) (u v : String) : Prop :=
  e.vc.idUsuarioLogado = some u ∧ e.vc.idContato = some v

instance (e : Send) (u v : String) : Decidable (e.Between u v) :=
  inferInstanceAs (Decidable (_ ∧ _))

def writes (e : Send) : List Write :=
  e.vc.actionPushMessage e.texto e.autoRemetente e.autoDestinatario

def issue (n : ℕ) (e : Send) : List Pending :=
  ([Part.ownMessage,.peerMessage,.ownPreview,.peerPreview].zip e.writes).map fun p =>
    ⟨e.vc.idUsuarioLogado.getD "",n,p.1,p.2⟩

end Send

structure Network where
  store : Store
  clock : ℕ
  inFlight : List Pending
  sends : List Send
  log : List Commit

inductive NetworkEvent
  | send (e : Send)
  | commit (i time : ℕ)

namespace Network

/-- A send happens in a session of a registered user, to a registered contact, and its
two automatic ids are fresh. -/
def Admissible (users : Finset String) (sends : List Send) (e : Send) : Prop :=
  (∃ u ∈ users, e.vc.idUsuarioLogado = some u) ∧ (∀ v ∈ e.vc.idContato, v ∈ users) ∧
    e.ids.Nodup ∧ ∀ a ∈ e.ids, a ∉ sends.flatMap Send.ids

instance (users : Finset String) (sends : List Send) (e : Send) :
    Decidable (Admissible users sends e) := inferInstanceAs (Decidable (_ ∧ _))

def start : Network := ⟨∅,0,[],[],[]⟩

def step (users : Finset String) (s : Network) : NetworkEvent → Option Network
  | .send e =>
    if Admissible users s.sends e then
      some { s with inFlight := s.inFlight ++ e.issue s.sends.length, sends := s.sends ++ [e] }
    else none
  | .commit i time =>
    match s.inFlight[i]? with
    | none => none
    | some p =>
      if s.clock < time then
        some { s with
          store := s.store.commit time p.write
          clock := time
          inFlight := s.inFlight.eraseIdx i
          log := ⟨time,p⟩::s.log }
      else none

/-- No earlier write of the same client waits in front of position `i`. -/
def FirstOfClient (s : Network) : NetworkEvent → Prop
  | .send _ => True
  | .commit i _ => ∀ p ∈ s.inFlight[i]?, ∀ q ∈ s.inFlight.take i, q.client ≠ p.client

instance (s : Network) (e : NetworkEvent) : Decidable (s.FirstOfClient e) := by
  cases e <;> unfold FirstOfClient <;> infer_instance

def orderedStep (users : Finset String) (s : Network) (e : NetworkEvent) : Option Network :=
  if s.FirstOfClient e then s.step users e else none

end Network

def network (users : Finset String) : Machine Network NetworkEvent :=
  ⟨Network.start,Network.step users⟩

def orderedNetwork (users : Finset String) : Machine Network NetworkEvent :=
  ⟨Network.start,Network.orderedStep users⟩

theorem orderedNetwork_exec {users : Finset String} {es : List NetworkEvent} {s t : Network}
    (h : (orderedNetwork users).exec s es = some t) : (network users).exec s es = some t := by
  refine Machine.exec_mono ?_ h
  intro s e t ht
  exact (Option.ite_none_right_eq_some.mp ht).2

def issuedFrom : ℕ → List Send → List Pending
  | _, [] => []
  | n, e::es => e.issue n ++ issuedFrom (n+1) es

theorem issuedFrom_append (n : ℕ) (es : List Send) (e : Send) :
    issuedFrom n (es ++ [e]) = issuedFrom n es ++ e.issue (n + es.length) := by
  induction es generalizing n with
  | nil => simp [issuedFrom]
  | cons a es ih => simp [issuedFrom,ih,Nat.add_comm,Nat.add_left_comm]

namespace Send

def ownMessage (n : ℕ) (e : Send) (u v : String) : Pending :=
  ⟨u,n,.ownMessage,.setData ⟨mensagens u v,e.autoRemetente⟩ (mensagemDict u e.texto)⟩

def peerMessage (n : ℕ) (e : Send) (u v : String) : Pending :=
  ⟨u,n,.peerMessage,.setData ⟨mensagens v u,e.autoDestinatario⟩ (mensagemDict u e.texto)⟩

def ownPreview (n : ℕ) (e : Send) (u v : String) : Pending :=
  ⟨u,n,.ownPreview,.setData ⟨ultimasConversas u,v⟩
    (conversaDict e.texto u v (e.vc.nomeContato.getD "") (some (e.vc.urlFotoContato.getD "")))⟩

def peerPreview (n : ℕ) (e : Send) (u v : String) : Pending :=
  ⟨u,n,.peerPreview,.setData ⟨ultimasConversas v,u⟩
    (conversaDict e.texto v u (e.vc.nomeUsuarioLogado.getD "") e.vc.urlFotoUsuarioLogado)⟩

variable {e : Send} {u v : String} {n : ℕ}

theorem issue_eq (h : e.Between u v) (n : ℕ) :
    e.issue n = [e.ownMessage n u v,e.peerMessage n u v,e.ownPreview n u v,e.peerPreview n u v] := by
  simp only [issue,writes,ChatViewController.actionPushMessage_eq h.1 h.2,h.1]
  rfl

theorem issue_none (h : e.vc.idContato = none) (n : ℕ) : e.issue n = [] := by
  simp [issue,writes,ChatViewController.actionPushMessage_none h]

theorem between_or_none {users : Finset String} {sends : List Send}
    (h : Network.Admissible users sends e) :
    e.vc.idContato = none ∨ ∃ u ∈ users, ∃ v ∈ users, e.Between u v := by
  obtain ⟨⟨u,hu,hlogado⟩,hcontato,_⟩ := h
  cases hv : e.vc.idContato with
  | none => exact Or.inl rfl
  | some v => exact Or.inr ⟨u,hu,v,hcontato v hv,hlogado,hv⟩

theorem between_unique {u' v' : String} (h : e.Between u v) (h' : e.Between u' v') :
    u = u' ∧ v = v' :=
  ⟨Option.some.inj (h.1.symm.trans h'.1),Option.some.inj (h.2.symm.trans h'.2)⟩

end Send

def inBox (x y : String) (p : Pending) : Bool := p.write.path.collection = mensagens x y

def Commit.entry (c : Commit) : DocPath × Dict :=
  (c.pending.write.path,Dict.resolve c.time c.pending.write.data)

namespace Network

/-- What every run keeps: the store is the replay of the log, and the issued writes are
exactly those in the log or in flight. -/
structure Accounted (users : Finset String) (s : Network) : Prop where
  store_eq : s.store = KeyedLog.replay (s.log.map Commit.entry)
  accounted : (s.log.map Commit.pending ++ s.inFlight).Perm (issuedFrom 0 s.sends)
  sorted : s.log.Pairwise fun a b => b.time < a.time
  clock_ge : ∀ c ∈ s.log, c.time ≤ s.clock
  fresh : (s.sends.flatMap Send.ids).Nodup
  registered : ∀ e ∈ s.sends, e.vc.idContato = none ∨ ∃ u ∈ users, ∃ v ∈ users, e.Between u v

variable {users : Finset String} {s t : Network}

theorem step_cases {ev : NetworkEvent} (h : s.step users ev = some t) :
    (∃ e, ev = .send e ∧ Admissible users s.sends e ∧ t =
      { s with inFlight := s.inFlight ++ e.issue s.sends.length, sends := s.sends ++ [e] }) ∨
    (∃ i time p, ev = .commit i time ∧ s.inFlight[i]? = some p ∧ s.clock < time ∧ t =
      { s with
        store := s.store.commit time p.write
        clock := time
        inFlight := s.inFlight.eraseIdx i
        log := ⟨time,p⟩::s.log }) := by
  cases ev with
  | send e =>
    obtain ⟨ha,ht⟩ := guarded h
    exact Or.inl ⟨e,rfl,ha,ht⟩
  | commit i time =>
    simp only [step] at h
    split at h
    · simp at h
    · rename_i p hp
      obtain ⟨htime,ht⟩ := guarded h
      exact Or.inr ⟨i,time,p,rfl,hp,htime,ht⟩

end Network

theorem Send.write_of_mem_issue {e : Send} {n : ℕ} {p : Pending} (h : p ∈ e.issue n) :
    ∃ path data, p.write = .setData path data := by
  simp only [Send.issue,List.mem_map] at h
  obtain ⟨⟨part,w⟩,hmem,rfl⟩ := h
  have hw : w ∈ e.writes := (List.of_mem_zip hmem).2
  simp only [Send.writes,ChatViewController.actionPushMessage] at hw
  split at hw
  · simp at hw
  · simp only [ChatViewController.salvarMensagem,ChatViewController.salvarConversa,
      Write.addDocument,List.mem_cons,List.not_mem_nil,or_false] at hw
    rcases hw with rfl | rfl | rfl | rfl <;> exact ⟨_,_,rfl⟩

theorem mem_issuedFrom {n : ℕ} {es : List Send} {p : Pending} :
    p ∈ issuedFrom n es ↔ ∃ (k : ℕ) (e : Send), es[k]? = some e ∧ p ∈ e.issue (n+k) := by
  induction es generalizing n with
  | nil => simp [issuedFrom]
  | cons a es ih =>
    simp only [issuedFrom,List.mem_append,ih]
    constructor
    · rintro (h | ⟨k,e,he,h⟩)
      · exact ⟨0,a,rfl,h⟩
      · exact ⟨k+1,e,by simpa using he,by rwa [Nat.add_assoc,Nat.add_comm 1] at h⟩
    · rintro ⟨k,e,he,h⟩
      cases k with
      | zero =>
        have hae : a = e := by simpa using he
        exact Or.inl (hae ▸ h)
      | succ k => exact Or.inr ⟨k,e,by simpa using he,by rwa [Nat.add_assoc,Nat.add_comm 1]⟩

theorem send_of_mem_issue {e : Send} {n : ℕ} {p : Pending} (h : p ∈ e.issue n) : p.send = n := by
  simp only [Send.issue,List.mem_map] at h
  obtain ⟨_,_,rfl⟩ := h
  rfl

theorem filter_send_issuedFrom {n k : ℕ} {es : List Send} {e : Send} (he : es[k]? = some e) :
    (issuedFrom n es).filter (fun p => p.send = n+k) = e.issue (n+k) := by
  induction es generalizing n k with
  | nil => simp at he
  | cons a es ih =>
    rw [issuedFrom,List.filter_append]
    cases k with
    | zero =>
      have hae : a = e := by simpa using he
      subst a
      have hrest : (issuedFrom (n+1) es).filter (fun p => p.send = n+0) = [] := by
        apply List.filter_eq_nil_iff.mpr
        intro p hp
        obtain ⟨k,e',_,hp⟩ := mem_issuedFrom.mp hp
        have hsend := send_of_mem_issue hp
        simp only [decide_eq_true_eq]
        omega
      have hself : (e.issue n).filter (fun p => p.send = n+0) = e.issue n :=
        List.filter_eq_self.mpr fun p hp => by simp [send_of_mem_issue hp]
      rw [hrest,List.append_nil]
      exact hself
    | succ k =>
      have hhead : (a.issue n).filter (fun p => p.send = n+(k+1)) = [] := by
        apply List.filter_eq_nil_iff.mpr
        intro p hp
        have hsend := send_of_mem_issue hp
        simp only [decide_eq_true_eq]
        omega
      have htail := ih (n := n+1) (k := k) (by simpa using he)
      rw [hhead,List.nil_append]
      simpa only [Nat.add_assoc,Nat.add_comm 1] using htail

namespace Network

variable {users : Finset String} {s t : Network}

theorem accounted_start : Accounted users start where
  store_eq := rfl
  accounted := by simp [start,issuedFrom]
  sorted := List.Pairwise.nil
  clock_ge := by simp [start]
  fresh := by simp [start]
  registered := by simp [start]

theorem Accounted.step {ev : NetworkEvent} (h : Accounted users s)
    (hstep : s.step users ev = some t) : Accounted users t := by
  rcases step_cases hstep with ⟨e,_,hadm,rfl⟩ | ⟨i,time,p,_,hp,htime,rfl⟩
  · refine { h with accounted := ?_, fresh := ?_, registered := ?_ }
    · rw [issuedFrom_append,← List.append_assoc,Nat.zero_add]
      exact h.accounted.append_right _
    · have hdisjoint : (s.sends.flatMap Send.ids).Disjoint e.ids :=
        fun a ha hae => hadm.2.2.2 a hae ha
      simpa using h.fresh.append hadm.2.2.1 hdisjoint
    · intro a ha
      rcases List.mem_append.mp ha with ha | ha
      · exact h.registered a ha
      · obtain rfl := List.mem_singleton.mp ha
        exact Send.between_or_none hadm
  · obtain ⟨hi,hget⟩ := List.getElem?_eq_some_iff.mp hp
    have hmem : p ∈ issuedFrom 0 s.sends :=
      h.accounted.subset (List.mem_append_right _ (List.mem_of_getElem? hp))
    obtain ⟨k,e,_,hpe⟩ := mem_issuedFrom.mp hmem
    obtain ⟨path,data,hw⟩ := Send.write_of_mem_issue hpe
    refine { h with store_eq := ?_, accounted := ?_, sorted := ?_, clock_ge := ?_ }
    · simp [KeyedLog.replay,Commit.entry,hw,Store.commit,Write.path,Write.data,← h.store_eq]
    · have herase : (p::s.inFlight.eraseIdx i).Perm s.inFlight :=
        hget ▸ List.getElem_cons_eraseIdx_perm hi
      have hmiddle : (p::(s.log.map Commit.pending ++ s.inFlight.eraseIdx i)).Perm
          (s.log.map Commit.pending ++ p::s.inFlight.eraseIdx i) := List.perm_middle.symm
      exact (hmiddle.trans (herase.append_left _)).trans h.accounted
    · refine List.pairwise_cons.mpr ⟨fun c hc => ?_,h.sorted⟩
      exact lt_of_le_of_lt (h.clock_ge c hc) htime
    · intro c hc
      rcases List.mem_cons.mp hc with rfl | hc
      · exact le_rfl
      · exact (h.clock_ge c hc).trans htime.le

theorem Accounted.of_exec {es : List NetworkEvent}
    (h : (network users).exec Network.start es = some s) : Accounted users s :=
  Machine.exec_invariant (m := network users) (P := Accounted users)
    (fun _ _ _ hs hst => hs.step hst) accounted_start h

end Network
end MessageApp
