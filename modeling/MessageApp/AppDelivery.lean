import MessageApp.Authorship
import MessageApp.Simulation

/-! The chat traffic of the whole app is that of the network: whatever accounts, contacts,
photos and reads do in between, the sends of all sessions, their writes in flight and the
collections they go to run as they do on the network alone. Delivery there is delivery here. -/
namespace MessageApp

def DocPath.ofChat (p : DocPath) : Bool :=
  p.collection.head? = some "mensagens" ∨ p.collection.head? = some "conversas"

namespace Write

def ofChat (w : Write) : Bool := w.path.ofChat

end Write

namespace Store

/-- `chat` holds the messages and conversations of the store, in its order. -/
def ChatPart (store chat : Store) : Prop :=
  chat.entries = store.entries.filter fun e => e.1.ofChat

variable {store chat : Store}

theorem ChatPart.documents (h : store.ChatPart chat) {collection : List String}
    (hc : ∀ id, DocPath.ofChat ⟨collection,id⟩ = true) :
    chat.documents collection = store.documents collection := by
  have hentries : chat.entries = store.entries.filter fun e => e.1.ofChat := h
  simp only [Store.documents,hentries,List.filter_filter]
  refine congrArg _ (congrArg _ (List.filter_congr fun e _ => ?_))
  obtain ⟨⟨c,id⟩,d⟩ := e
  by_cases he : c = collection
  · simp [he,hc id]
  · simp [he]

theorem ChatPart.lookup (h : store.ChatPart chat) {p : DocPath} (hp : p.ofChat = true) :
    chat.lookup p = store.lookup p := by
  have hentries : chat.entries = store.entries.filter fun e => e.1.ofChat := h
  apply Option.ext
  intro d
  have hchat : chat.lookup p = some d ↔ (⟨p,d⟩ : Sigma fun _ : DocPath => Dict) ∈ chat.entries :=
    AList.mem_lookup_iff
  have hstore : store.lookup p = some d ↔ (⟨p,d⟩ : Sigma fun _ : DocPath => Dict) ∈ store.entries :=
    AList.mem_lookup_iff
  rw [hchat,hstore,hentries,List.mem_filter]
  simp [hp]

theorem ChatPart.commit (h : store.ChatPart chat) {w : Write} (hw : w.ofChat = true) (now : ℕ) :
    (store.commit now w).ChatPart (chat.commit now w) := by
  have hentries : chat.entries = store.entries.filter fun e => e.1.ofChat := h
  have hinsert : ∀ p d, DocPath.ofChat p = true → ChatPart (store.insert p d) (chat.insert p d) := by
    intro p d hp
    have hfilter := KeyedLog.kerase_filter DocPath.ofChat hp store.entries
    simp only [ChatPart,AList.entries_insert,List.filter_cons,hp,if_true,hfilter,hentries]
  cases w with
  | setData p data => exact hinsert p _ hw
  | updateData p data =>
    have hlookup : chat.lookup p = store.lookup p := h.lookup hw
    simp only [Store.commit,hlookup]
    split
    · exact h
    · exact hinsert p _ hw

theorem ChatPart.commit_other (h : store.ChatPart chat) {w : Write} (hw : w.ofChat = false)
    (now : ℕ) : (store.commit now w).ChatPart chat := by
  have hinsert : ∀ p d, DocPath.ofChat p = false → ChatPart (store.insert p d) chat := by
    intro p d hp
    have hfilter := KeyedLog.filter_kerase DocPath.ofChat hp store.entries
    simp only [ChatPart,AList.entries_insert,List.filter_cons,hp,Bool.false_eq_true,if_false,hfilter]
    exact h
  cases w with
  | setData p data => exact hinsert p _ hw
  | updateData p data =>
    simp only [Store.commit]
    split
    · exact h
    · exact hinsert p _ hw

theorem ChatPart.commits_other (h : store.ChatPart chat) {ws : List Write}
    (hws : ∀ w ∈ ws, w.ofChat = false) (now : ℕ) :
    (ws.foldl (Store.commit now) store).ChatPart chat := by
  induction ws generalizing store with
  | nil => exact h
  | cons w ws ih =>
    exact ih (h.commit_other (hws w (by simp)) now) fun v hv => hws v (by simp [hv])

end Store

theorem Send.writes_ofChat (e : Send) : e.writes.filter Write.ofChat = e.writes := by
  refine List.filter_eq_self.mpr fun w hw => ?_
  unfold Send.writes ChatViewController.actionPushMessage at hw
  split at hw
  · simp at hw
  · simp only [ChatViewController.salvarMensagem,ChatViewController.salvarConversa,
      Write.addDocument,List.mem_cons,List.not_mem_nil,or_false] at hw
    rcases hw with rfl | rfl | rfl | rfl <;> rfl

theorem App.issues_ofChat (s : App) (e : AppEvent) :
    (s.issues e).filter Write.ofChat = (s.sent e).elim [] Send.writes := by
  cases e with
  | register email nome resultado => cases resultado <;> rfl
  | client k ev visible =>
    cases hses : s.sessions[k]? with
    | none => simp [issues,sent,hses]
    | some ses =>
      have hfoto : (ses.foto ev).filter Write.ofChat = [] := by
        cases ev <;> rfl
      cases hm : ses.sent ev with
      | none => simp [issues,sent,hses,Session.issues,hm,hfoto]
      | some m => simp [issues,sent,hses,Session.issues,hm,hfoto,Send.writes_ofChat]
  | consulta j erro visible =>
    cases hq : s.consultas[j]? with
    | none => simp [issues,sent,hq]
    | some q =>
      refine List.filter_eq_nil_iff.mpr fun w hw => ?_
      have hw' : w ∈ s.consultaWrites q erro visible := by simpa [issues,hq] using hw
      obtain ⟨d,_,rfl⟩ := mem_consultaWrites hw'
      exact Bool.false_ne_true
  | _ => rfl

def AppEvent.rejects : AppEvent → Bool
  | .reject _ => true
  | _ => false

/-- A run of the app with the sends it has executed and, beside each write in flight, the user
whose step issued it. -/
structure Recorded where
  app : App
  sends : List Send
  issued : List (String × Write)

namespace Recorded

def start : Recorded := ⟨App.start,[],[]⟩

def waiting (r : Recorded) (e : AppEvent) : List (String × Write) :=
  match e.settled? with
  | some i => r.issued.eraseIdx i
  | none => r.issued ++ (r.app.issues e).map fun w => ((r.app.actor e).getD "",w)

def step (canon : String → String) (r : Recorded) (e : AppEvent) : Option Recorded :=
  (r.app.step canon e).map fun app =>
    ⟨app,r.sends ++ (r.app.sent e).toList,r.waiting e⟩

/-- No write is rejected, and a send draws automatic ids that were never drawn before. -/
def Reliable (r : Recorded) (e : AppEvent) : Prop :=
  e.rejects = false ∧
    ∀ m ∈ r.app.sent e, m.ids.Nodup ∧ ∀ a ∈ m.ids, a ∉ r.sends.flatMap Send.ids

instance (r : Recorded) (e : AppEvent) : Decidable (r.Reliable e) :=
  inferInstanceAs (Decidable (_ ∧ _))

/-- No earlier write of the same user waits in front of the one that is settled. -/
def InOrder (r : Recorded) (e : AppEvent) : Prop :=
  ∀ i ∈ e.settled?, ∀ p ∈ r.issued[i]?, ∀ q ∈ r.issued.take i, q.1 ≠ p.1

instance (r : Recorded) (e : AppEvent) : Decidable (r.InOrder e) :=
  inferInstanceAs (Decidable (∀ i ∈ _, ∀ p ∈ _, ∀ q ∈ _, _))

/-- The network runs the sends of the app: its store holds the chats, and what it has in flight
is what the app has in flight to them, from the same users. -/
structure Carries (r : Recorded) (n : Network) : Prop where
  sends : n.sends = r.sends
  store : r.app.store.ChatPart n.store
  issued : r.issued.map Prod.snd = r.app.inFlight
  inFlight : n.inFlight.map (fun p => (p.client,p.write)) = r.issued.filter fun p => p.2.ofChat
  clock : n.clock ≤ r.app.clock

end Recorded

def recordedApp (canon : String → String) : Machine Recorded AppEvent :=
  ⟨Recorded.start,Recorded.step canon⟩

/-- The network with its commits in the order of each client, or in any order. -/
def networkOf (ordered : Bool) (users : Finset String) : Machine Network NetworkEvent :=
  if ordered then orderedNetwork users else network users

section
variable {ordered : Bool} {users users' : Finset String} {s t : Network} {e : NetworkEvent}

theorem networkOf_step : (networkOf ordered users).step s e = some t ↔
    (ordered = true → s.FirstOfClient e) ∧ s.step users e = some t := by
  cases ordered with
  | false => simp [networkOf,network]
  | true =>
    simp only [networkOf,if_true,true_implies]
    exact Option.ite_none_right_eq_some

theorem networkOf_exec {es : List NetworkEvent} (h : (networkOf ordered users).exec s es = some t) :
    (network users).exec s es = some t :=
  Machine.exec_mono (fun _ _ _ ht => (networkOf_step.mp ht).2) h

theorem networkOf_exec_mono (hsub : users ⊆ users') {es : List NetworkEvent}
    (h : (networkOf ordered users).exec s es = some t) :
    (networkOf ordered users').exec s es = some t := by
  refine Machine.exec_mono ?_ h
  intro s e t ht
  obtain ⟨hfirst,hstep⟩ := networkOf_step.mp ht
  refine networkOf_step.mpr ⟨hfirst,?_⟩
  rcases Network.step_cases hstep with ⟨m,rfl,⟨⟨u,hu,hlogado⟩,hcontato,hids⟩,rfl⟩ |
    ⟨i,time,p,rfl,hp,htime,rfl⟩
  · have hadm : Network.Admissible users' s.sends m :=
      ⟨⟨u,hsub hu,hlogado⟩,fun v hv => hsub (hcontato v hv),hids⟩
    simp [Network.step,hadm]
  · simp [Network.step,hp,htime]

end

theorem Send.issue_clients {m : Send} {u v : String} (h : m.Between u v) (n : ℕ) :
    (m.issue n).map (fun p => (p.client,p.write)) = m.writes.map fun w => (u,w) := by
  simp [Send.issue,Send.writes,ChatViewController.actionPushMessage_eq h.1 h.2,h.1]

namespace Recorded

variable {canon : String → String} {r r' : Recorded} {n : Network} {users : Finset String}
  {ordered : Bool}

def BetweenUsers (accounts : List Account) (m : Send) : Prop :=
  ∃ u v, Registered accounts u ∧ Registered accounts v ∧ m.Between u v

theorem admissible {e : AppEvent} (hrel : r.Reliable e) {m : Send} (hm : r.app.sent e = some m)
    {u v : String} (hu : u ∈ users) (hv : v ∈ users) (hb : m.Between u v)
    (hsends : n.sends = r.sends) : Network.Admissible users n.sends m := by
  have hfresh := hrel.2 m hm
  refine ⟨⟨u,hu,hb.1⟩,fun w hw => ?_,hfresh.1,hsends ▸ hfresh.2⟩
  exact Option.some.inj (hb.2.symm.trans hw) ▸ hv

theorem Carries.send (h : r.Carries n) {m : Send} {u v : String} (hb : m.Between u v)
    (hadm : Network.Admissible users n.sends m) {app : App} {ws : List Write}
    (hstore : app.store = r.app.store) (hclock : app.clock = r.app.clock)
    (hfly : app.inFlight = r.app.inFlight ++ ws) (hws : ws.filter Write.ofChat = m.writes) :
    ∃ n', (networkOf ordered users).step n (.send m) = some n' ∧
      Carries ⟨app,r.sends ++ [m],r.issued ++ ws.map fun w => (u,w)⟩ n' := by
  refine ⟨{ n with inFlight := n.inFlight ++ m.issue n.sends.length, sends := n.sends ++ [m] },
    networkOf_step.mpr ⟨fun _ => trivial,by simp [Network.step,hadm]⟩,?_⟩
  refine ⟨by rw [h.sends],hstore ▸ h.store,?_,?_,hclock ▸ h.clock⟩
  · simp [h.issued,hfly,Function.comp_def]
  · rw [List.map_append,List.filter_append,h.inFlight,Send.issue_clients hb,← hws,List.filter_map]
    rfl

theorem Carries.quiet (h : r.Carries n) (quiet : ∀ w ∈ r.app.inFlight, w.ofChat = false) :
    n.inFlight = [] := by
  refine List.map_eq_nil_iff.mp (h.inFlight.trans (List.filter_eq_nil_iff.mpr fun p hp => ?_))
  have hfly : p.2 ∈ r.app.inFlight := h.issued ▸ List.mem_map_of_mem hp
  simp [quiet p.2 hfly]

theorem Carries.other (h : r.Carries n) {app : App} {u : String} {ws : List Write}
    (hstore : app.store = r.app.store) (hclock : app.clock = r.app.clock)
    (hfly : app.inFlight = r.app.inFlight ++ ws) (hws : ws.filter Write.ofChat = []) :
    Carries ⟨app,r.sends,r.issued ++ ws.map fun w => (u,w)⟩ n := by
  refine ⟨h.sends,hstore ▸ h.store,?_,?_,hclock ▸ h.clock⟩
  · simp [h.issued,hfly,Function.comp_def]
  · have hnone : (ws.map fun w => (u,w)).filter (fun p => p.2.ofChat) = [] := by
      rw [List.filter_map]
      exact List.map_eq_nil_iff.mpr hws
    rw [List.filter_append,hnone,List.append_nil]
    exact h.inFlight

theorem Carries.commit (h : r.Carries n) (users : Finset String) {i time : ℕ} {w : Write}
    (hw : r.app.inFlight[i]? = some w) (htime : r.app.clock < time)
    (hord : ordered = true → r.InOrder (.commit i time)) {app : App}
    (happ : app = { r.app with
      store := r.app.store.commit time w
      clock := time
      inFlight := r.app.inFlight.eraseIdx i }) :
    ∃ ns n', (networkOf ordered users).exec n ns = some n' ∧
      Carries ⟨app,r.sends,r.issued.eraseIdx i⟩ n' := by
  subst happ
  have hissued : (r.issued.eraseIdx i).map Prod.snd = r.app.inFlight.eraseIdx i := by
    rw [← h.issued,List.eraseIdx_map]
  rw [← h.issued,List.getElem?_map] at hw
  obtain ⟨⟨u,w⟩,hget,rfl⟩ := Option.map_eq_some_iff.mp hw
  cases hchat : w.ofChat with
  | false =>
    refine ⟨[],n,rfl,h.sends,h.store.commit_other hchat time,hissued,?_,h.clock.trans htime.le⟩
    rw [h.inFlight]
    exact (Interleaving.filter_eraseIdx_of_neg (fun p : String × Write => p.2.ofChat) hget hchat).symm
  | true =>
    obtain ⟨j,hj,herase,htake⟩ :=
      Interleaving.exists_filter_eraseIdx (fun p : String × Write => p.2.ofChat) hget hchat
    rw [← h.inFlight,List.getElem?_map] at hj
    obtain ⟨p,hp,hpu⟩ := Option.map_eq_some_iff.mp hj
    obtain ⟨rfl,rfl⟩ := Prod.mk.inj hpu
    have hclock : n.clock < time := lt_of_le_of_lt h.clock htime
    refine ⟨[.commit j time],{ n with
      store := n.store.commit time p.write
      clock := time
      inFlight := n.inFlight.eraseIdx j
      log := ⟨time,p⟩::n.log },?_,h.sends,h.store.commit hchat time,hissued,?_,le_rfl⟩
    · refine Machine.exec_cons_eq.mpr ⟨_,networkOf_step.mpr ⟨fun ho => ?_,?_⟩,rfl⟩
      · intro p' hp' q hq
        obtain rfl := Option.some.inj (hp.symm.trans hp')
        -- the writes in front of it to the chats are in front of it in the app
        have hfront : (q.client,q.write) ∈ (r.issued.take i).filter fun p => p.2.ofChat := by
          rw [← htake,← h.inFlight,← List.map_take]
          exact List.mem_map_of_mem hq
        exact hord ho i rfl _ hget _ (List.mem_filter.mp hfront).1
      · simp [Network.step,hp,hclock]
    · change (n.inFlight.eraseIdx j).map _ = (r.issued.eraseIdx i).filter _
      rw [herase,← h.inFlight,List.eraseIdx_map]

/-- Some run of the network of the registered users carries the app, and all sends so far are
between two of them. -/
def Carried (ordered : Bool) (r : Recorded) : Prop :=
  (∀ m ∈ r.sends, BetweenUsers r.app.accounts m) ∧
    ∃ (users : Finset String) (ns : List NetworkEvent) (n : Network),
      (∀ a ∈ r.app.accounts, a.uid ∈ users) ∧
        (networkOf ordered users).exec Network.start ns = some n ∧ r.Carries n

theorem carried_start (ordered : Bool) : start.Carried ordered :=
  ⟨by simp [start],∅,[],Network.start,by simp [start,App.start],rfl,rfl,rfl,rfl,rfl,le_rfl⟩

theorem Carried.step (h : r.Carried ordered) (hlaw : integrity.Holds r.app) {e : AppEvent}
    (hrel : r.Reliable e) (hord : ordered = true → r.InOrder e) (hstep : r.step canon e = some r') :
    r'.Carried ordered := by
  obtain ⟨app,happ,rfl⟩ := Option.map_eq_some_iff.mp hstep
  obtain ⟨hsends,users₀,ns,n,husers₀,run₀,hn⟩ := h
  have hbetween : ∀ m ∈ r.sends ++ (r.app.sent e).toList, BetweenUsers app.accounts m := by
    intro m hm
    obtain ⟨u,v,hu,hv,hb⟩ : BetweenUsers r.app.accounts m := by
      rcases List.mem_append.mp hm with hm | hm
      · exact hsends m hm
      · obtain ⟨u,v,_,hu,hv,hb⟩ := App.sent_between hlaw (Option.mem_toList.mp hm)
        exact ⟨u,v,hu,hv,hb⟩
    exact ⟨u,v,App.step_registered happ hu,App.step_registered happ hv,hb⟩
  refine ⟨hbetween,?_⟩
  -- the accounts of both states are users from now on
  let users : Finset String := users₀ ∪ (app.accounts.map Account.uid).toFinset
  have hsub : users₀ ⊆ users := Finset.subset_union_left
  have hnew : ∀ a ∈ app.accounts, a.uid ∈ users := fun a ha =>
    Finset.mem_union_right _ (List.mem_toFinset.mpr (List.mem_map_of_mem ha))
  have run := networkOf_exec_mono hsub run₀
  rcases App.step_issues happ with ⟨i,time,w,rfl,hw,htime,heq⟩ | ⟨i,rfl,_⟩ |
    ⟨hnew',hstore,hclock,hfly⟩
  · obtain ⟨ms,n',hms,hn'⟩ := hn.commit users hw htime hord heq
    refine ⟨users,ns ++ ms,n',hnew,Machine.exec_trans run hms,?_⟩
    simpa [App.sent,waiting,AppEvent.settled?] using hn'
  · exact absurd hrel.1 (by simp [AppEvent.rejects])
  · have hwaiting : r.waiting e =
        r.issued ++ (r.app.issues e).map fun w => ((r.app.actor e).getD "",w) := by
      simp [waiting,hnew']
    have hchat := r.app.issues_ofChat e
    cases hm : r.app.sent e with
    | none =>
      refine ⟨users,ns,n,hnew,run,?_⟩
      have hn' := hn.other (u := (r.app.actor e).getD "") hstore hclock hfly (by simpa [hm] using hchat)
      simpa [hwaiting] using hn'
    | some m =>
      obtain ⟨u,v,hactor,⟨a,ha,hau⟩,⟨b,hb,hbv⟩,hbm⟩ := App.sent_between hlaw hm
      have hadm := admissible hrel hm (hau ▸ hsub (husers₀ a ha)) (hbv ▸ hsub (husers₀ b hb)) hbm
        hn.sends
      obtain ⟨n',hstep',hn'⟩ := hn.send hbm hadm hstore hclock hfly (by simpa [hm] using hchat)
      refine ⟨users,ns ++ [.send m],n',hnew,Machine.exec_concat run hstep',?_⟩
      simpa [hwaiting,hactor] using hn'

theorem carried (ordered : Bool) {es : List AppEvent}
    (run : (recordedApp canon).exec start es = some r)
    (reliable : (recordedApp canon).Along Reliable start es)
    (inOrder : ordered = true → (recordedApp canon).Along InOrder start es) :
    integrity.Holds r.app ∧ r.Carried ordered := by
  have hkeep := Machine.throughout_of_along (m := recordedApp canon)
    (P := fun r => integrity.Holds r.app ∧ r.Carried ordered)
    (G := fun r e => r.Reliable e ∧ (ordered = true → r.InOrder e)) ?_
    ⟨Laws.holds_start _,carried_start ordered⟩ run
    (fun before e t hpre ht => ⟨reliable before e t hpre ht,fun ho => inOrder ho before e t hpre ht⟩)
  · exact hkeep es r (List.prefix_refl es) run
  · rintro r e r' ⟨hlaw,h⟩ ⟨hrel,hord⟩ hstep
    refine ⟨?_,h.step hlaw hrel hord hstep⟩
    obtain ⟨app,happ,rfl⟩ := Option.map_eq_some_iff.mp hstep
    exact (integrity.closed canon).step_free hlaw happ

end Recorded

theorem Store.ChatPart.consulta {store chat : Store} (h : store.ChatPart chat) (x y : String) :
    consultaMensagens chat x y = consultaMensagens store x y := by
  rw [consultaMensagens,consultaMensagens,h.documents fun id => rfl]

theorem ShownOnce.of_chatPart {store chat : Store} (h : store.ChatPart chat) {dono peer : String}
    {e : Send} {autor : String} {side : Side} (hshown : ShownOnce chat dono peer e autor side) :
    ShownOnce store dono peer e autor side := by
  unfold ShownOnce at hshown ⊢
  rwa [h.consulta] at hshown

/-- In a run of the whole app that draws fresh ids and has no write rejected, every send is
between two registered users, and once no write to the chats is in flight each send from `a`
to `b` shows as one outgoing row for `a` and one incoming row for `b`, while the two boxes hold
nothing but copies of the sends between them. -/
theorem app_delivery {canon : String → String} {es : List AppEvent} {r : Recorded}
    (run : (recordedApp canon).exec Recorded.start es = some r)
    (reliable : (recordedApp canon).Along Recorded.Reliable Recorded.start es)
    (quiet : ∀ w ∈ r.app.inFlight, w.ofChat = false) :
    (∀ e ∈ r.sends, ∃ a b, Registered r.app.accounts a ∧ Registered r.app.accounts b ∧
      e.Between a b) ∧
    ∀ a b, a ≠ b →
      (∀ e ∈ r.sends, e.Between a b → ShownOnce r.app.store a b e a .outgoing ∧
        ShownOnce r.app.store b a e a .incoming) ∧
      ∀ d, d ∈ r.app.store.documents (mensagens a b) ∨ d ∈ r.app.store.documents (mensagens b a) →
        ∃ e ∈ r.sends, (e.Between a b ∨ e.Between b a) ∧ d.1 ∈ e.ids := by
  obtain ⟨_,hbetween,users,ns,n,_,hexec,hn⟩ :=
    Recorded.carried false run reliable fun h => absurd h Bool.false_ne_true
  have h := Network.Accounted.of_exec hexec
  have hquiet := hn.quiet quiet
  refine ⟨hbetween,fun a b hab => ⟨fun e he hb => ?_,fun d hd => ?_⟩⟩
  · obtain ⟨hout,hin⟩ := h.shownBoth hquiet hab (hn.sends ▸ he) hb
    exact ⟨hout.of_chatPart hn.store,hin.of_chatPart hn.store⟩
  · rw [← hn.store.documents fun id => rfl,← hn.store.documents fun id => rfl] at hd
    rw [← hn.sends]
    rcases hd with hd | hd
    · exact h.mem_documents hd
    · obtain ⟨e,he,hb,hid⟩ := h.mem_documents hd
      exact ⟨e,he,hb.symm,hid⟩

theorem app_delivery_bia :
    ∃ r, (recordedApp id).exec Recorded.start (chatWithBia ++ firstMessage) = some r ∧
      ∃ e ∈ r.sends, e.texto = "oi" ∧ ShownOnce r.app.store "u1" "u2" e "u1" .outgoing ∧
        ShownOnce r.app.store "u2" "u1" e "u1" .incoming := by
  refine ⟨_,rfl,_,List.mem_singleton.mpr rfl,rfl,?_⟩
  have h := @app_delivery id (chatWithBia ++ firstMessage) _ rfl
    (Machine.along_of_check (by decide +kernel)) (by decide +kernel)
  exact (h.2 "u1" "u2" (by decide)).1 _ (List.mem_singleton.mpr rfl) ⟨rfl,rfl⟩

end MessageApp
