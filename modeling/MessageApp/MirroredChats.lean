import MessageApp.AppPostOffice

/-! What two users see of their chat. Once no write to the chats is in flight and the listeners
of both screens have fired, a screen has on its right what its user sent and on its left what the
other one sent, each in the order it was sent: the two screens are mirror images, but for how the
two sides interleave. -/
namespace MessageApp

/-- The label of a text cell once its `data` is set; without data it keeps what it showed. -/
def textLabel (messageTextLabel : String) (data : Option Message) : String :=
  data.elim messageTextLabel fun data => data.texto.getD ""

def IncomingTextMessageTableViewCell.manageData (messageTextLabel : String)
    (data : Option Message) : String :=
  textLabel messageTextLabel data

def OutgoingTextMessageTableViewCell.manageData (messageTextLabel : String)
    (data : Option Message) : String :=
  textLabel messageTextLabel data

namespace ChatViewController

/-- The side and the label of a row, shown in a dequeued cell with the label `reused`. -/
def row (vc : ChatViewController) (reused : String) (indice : ℕ) : Option (Side × String) :=
  (vc.cellForRowAt indice).map fun
    | (.incoming,dados) => (.incoming,IncomingTextMessageTableViewCell.manageData reused (some dados))
    | (.outgoing,dados) => (.outgoing,OutgoingTextMessageTableViewCell.manageData reused (some dados))

/-- The rows of the table, the newest message first. -/
def rows (vc : ChatViewController) (reused : ℕ → String) : List (Side × String) :=
  (List.range vc.numberOfRowsInSection).filterMap fun indice => vc.row (reused indice) indice

def rowOf (vc : ChatViewController) (m : Option String × Option String) : Side × String :=
  (if vc.idUsuarioLogado = some (m.1.getD "") then .outgoing else .incoming,m.2.getD "")

theorem row_eq (vc : ChatViewController) (reused : String) (indice : ℕ) :
    vc.row reused indice =
      vc.listaMensagens[indice]?.map fun m => vc.rowOf (m.idUsuario,m.texto) := by
  simp only [row,cellForRowAt,Option.map_map]
  refine congrArg (Option.map · _) (funext fun m => ?_)
  by_cases h : vc.idUsuarioLogado = some (m.idUsuario.getD "") <;>
    simp [rowOf,h,IncomingTextMessageTableViewCell.manageData,
      OutgoingTextMessageTableViewCell.manageData,textLabel]

end ChatViewController

theorem filterMap_range_getElem? {α β : Type} (f : α → β) (l : List α) :
    ((List.range l.length).filterMap fun i => l[i]?.map f) = l.map f := by
  induction l with
  | nil => rfl
  | cons a l ih =>
    rw [List.length_cons,List.range_succ_eq_map,List.filterMap_cons,List.filterMap_map]
    simpa [Function.comp_def] using ih

namespace ChatViewController

variable {vc : ChatViewController} {a b : String}

theorem rows_eq (vc : ChatViewController) (reused : ℕ → String) :
    vc.rows reused = vc.listaMensagens.map fun m => vc.rowOf (m.idUsuario,m.texto) := by
  simp only [rows,row_eq]
  exact filterMap_range_getElem? _ vc.listaMensagens

/-- The screen shows the conversation of `a` with `b` as it is stored. -/
def Shows (vc : ChatViewController) (store : Store) (a b : String) : Prop :=
  vc.idUsuarioLogado = some a ∧ vc.idContato = some b ∧
    vc.listaMensagens = (consultaMensagens store a b).map fun d => Message.ofDictionary d.2

theorem Shows.rows {store : Store} (h : vc.Shows store a b) (reused : ℕ → String) :
    vc.rows reused = (conversation store a b).map vc.rowOf := by
  rw [rows_eq,h.2.2,conversation,List.map_map,List.map_map]
  rfl

theorem Shows.rows_filter {store : Store} (h : vc.Shows store a b) (reused : ℕ → String) :
    (vc.rows reused).filter (fun m => m.1 = .outgoing) =
        ((conversation store a b).filter fun m => some (m.1.getD "") = some a).map vc.rowOf ∧
      (vc.rows reused).filter (fun m => m.1 = .incoming) =
        ((conversation store a b).filter fun m => some (m.1.getD "") ≠ some a).map vc.rowOf := by
  rw [h.rows,List.filter_map,List.filter_map]
  refine ⟨congrArg _ (List.filter_congr fun m _ => ?_),congrArg _ (List.filter_congr fun m _ => ?_)⟩
  all_goals
    by_cases hm : some a = some (m.1.getD "") <;> simp [rowOf,h.1,hm,eq_comm]

end ChatViewController

def sentRows (side : Side) (sends : List Send) (u v : String) : List (Side × String) :=
  ((sends.filter fun e => e.Between u v).map fun e => (side,e.texto)).reverse

def Side.mirror : Side → Side
  | .incoming => .outgoing
  | .outgoing => .incoming

theorem sentRows_mirror (side : Side) (sends : List Send) (u v : String) :
    (sentRows side sends u v).map (Prod.map Side.mirror id) = sentRows side.mirror sends u v := by
  simp [sentRows,Function.comp_def]

theorem filter_mirror (side : Side) (l : List (Side × String)) :
    (l.map (Prod.map Side.mirror id)).filter (fun m => m.1 = side.mirror) =
      (l.filter fun m => m.1 = side).map (Prod.map Side.mirror id) := by
  rw [List.filter_map]
  refine congrArg _ (List.filter_congr fun m _ => ?_)
  rcases m with ⟨_ | _,_⟩ <;> cases side <;> rfl

namespace Network

variable {users : Finset String} {s : Network} {vc : ChatViewController} {a b : String}

theorem Accounted.author_conversation (h : Accounted users s) {m : Option String × Option String}
    (hm : m ∈ conversation s.store a b) : m.1 = some a ∨ m.1 = some b := by
  rw [h.conversation_numbers,List.mem_reverse] at hm
  obtain ⟨n,hn,rfl⟩ := List.mem_map.mp hm
  exact h.author_numbers hn

theorem map_rowOf_sentTo (hvc : vc.idUsuarioLogado = some a) (sends : List Send) (u v : String) :
    (sentTo sends u v).map vc.rowOf =
      sentRows (if u = a then .outgoing else .incoming) sends u v := by
  simp only [sentTo,sentRows,List.map_reverse,List.map_map]
  refine congrArg _ (List.map_congr_left fun e _ => ?_)
  simp [ChatViewController.rowOf,hvc,eq_comm]

/-- A screen has the sends of its user on the right and those of the peer on the left. -/
theorem Ordered.rows (hord : Ordered s) (h : Accounted users s) (quiet : s.inFlight = [])
    (hab : a ≠ b) (hvc : vc.Shows s.store a b) (reused : ℕ → String) :
    (vc.rows reused).filter (fun m => m.1 = .outgoing) = sentRows .outgoing s.sends a b ∧
      (vc.rows reused).filter (fun m => m.1 = .incoming) = sentRows .incoming s.sends b a := by
  obtain ⟨hright,hleft⟩ := hvc.rows_filter reused
  rw [hright,hleft]
  constructor
  · have hown : (conversation s.store a b).filter (fun m => some (m.1.getD "") = some a) =
        (conversation s.store a b).filter fun m => m.1 = some a := by
      refine List.filter_congr fun m hm => ?_
      rcases h.author_conversation hm with hm | hm <;> simp [hm]
    rw [hown,(hord.conversation_filter h quiet hab).1,map_rowOf_sentTo hvc.1,if_pos rfl]
  · have hpeer : (conversation s.store a b).filter (fun m => some (m.1.getD "") ≠ some a) =
        (conversation s.store a b).filter fun m => m.1 = some b := by
      refine List.filter_congr fun m hm => ?_
      rcases h.author_conversation hm with hm | hm <;> simp [hm,hab,hab.symm]
    rw [hpeer,(hord.conversation_filter h quiet hab.symm).2,map_rowOf_sentTo hvc.1,if_neg hab.symm]

end Network

theorem rows_perm {l l' : List (Side × String)}
    (hright : l.filter (fun m => m.1 = .outgoing) = l'.filter fun m => m.1 = .outgoing)
    (hleft : l.filter (fun m => m.1 = .incoming) = l'.filter fun m => m.1 = .incoming) :
    l.Perm l' := by
  have hsplit : ∀ l : List (Side × String),
      (l.filter (fun m => m.1 = .outgoing) ++ l.filter fun m => m.1 = .incoming).Perm l := by
    intro l
    have hnot : l.filter (fun m => m.1 = .incoming) =
        l.filter fun m => !decide (m.1 = .outgoing) := by
      refine List.filter_congr fun m _ => ?_
      rcases m with ⟨_ | _,_⟩ <;> rfl
    rw [hnot]
    exact List.filter_append_perm _ l
  have hl' := hsplit l'
  rw [← hright,← hleft] at hl'
  exact (hsplit l).symm.trans hl'

namespace App

variable {canon : String → String} {s t : App} {k : ℕ}

def ChatOpen (s : App) (k : ℕ) (a b : String) (vc : ChatViewController) : Prop :=
  ∃ ses chat, s.sessions[k]? = some ses ∧ ses.user.uid = a ∧ ses.chat = some chat ∧ chat.vc = vc ∧
    vc.idContato = some b

theorem step_mensagens {visible : List ℕ}
    (h : s.step canon (.client k (.mensagens false) visible) = some t) :
    ∃ ses chat c, s.sessions[k]? = some ses ∧ ses.chat = some chat ∧ chat.escuta = some c ∧
      t = request { s with
        sessions := s.sessions.set k { ses with
          chat := some (chat.mensagensSnapshot
            (some (((s.view visible).documents c).orderByDescending "data"))) }
        registrations := s.registrations+1 } {} := by
  obtain ⟨ses,hses,h⟩ := Option.bind_eq_some_iff.mp h
  obtain ⟨⟨ses',r⟩,hr,rfl⟩ := Option.map_eq_some_iff.mp h
  obtain ⟨chat,hchat,hr⟩ := Option.bind_eq_some_iff.mp hr
  obtain ⟨c,hc,hr⟩ := Option.map_eq_some_iff.mp hr
  obtain ⟨rfl,rfl⟩ := Prod.mk.inj hr
  exact ⟨ses,chat,c,hses,hchat,hc,rfl⟩

/-- The listener leaves the open chat of its session with what is stored, where no write to the chats is
in flight, and the other sessions as they are. -/
theorem refreshed {chat : Store} {visible : List ℕ} (hlaw : integrity.Holds s)
    (hpart : s.store.ChatPart chat) (quiet : ∀ w ∈ s.inFlight, w.ofChat = false)
    (h : s.step canon (.client k (.mensagens false) visible) = some t) :
    t.store = s.store ∧ t.inFlight = s.inFlight ∧
      (∀ a b vc, t.ChatOpen k a b vc → vc.Shows chat a b) ∧
      ∀ j, j ≠ k → t.sessions[j]? = s.sessions[j]? := by
  obtain ⟨ses,screen,c,hses,hscreen,hc,rfl⟩ := step_mensagens h
  refine ⟨rfl,by simp [request],?_,fun j hj => by simp [request,hj.symm]⟩
  rintro _ b _ ⟨ses',screen',hses',rfl,hscreen',rfl,hpeer⟩
  have hk : k < s.sessions.length := (List.getElem?_eq_some_iff.mp hses).1
  obtain rfl : _ = ses' := by simpa [request,hk] using hses'
  obtain rfl := Option.some.inj hscreen'
  -- the listener of a lawful chat is on the box of its user with its contact
  obtain ⟨hlogado,hcontato,_,hescuta,_⟩ :=
    (hlaw.sessions ses (List.mem_of_getElem? hses)).chat screen hscreen
  have hb : screen.peer = b := Option.some.inj (hcontato.symm.trans hpeer)
  obtain rfl : c = mensagens ses.user.uid b := by
    rw [hescuta,hb] at hc
    exact (Option.some.inj hc).symm
  have hview : (s.view visible).ChatPart chat := by
    refine hpart.commits_other (fun w hw => ?_) s.clock
    obtain ⟨i,_,hi⟩ := List.mem_filterMap.mp hw
    exact quiet w (List.mem_of_getElem? hi)
  refine ⟨hlogado,hpeer,?_⟩
  rw [hview.consulta]
  rfl

end App

section
variable {canon : String → String} {es : List AppEvent} {r t : Recorded} {k l : ℕ}

theorem Recorded.shows_both {chat : Store} {visible visible' : List ℕ} {a b : String}
    {vc vc' : ChatViewController} (hlaw : integrity.Holds r.app) (hpart : r.app.store.ChatPart chat)
    (quiet : ∀ w ∈ r.app.inFlight, w.ofChat = false)
    (refresh : (recordedApp canon).exec r
      [.client k (.mensagens false) visible,.client l (.mensagens false) visible'] = some t)
    (hA : t.app.ChatOpen k a b vc) (hB : t.app.ChatOpen l b a vc') (hab : a ≠ b) :
    vc.Shows chat a b ∧ vc'.Shows chat b a := by
  obtain ⟨u,hu,hut⟩ := Machine.exec_cons_eq.mp refresh
  obtain ⟨t',ht,htt⟩ := Machine.exec_cons_eq.mp hut
  obtain rfl : t' = t := Option.some.inj htt
  obtain ⟨app,happ,rfl⟩ := Option.map_eq_some_iff.mp hu
  obtain ⟨app',happ',rfl⟩ := Option.map_eq_some_iff.mp ht
  have hkl : k ≠ l := by
    rintro rfl
    obtain ⟨ses,_,hses,ha,_⟩ := hA
    obtain ⟨ses',_,hses',hb,_⟩ := hB
    exact hab (ha.symm.trans (Option.some.inj (hses.symm.trans hses') ▸ hb))
  have hlaw' := (integrity.closed canon).step_free hlaw happ
  obtain ⟨hstore,hfly,hshown,_⟩ := App.refreshed hlaw hpart quiet happ
  obtain ⟨_,_,hpeer,hothers⟩ := App.refreshed hlaw' (hstore ▸ hpart) (hfly ▸ quiet) happ'
  refine ⟨hshown a b vc ?_,hpeer b a vc' hB⟩
  -- the second listener leaves the first screen alone
  obtain ⟨ses,screen,hses,hrest⟩ := hA
  exact ⟨ses,screen,(hothers k hkl).symm.trans hses,hrest⟩

/-- In a run of the whole app that draws fresh ids, has no write rejected and commits the writes
of each user in order, once no write to the chats is in flight and the listeners of two screens
open on each other's users have fired, each screen has on its right what its user sent the other,
in the order sent, and on its left what the other sent, in the order sent, and the rows of one
are those of the other with the sides exchanged, in some order. -/
theorem open_chats_mirror (run : (recordedApp canon).exec Recorded.start es = some r)
    (reliable : (recordedApp canon).Along Recorded.Reliable Recorded.start es)
    (inOrder : (recordedApp canon).Along Recorded.InOrder Recorded.start es)
    (quiet : ∀ w ∈ r.app.inFlight, w.ofChat = false) {visible visible' : List ℕ}
    (refresh : (recordedApp canon).exec r
      [.client k (.mensagens false) visible,.client l (.mensagens false) visible'] = some t)
    {a b : String} {vc vc' : ChatViewController} (hA : t.app.ChatOpen k a b vc)
    (hB : t.app.ChatOpen l b a vc') (hab : a ≠ b) (reused reused' : ℕ → String) :
    ((vc.rows reused).filter (fun m => m.1 = .outgoing) = sentRows .outgoing r.sends a b ∧
      (vc.rows reused).filter (fun m => m.1 = .incoming) = sentRows .incoming r.sends b a) ∧
    ((vc'.rows reused').filter (fun m => m.1 = .outgoing) = sentRows .outgoing r.sends b a ∧
      (vc'.rows reused').filter (fun m => m.1 = .incoming) = sentRows .incoming r.sends a b) ∧
    (vc.rows reused).Perm ((vc'.rows reused').map (Prod.map Side.mirror id)) := by
  obtain ⟨hlaw,_,users,ns,n,_,hexec,hn⟩ := Recorded.carried true run reliable fun _ => inOrder
  have h := Network.Accounted.of_exec (networkOf_exec hexec)
  have hord := Network.Ordered.of_exec hexec
  have hquiet := hn.quiet quiet
  obtain ⟨hshown,hshown'⟩ := Recorded.shows_both hlaw hn.store quiet refresh hA hB hab
  have hrows := hn.sends ▸ hord.rows h hquiet hab hshown reused
  have hrows' := hn.sends ▸ hord.rows h hquiet hab.symm hshown' reused'
  have hright := filter_mirror .incoming (vc'.rows reused')
  have hleft := filter_mirror .outgoing (vc'.rows reused')
  rw [hrows'.2,sentRows_mirror] at hright
  rw [hrows'.1,sentRows_mirror] at hleft
  exact ⟨hrows,hrows',rows_perm (hrows.1.trans hright.symm) (hrows.2.trans hleft.symm)⟩

/-- The first message of a chat, and its recipient opens the chat as well. -/
def bothOpen : List AppEvent :=
  chatWithBia ++ firstMessage ++
    [.signIn "u2",.client 1 (.conversas 0 false) [],.client 1 (.select 0 "") []]

def refreshBoth : List AppEvent := [.client 0 (.mensagens false) [],.client 1 (.mensagens false) []]

theorem open_chats_mirror_bia :
    ∃ r t vc vc', (recordedApp id).exec Recorded.start bothOpen = some r ∧
      (recordedApp id).exec r refreshBoth = some t ∧ r.sends.map Send.texto = ["oi"] ∧
      t.app.ChatOpen 0 "u1" "u2" vc ∧ t.app.ChatOpen 1 "u2" "u1" vc' ∧
      (vc.rows fun _ => "").filter (fun m => m.1 = .outgoing) = sentRows .outgoing r.sends "u1" "u2" ∧
      (vc.rows fun _ => "").Perm ((vc'.rows fun _ => "").map (Prod.map Side.mirror id)) := by
  have hrun : ∃ r ∈ (recordedApp id).exec Recorded.start bothOpen,
      ∃ t ∈ (recordedApp id).exec r refreshBoth,
        (∀ w ∈ r.app.inFlight, w.ofChat = false) ∧ r.sends.map Send.texto = ["oi"] ∧
        (∃ ses ∈ t.app.sessions[0]?, ses.user.uid = "u1" ∧
          ∃ chat ∈ ses.chat, chat.vc.idContato = some "u2") ∧
        ∃ ses ∈ t.app.sessions[1]?, ses.user.uid = "u2" ∧
          ∃ chat ∈ ses.chat, chat.vc.idContato = some "u1" := by
    decide +kernel
  obtain ⟨r,hr,t,ht,quiet,htexto,⟨ses,hses,hu,chat,hchat,hpeer⟩,
    ses',hses',hu',chat',hchat',hpeer'⟩ := hrun
  have hA : t.app.ChatOpen 0 "u1" "u2" chat.vc := ⟨ses,chat,hses,hu,hchat,rfl,hpeer⟩
  have hB : t.app.ChatOpen 1 "u2" "u1" chat'.vc := ⟨ses',chat',hses',hu',hchat',rfl,hpeer'⟩
  have hmirror := @open_chats_mirror id bothOpen r t 0 1 hr
    (Machine.along_of_check (by decide +kernel)) (Machine.along_of_check (by decide +kernel))
    quiet [] [] ht "u1" "u2" chat.vc chat'.vc hA hB (by decide) (fun _ => "") fun _ => ""
  exact ⟨r,t,chat.vc,chat'.vc,hr,ht,htexto,hA,hB,hmirror.1.1,hmirror.2.2⟩

end
end MessageApp
