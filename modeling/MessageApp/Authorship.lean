import MessageApp.Integrity
import MessageApp.Simulation
import MessageApp.ConversationOrder
import MessageApp.HalfRegistered

/-! Who writes what. Every write of the app is issued in a step that acts for one user, goes to
a document of that user and carries that user's id. So the documents of a user change only
through that user's own steps, and a message is by the author it names. -/
namespace MessageApp

def AppEvent.settled? : AppEvent → Option ℕ
  | .commit i _ => some i
  | .reject i => some i
  | _ => none

namespace App

def actor (s : App) : AppEvent → Option String
  | .register _ _ (.ok uid) => some uid
  | .client k _ _ => s.sessions[k]?.map fun ses => ses.user.uid
  | .consulta j _ _ => s.consultas[j]?.map Consulta.idUsuario
  | _ => none

def sent (s : App) : AppEvent → Option Send
  | .client k e _ => s.sessions[k]?.bind fun ses => ses.sent e
  | _ => none

def snapshotResultado (s : App) (email : String) (erro : Bool) (visible : List ℕ) : Option Snapshot :=
  (resposta (s.view visible) usuarios erro).map fun docs => docs.whereField "email" email

theorem mem_snapshotResultado {s : App} {email : String} {erro : Bool} {visible : List ℕ}
    {docs : Snapshot} (h : s.snapshotResultado email erro visible = some docs) :
    docs = ((s.view visible).documents usuarios).whereField "email" email := by
  cases erro with
  | true => simp [snapshotResultado,resposta] at h
  | false => simpa [snapshotResultado,resposta,eq_comm] using h

def consultaWrites (s : App) (q : Consulta) (erro : Bool) (visible : List ℕ) : List Write :=
  match ContatoController.consultaResultado q.idUsuario
      (s.snapshotResultado q.email erro visible) with
  | .ok writes => writes
  | .error _ => []

def issues (s : App) : AppEvent → List Write
  | .register email nome (.ok uid) =>
    [.setData ⟨usuarios,uid⟩ (RegisterViewController.dadosUsuario nome email uid)]
  | .client k e _ => (s.sessions[k]?.map fun ses => ses.issues e).getD []
  | .consulta j erro visible => s.consultas[j]?.elim [] fun q => s.consultaWrites q erro visible
  | _ => []

variable {canon : String → String} {s t : App} {e : AppEvent}

theorem mem_consultaWrites {s : App} {q : Consulta} {erro : Bool} {visible : List ℕ} {w : Write}
    (hw : w ∈ s.consultaWrites q erro visible) :
    ∃ d ∈ ((s.view visible).documents usuarios).whereField "email" q.email,
      w = ContatoController.salvarContato d.2 q.idUsuario := by
  unfold consultaWrites ContatoController.consultaResultado at hw
  cases hdocs : s.snapshotResultado q.email erro visible with
  | none => simp [hdocs] at hw
  | some docs =>
    simp only [hdocs] at hw
    split at hw
    · rename_i ws hres
      split at hres
      · simp at hres
      · obtain rfl := Except.ok.inj hres
        obtain ⟨d,hd,rfl⟩ := List.mem_map.mp hw
        exact ⟨d,mem_snapshotResultado hdocs ▸ hd,rfl⟩
    · simp at hw

/-- What a step does to the store: it commits a write in flight, drops one, or issues some. -/
theorem step_issues (h : s.step canon e = some t) :
    (∃ i time w, e = .commit i time ∧ s.inFlight[i]? = some w ∧ s.clock < time ∧
      t = { s with
        store := s.store.commit time w
        clock := time
        inFlight := s.inFlight.eraseIdx i }) ∨
    (∃ i, e = .reject i ∧ t = { s with inFlight := s.inFlight.eraseIdx i }) ∨
    (e.settled? = none ∧ t.store = s.store ∧ t.clock = s.clock ∧
      t.inFlight = s.inFlight ++ s.issues e) := by
  cases e with
  | register email nome resultado =>
    right; right
    cases resultado with
    | error erro =>
      obtain rfl := Option.some.inj h
      exact ⟨rfl,rfl,rfl,(List.append_nil _).symm⟩
    | ok uid =>
      simp only [step,App.register] at h
      split at h
      · obtain ⟨_,rfl⟩ := guarded h
        exact ⟨rfl,rfl,rfl,rfl⟩
      · simp at h
  | signIn uid =>
    obtain ⟨a,_,rfl⟩ := Option.map_eq_some_iff.mp h
    exact Or.inr (Or.inr ⟨rfl,rfl,rfl,rfl⟩)
  | signOut k =>
    obtain ⟨_,rfl⟩ := guarded h
    exact Or.inr (Or.inr ⟨rfl,rfl,rfl,(List.append_nil _).symm⟩)
  | client k ev visible =>
    obtain ⟨ses,hses,h⟩ := Option.bind_eq_some_iff.mp h
    obtain ⟨⟨ses',r⟩,hr,rfl⟩ := Option.map_eq_some_iff.mp h
    refine Or.inr (Or.inr ⟨rfl,rfl,rfl,?_⟩)
    simp [request,issues,hses,Session.step_writes hr]
  | consulta j erro visible =>
    obtain ⟨q,hq,rfl⟩ := Option.map_eq_some_iff.mp h
    right; right
    dsimp only
    split
    · rename_i ws hres
      exact ⟨rfl,rfl,rfl,by simp [request,issues,hq,consultaWrites,snapshotResultado,hres]⟩
    · rename_i erro hres
      exact ⟨rfl,rfl,rfl,by simp [issues,hq,consultaWrites,snapshotResultado,hres]⟩
  | commit i time =>
    obtain ⟨w,hw,h⟩ := Option.bind_eq_some_iff.mp h
    obtain ⟨htime,rfl⟩ := guarded h
    exact Or.inl ⟨i,time,w,rfl,hw,htime,rfl⟩
  | reject i =>
    obtain ⟨_,rfl⟩ := guarded h
    exact Or.inr (Or.inl ⟨i,rfl,rfl⟩)

theorem step_registered (h : s.step canon e = some t) {u : String}
    (hu : Registered s.accounts u) : Registered t.accounts u := by
  rcases step_cases h with ⟨a,_,haccounts,_⟩ | ⟨haccounts,_⟩ | ⟨haccounts,_⟩
  · exact haccounts ▸ hu.grow a
  · exact haccounts ▸ hu
  · exact haccounts ▸ hu

theorem sent_between (hlaw : integrity.Holds s) {m : Send} (hm : s.sent e = some m) :
    ∃ u v, s.actor e = some u ∧ Registered s.accounts u ∧ Registered s.accounts v ∧
      m.Between u v := by
  cases e with
  | client k ev visible =>
    obtain ⟨ses,hses,hm⟩ := Option.bind_eq_some_iff.mp hm
    have hsession := hlaw.sessions ses (List.mem_of_getElem? hses)
    cases ev with
    | actionPushMessage texto a b =>
      obtain ⟨chat,hchat,rfl⟩ := Option.map_eq_some_iff.mp hm
      obtain ⟨hlogado,hcontato,hpeer,_⟩ := hsession.chat chat hchat
      exact ⟨ses.user.uid,chat.peer,by simp [actor,hses],hsession.usuario,hpeer,hlogado,hcontato⟩
    | _ => simp [Session.sent] at hm
  | _ => simp [sent] at hm

end App

/-- The documents the app writes for the user `uid`. -/
def Place.Of (uid : String) : Place → Prop
  | .usuario u => u = uid
  | .contato u _ => u = uid
  | .conversa x y => x = uid ∨ y = uid
  | .mensagem x y _ => x = uid ∨ y = uid

instance (uid : String) (p : Place) : Decidable (p.Of uid) := by
  cases p <;> unfold Place.Of <;> infer_instance

/-- What it may write for `uid`: documents of `uid` that carry the ids of their path, messages by
`uid`, and updates of the photo. -/
def signature (uid : String) : Laws where
  doc _ p d := p.Of uid ∧ match p with
    | .usuario u => Dict.string? d "id" = some u
    | .contato _ c => Dict.string? d "id" = some c
    | .conversa x y =>
      Dict.string? d "idRemetente" = some x ∧ Dict.string? d "idDestinatario" = some y
    | .mensagem _ _ _ => Dict.string? d "idUsuario" = some uid
  update _ p d := p = .usuario uid ∧ ∀ k, d k ≠ none → k = "urlImagem"
  consulta _ _ := True
  usuario _ _ := True
  contato _ _ _ _ := True
  conversa _ _ _ _ := True
  chat _ _ _ := True
  referencia _ := True

def Write.SignedBy (uid : String) (w : Write) : Prop := (signature uid).Write [] w

theorem Write.SignedBy.place {uid : String} {w : Write} (h : w.SignedBy uid) :
    ∃ p : Place, w.path = p.path ∧ p.Of uid := by
  cases w with
  | setData path data =>
    obtain ⟨p,hp,hof,_⟩ := h
    exact ⟨p,hp,hof⟩
  | updateData path data =>
    obtain ⟨p,hp,rfl,_⟩ := h
    exact ⟨_,hp,rfl⟩

theorem Send.signed {m : Send} {u v : String} (h : m.Between u v) :
    ∀ w ∈ m.writes, w.SignedBy u :=
  Laws.write_actionPushMessage (L := signature u) h.1 h.2 ⟨.inl rfl,rfl⟩ ⟨.inr rfl,rfl⟩
    ⟨.inl rfl,rfl,rfl⟩ ⟨.inr rfl,rfl,rfl⟩

namespace App

variable {canon : String → String} {s t : App} {e : AppEvent}

theorem consultaWrites_signed (hlaw : integrity.Holds s) (q : Consulta) {erro : Bool}
    {visible : List ℕ} {w : Write} (hw : w ∈ s.consultaWrites q erro visible) :
    w.SignedBy q.idUsuario := by
  obtain ⟨⟨u,d⟩,hd,rfl⟩ := mem_consultaWrites hw
  have hlookup := Store.mem_documents.mp (List.mem_filter.mp hd).1
  have hid := ((integrity.closed id).view hlaw visible (.usuario u) d hlookup).2
  exact Laws.write_salvarContato hid ⟨rfl,hid⟩

/-- Whatever a step writes is signed by the user it acts for. -/
theorem issues_signed (hlaw : integrity.Holds s) {w : Write} (hw : w ∈ s.issues e) :
    ∃ uid, s.actor e = some uid ∧ w.SignedBy uid := by
  cases e with
  | register email nome resultado =>
    cases resultado with
    | error erro => simp [issues] at hw
    | ok uid =>
      obtain rfl := List.mem_singleton.mp hw
      exact ⟨uid,rfl,.usuario uid,rfl,rfl,rfl⟩
  | client k ev visible =>
    cases hses : s.sessions[k]? with
    | none => simp [issues,hses] at hw
    | some ses =>
      have hw' : w ∈ ses.issues ev := by simpa [issues,hses] using hw
      rcases Session.mem_issues hw' with ⟨m,hm,hw'⟩ | hw'
      · have hsent : s.sent (.client k ev visible) = some m := by simp [sent,hses,hm]
        obtain ⟨u,v,hactor,_,_,hb⟩ := sent_between hlaw hsent
        exact ⟨u,hactor,Send.signed hb w hw'⟩
      · refine ⟨ses.user.uid,by simp [actor,hses],?_⟩
        cases ev with
        | downloadURL urlImagem =>
          obtain rfl := List.mem_singleton.mp hw'
          refine ⟨.usuario ses.user.uid,rfl,rfl,fun k hk => ?_⟩
          by_contra hne
          exact hk (by simp [Dict.ofList,Dict.set,Dict.empty,hne])
        | _ => simp [Session.foto] at hw'
  | consulta j erro visible =>
    cases hq : s.consultas[j]? with
    | none => simp [issues,hq] at hw
    | some q =>
      refine ⟨q.idUsuario,by simp [actor,hq],?_⟩
      exact consultaWrites_signed hlaw q (by simpa [issues,hq] using hw)
  | _ => simp [issues] at hw

end App

/-- What the app reads for `uid`: the users, the user's own document, contacts and conversations,
and message boxes of the user. -/
def ReadFor (uid : String) (c : List String) : Prop :=
  c ∈ [usuarios,DocPath.segments ⟨usuarios,uid⟩,contatos uid,ultimasConversas uid] ∨
    ∃ peer, c = mensagens uid peer

structure Requests.For (uid : String) (r : Requests) : Prop where
  writes : ∀ w ∈ r.writes, w.SignedBy uid
  consultas : ∀ q ∈ r.consultas, q.idUsuario = uid
  leituras : ∀ c ∈ r.leituras, ReadFor uid c

namespace Session

variable {A : List Account} {view : Store} {n : ℕ} {ses ses' : Session} {e : ClientEvent}
  {r : Requests}

theorem readFor_collection {uid : String} {effects : List HomeEffect} (he : ∀ e ∈ effects, e.On uid) :
    ∀ c ∈ effects.filterMap HomeEffect.collection?, ReadFor uid c := by
  intro c hc
  obtain ⟨e,hmem,hcollection⟩ := List.mem_filterMap.mp hc
  have hon := he e hmem
  cases e with
  | getDocuments c' =>
    obtain rfl := Option.some.inj hcollection
    obtain rfl : c' = contatos uid := hon
    exact .inl (by simp)
  | addSnapshotListener i c' =>
    obtain rfl := Option.some.inj hcollection
    obtain rfl : c' = ultimasConversas uid := hon
    exact .inl (by simp)
  | remove handle => simp [HomeEffect.collection?] at hcollection
  | reloadCollection => simp [HomeEffect.collection?] at hcollection

theorem readFor_openChat (ses : Session) (contato : Contact) (peer : String) :
    ∀ c ∈ (ses.openChat contato peer).2.leituras, ReadFor ses.user.uid c := by
  intro c hc
  simp only [openChat,ChatScreen.push_eq,Option.map_some,Option.toList_some,List.singleton_append,
    List.mem_cons,Option.mem_toList,Option.map_eq_some_iff] at hc
  rcases hc with rfl | ⟨peer,_,rfl⟩
  · exact .inl (by simp)
  · exact .inr ⟨peer,rfl⟩

theorem step_reads (hs : integrity.Session A ses) (h : ses.step view n e = some (ses',r)) :
    (∀ q ∈ r.consultas, q.idUsuario = ses.user.uid) ∧ ∀ c ∈ r.leituras, ReadFor ses.user.uid c := by
  have hget : HomeEffect.On ses.user.uid
      (.getDocuments (contatos (ses.home.vc.idUsuarioLogado.getD ""))) := by
    simp [HomeEffect.On,hs.logado]
  cases e with
  | tab type =>
    cases type with
    | contact =>
      obtain ⟨_,rfl⟩ := Prod.mk.inj (Option.some.inj h)
      refine ⟨List.forall_mem_nil _,readFor_collection fun e he => ?_⟩
      rcases List.mem_pair.mp he with rfl | rfl
      · exact hget
      · trivial
    | conversation =>
      obtain ⟨_,rfl⟩ := Prod.mk.inj (Option.some.inj h)
      refine ⟨List.forall_mem_nil _,readFor_collection fun e he => ?_⟩
      rcases List.mem_pair.mp he with rfl | rfl
      · rfl
      · trivial
  | conversas j erro =>
    obtain ⟨reg,_,h⟩ := Option.map_eq_some_iff.mp h
    obtain ⟨_,rfl⟩ := Prod.mk.inj h
    cases erro <;> simp [resposta,MessageListViewController.conversasSnapshot,HomeEffect.collection?]
  | contatos j erro =>
    obtain ⟨c,_,h⟩ := Option.map_eq_some_iff.mp h
    obtain ⟨_,rfl⟩ := Prod.mk.inj h
    cases erro <;> simp [resposta,MessageListViewController.contatosResultado,HomeEffect.collection?]
  | successDismissed =>
    obtain ⟨_,rfl⟩ := Prod.mk.inj (Option.some.inj h)
    refine ⟨List.forall_mem_nil _,readFor_collection fun e he => ?_⟩
    obtain rfl := List.mem_singleton.mp he
    exact hget
  | select row texto =>
    simp only [step,select] at h
    split at h
    · simp at h
    · obtain ⟨_,rfl⟩ := Prod.mk.inj (Option.some.inj h)
      exact ⟨List.forall_mem_nil _,ses.readFor_openChat _ _⟩
    · split at h
      · obtain ⟨_,rfl⟩ := Prod.mk.inj (Option.some.inj h)
        simp
      · rename_i q hq
        obtain ⟨_,rfl⟩ := Prod.mk.inj (Option.some.inj h)
        unfold ContatoController.addContact at hq
        split at hq
        · simp at hq
        · obtain rfl := Except.ok.inj hq
          simp [ReadFor,hs.logado]
  | dadosUsuarioLogado erro =>
    obtain ⟨chat,_,h⟩ := Option.bind_eq_some_iff.mp h
    obtain ⟨p,_,h⟩ := Option.map_eq_some_iff.mp h
    obtain ⟨_,rfl⟩ := Prod.mk.inj h
    simp
  | mensagens erro =>
    obtain ⟨chat,_,h⟩ := Option.bind_eq_some_iff.mp h
    obtain ⟨c,_,h⟩ := Option.map_eq_some_iff.mp h
    obtain ⟨_,rfl⟩ := Prod.mk.inj h
    simp
  | actionPushMessage texto a b =>
    simp only [step] at h
    split at h
    · obtain ⟨chat,_,h⟩ := Option.map_eq_some_iff.mp h
      obtain ⟨_,rfl⟩ := Prod.mk.inj h
      simp
    · simp at h
  | back =>
    obtain ⟨_,rfl⟩ := Prod.mk.inj (Option.some.inj h)
    simp
  | downloadURL urlImagem =>
    obtain ⟨_,rfl⟩ := Prod.mk.inj (Option.some.inj h)
    simp

theorem step_for (hs : integrity.Session A ses)
    (hsigned : ∀ w ∈ ses.issues e, w.SignedBy ses.user.uid)
    (h : ses.step view n e = some (ses',r)) : r.For ses.user.uid := by
  obtain ⟨hconsultas,hleituras⟩ := step_reads hs h
  refine ⟨?_,hconsultas,hleituras⟩
  rw [step_writes h]
  exact hsigned

end Session

theorem Store.lookup_commits_of_ne {p : DocPath} {ws : List Write} (now : ℕ) (store : Store)
    (h : ∀ w ∈ ws, w.path ≠ p) : (ws.foldl (Store.commit now) store).lookup p = store.lookup p := by
  induction ws generalizing store with
  | nil => rfl
  | cons w ws ih =>
    have hne := (h w (by simp)).symm
    exact (ih _ fun v hv => h v (by simp [hv])).trans (Store.lookup_commit_of_ne hne)

namespace App

variable {canon : String → String} {s t : App} {e : AppEvent} {p : Place}

theorem path_ne_of_issues (hlaw : integrity.Holds s) (hother : ∀ uid ∈ s.actor e, ¬ p.Of uid)
    {w : Write} (hw : w ∈ s.issues e) : w.path ≠ p.path := by
  intro hpath
  obtain ⟨uid,hactor,hsigned⟩ := issues_signed hlaw hw
  obtain ⟨q,hq,hof⟩ := hsigned.place
  obtain rfl := Place.path_inj.mp (hpath.symm.trans hq)
  exact hother uid hactor hof

/-- The document is as it was, and nothing in flight will change it. -/
def Untouched (p : Place) (doc : Option Dict) (s : App) : Prop :=
  s.store.lookup p.path = doc ∧ ∀ w ∈ s.inFlight, w.path ≠ p.path

theorem Untouched.step {doc : Option Dict} (h : s.Untouched p doc) (hlaw : integrity.Holds s)
    (hother : ∀ uid ∈ s.actor e, ¬ p.Of uid) (hstep : s.step canon e = some t) :
    t.Untouched p doc := by
  rcases step_issues hstep with ⟨i,time,w,rfl,hw,_,rfl⟩ | ⟨i,rfl,rfl⟩ | ⟨_,hstore,_,hfly⟩
  · refine ⟨?_,fun v hv => h.2 v (List.mem_of_mem_eraseIdx hv)⟩
    have hne := (h.2 w (List.mem_of_getElem? hw)).symm
    exact (Store.lookup_commit_of_ne hne).trans h.1
  · exact ⟨h.1,fun v hv => h.2 v (List.mem_of_mem_eraseIdx hv)⟩
  · refine ⟨hstore ▸ h.1,fun v hv => ?_⟩
    rw [hfly] at hv
    exact (List.mem_append.mp hv).elim (h.2 v) (path_ne_of_issues hlaw hother)

theorem Untouched.view {doc : Option Dict} (h : s.Untouched p doc) (visible : List ℕ) :
    (s.view visible).lookup p.path = doc := by
  refine (Store.lookup_commits_of_ne s.clock s.store fun w hw => ?_).trans h.1
  obtain ⟨i,_,hi⟩ := List.mem_filterMap.mp hw
  exact h.2 w (List.mem_of_getElem? hi)

/-- A message at `path` with this author and text is stored or in flight. -/
def Tells (path : DocPath) (m : Option String × Option String) (s : App) : Prop :=
  (∃ data, .setData path data ∈ s.inFlight ∧ said data = m) ∨
    ∃ d, s.store.lookup path = some d ∧ said d = m

theorem tells_step {x y a : String} {m : Option String × Option String} (hlaw : integrity.Holds s)
    (hstep : s.step canon e = some t) (ht : t.Tells ⟨mensagens x y,a⟩ m) :
    s.Tells ⟨mensagens x y,a⟩ m ∨
      ∃ data, .setData ⟨mensagens x y,a⟩ data ∈ s.issues e ∧ said data = m := by
  rcases step_issues hstep with ⟨i,time,w,rfl,hw,_,rfl⟩ | ⟨i,rfl,rfl⟩ | ⟨_,hstore,_,hfly⟩
  · have hmem := List.mem_of_getElem? hw
    rcases ht with ⟨data,hdata,hsaid⟩ | ⟨d,hd,hsaid⟩
    · exact .inl (.inl ⟨data,List.mem_of_mem_eraseIdx hdata,hsaid⟩)
    · left
      by_cases hpath : ⟨mensagens x y,a⟩ = w.path
      · cases w with
        | setData path data =>
          obtain rfl : ⟨mensagens x y,a⟩ = path := hpath
          obtain rfl : Dict.resolve time data = d := by simpa using hd
          exact .inl ⟨data,hmem,by simpa using hsaid⟩
        | updateData path data =>
          -- a lawful update goes to a document of `usuarios`
          obtain ⟨q,rfl,hq⟩ := hlaw.inFlight _ hmem
          cases q with
          | usuario u => simp [Write.path,Place.path,mensagens,usuarios] at hpath
          | _ => exact hq.elim
      · exact .inr ⟨d,(Store.lookup_commit_of_ne hpath).symm.trans hd,hsaid⟩
  · refine .inl (ht.imp_left ?_)
    rintro ⟨data,hdata,hsaid⟩
    exact ⟨data,List.mem_of_mem_eraseIdx hdata,hsaid⟩
  · rcases ht with ⟨data,hdata,hsaid⟩ | ⟨d,hd,hsaid⟩
    · rw [hfly] at hdata
      exact (List.mem_append.mp hdata).imp (fun h => .inl ⟨data,h,hsaid⟩) fun h => ⟨data,h,hsaid⟩
    · exact .inl (.inr ⟨d,hstore ▸ hd,hsaid⟩)

theorem sent_of_issues {x y a : String} {data : Dict}
    (h : .setData ⟨mensagens x y,a⟩ data ∈ s.issues e) :
    ∃ m, s.sent e = some m ∧ .setData ⟨mensagens x y,a⟩ data ∈ m.writes := by
  cases e with
  | register email nome resultado =>
    cases resultado with
    | error erro => simp [issues] at h
    | ok uid => simp [issues,mensagens,usuarios] at h
  | client k ev visible =>
    cases hses : s.sessions[k]? with
    | none => simp [issues,hses] at h
    | some ses =>
      have h' : .setData ⟨mensagens x y,a⟩ data ∈ ses.issues ev := by simpa [issues,hses] using h
      rcases Session.mem_issues h' with ⟨m,hm,h'⟩ | h'
      · exact ⟨m,by simp [sent,hses,hm],h'⟩
      · cases ev <;> simp [Session.foto,DetailUserViewController.salvarFoto] at h'
  | consulta j erro visible =>
    cases hq : s.consultas[j]? with
    | none => simp [issues,hq] at h
    | some q =>
      have h' : .setData ⟨mensagens x y,a⟩ data ∈ s.consultaWrites q erro visible := by
        simpa [issues,hq] using h
      obtain ⟨d,_,hd⟩ := mem_consultaWrites h'
      simp [ContatoController.salvarContato,contatos,mensagens] at hd
  | _ => simp [issues] at h

end App

section
variable {canon : String → String} {s t : App} {es : List AppEvent}

/-- In every reachable state whatever a session asks for concerns its user alone: it writes
signed documents of its user, queries for its user, and reads the users' documents and its own
contacts, conversations and messages. The completion of a query writes for who asked. -/
theorem requests_confined (hs : (app canon).Reachable s) :
    (∀ (k : ℕ) (ses : Session) (e : ClientEvent) (visible : List ℕ) (ses' : Session) (r : Requests),
      s.sessions[k]? = some ses →
      ses.step (s.view visible) s.registrations e = some (ses',r) → r.For ses.user.uid) ∧
    ∀ (q : Consulta) (erro : Bool) (visible : List ℕ),
      ∀ w ∈ s.consultaWrites q erro visible, w.SignedBy q.idUsuario := by
  have hlaw := (integrity.closed canon).reachable hs
  refine ⟨fun k ses e visible ses' r hses hstep => ?_,
    fun q erro visible w hw => App.consultaWrites_signed hlaw q hw⟩
  refine Session.step_for (hlaw.sessions ses (List.mem_of_getElem? hses)) ?_ hstep
  intro w hw
  obtain ⟨uid,hactor,hsigned⟩ := App.issues_signed (e := .client k e visible) hlaw
    (by simpa [App.issues,hses] using hw)
  obtain rfl : ses.user.uid = uid := by simpa [App.actor,hses] using hactor
  exact hsigned

theorem requests_confined_bia :
    ∃ s ses r, (app id).exec App.start chatWithBia = some s ∧ s.sessions[0]? = some ses ∧
      ses.step (s.view []) s.registrations (.actionPushMessage "oi" "m1" "m2") = some (ses,r) ∧
      r.writes.length = 4 ∧ r.For "u1" := by
  refine ⟨_,_,_,rfl,rfl,rfl,rfl,?_⟩
  exact (@requests_confined id _ ⟨chatWithBia,rfl⟩).1 0 _ (.actionPushMessage "oi" "m1" "m2") [] _ _
    rfl rfl

/-- As long as no step acts for a user of a document, the document stays what it was, in the
store and for every client, whatever everybody else does and whatever writes are committed. -/
theorem documents_confined (hs : (app canon).Reachable s)
    (run : (app canon).exec s es = some t) {p : Place}
    (hfly : ∀ w ∈ s.inFlight, w.path ≠ p.path)
    (others : (app canon).Along (fun s e => ∀ uid ∈ s.actor e, ¬ p.Of uid) s es) :
    t.store.lookup p.path = s.store.lookup p.path ∧
    ∀ visible, (t.view visible).lookup p.path = s.store.lookup p.path := by
  have hkeep := Machine.throughout_of_along (m := app canon)
    (P := fun t => integrity.Holds t ∧ t.Untouched p (s.store.lookup p.path)) ?_
    ⟨(integrity.closed canon).reachable hs,rfl,hfly⟩ run others
  · have ht := (hkeep es t (List.prefix_refl es) run).2
    exact ⟨ht.1,ht.view⟩
  · rintro u e v ⟨hlaw,h⟩ hother hstep
    exact ⟨(integrity.closed canon).step_free hlaw hstep,h.step hlaw hother hstep⟩

theorem documents_confined_bia :
    ∃ s t, (app id).exec App.start chatWithBia = some s ∧
      (app id).exec s firstMessage = some t ∧
      t.store.lookup ⟨usuarios,"u2"⟩ = s.store.lookup ⟨usuarios,"u2"⟩ :=
  ⟨_,_,rfl,rfl,(@documents_confined id _ _ firstMessage ⟨chatWithBia,rfl⟩ rfl (.usuario "u2")
    (by decide +kernel) (Machine.along_of_check (by decide +kernel))).1⟩

/-- Every stored message was sent: by a step for the user it names as author, in a chat with the
other user of its box, with the text and under the automatic id it is stored with. -/
theorem messages_authentic (run : (app canon).exec App.start es = some s) {x y a : String}
    {d : Dict} (hd : s.store.lookup ⟨mensagens x y,a⟩ = some d) :
    ∃ before e u m autor, before ++ [e] <+: es ∧
      (app canon).exec App.start before = some u ∧ u.actor e = some autor ∧
      u.sent e = some m ∧ said d = (some autor,some m.texto) ∧
      ((autor = x ∧ m.Between x y ∧ a = m.autoRemetente) ∨
        (autor = y ∧ m.Between y x ∧ a = m.autoDestinatario)) := by
  have horigin := Machine.exists_origin (m := app canon) (I := integrity.Holds)
    (P := App.Tells ⟨mensagens x y,a⟩ (said d))
    (O := fun s e => ∃ data, .setData ⟨mensagens x y,a⟩ data ∈ s.issues e ∧ said data = said d)
    (fun _ _ _ hs hstep => (integrity.closed canon).step_free hs hstep)
    (fun _ _ _ hs hstep ht => App.tells_step hs hstep ht) (Laws.holds_start _) run
    (by simp [App.Tells,App.start]) (.inr ⟨d,hd,rfl⟩)
  obtain ⟨before,e,u,hpre,hu,hlaw,data,hdata,hsaid⟩ := horigin
  obtain ⟨m,hm,hw⟩ := App.sent_of_issues hdata
  obtain ⟨v,w,hactor,_,_,hb⟩ := App.sent_between hlaw hm
  refine ⟨before,e,u,m,v,hpre,hu,hactor,hm,?_⟩
  rw [← hsaid]
  rw [Send.writes,ChatViewController.actionPushMessage_eq hb.1 hb.2] at hw
  simp only [List.mem_cons,List.not_mem_nil,or_false,Write.setData.injEq,DocPath.mk.injEq,
    mensagens_inj] at hw
  rcases hw with ⟨⟨⟨rfl,rfl⟩,rfl⟩,rfl⟩ | ⟨⟨⟨rfl,rfl⟩,rfl⟩,rfl⟩ | ⟨⟨hpath,_⟩,_⟩ | ⟨⟨hpath,_⟩,_⟩
  · exact ⟨said_mensagemDict _ _,.inl ⟨rfl,hb,rfl⟩⟩
  · exact ⟨said_mensagemDict _ _,.inr ⟨rfl,hb,rfl⟩⟩
  · exact absurd hpath.symm (ultimasConversas_ne_mensagens _ _ _)
  · exact absurd hpath.symm (ultimasConversas_ne_mensagens _ _ _)

theorem messages_authentic_bia :
    ∃ s d, (app id).exec App.start (chatWithBia ++ firstMessage) = some s ∧
      s.store.lookup ⟨mensagens "u2" "u1","m2"⟩ = some d ∧
      ∃ before e u m autor, before ++ [e] <+: chatWithBia ++ firstMessage ∧
        (app id).exec App.start before = some u ∧ u.actor e = some autor ∧
        u.sent e = some m ∧ said d = (some autor,some m.texto) := by
  obtain ⟨before,e,u,m,autor,hpre,hu,hactor,hm,hsaid,_⟩ :=
    @messages_authentic id _ (chatWithBia ++ firstMessage) rfl "u2" "u1" "m2" _ rfl
  exact ⟨_,_,rfl,rfl,before,e,u,m,autor,hpre,hu,hactor,hm,hsaid⟩

end
end MessageApp
