import MessageApp.Sessions

/-! Laws of the stored documents. A law says what a document at a place may hold, what an
update may write there, and what queries and sessions may carry; when every handler keeps
the law, so does every run of the app, whatever writes are accepted and in any order. -/
namespace MessageApp

inductive Place
  | usuario (id : String)
  | contato (idUsuario id : String)
  | conversa (idRemetente idDestinatario : String)
  | mensagem (idRemetente idDestinatario autoId : String)
  deriving DecidableEq

namespace Place

def path : Place → DocPath
  | .usuario id => ⟨usuarios,id⟩
  | .contato u id => ⟨contatos u,id⟩
  | .conversa x y => ⟨ultimasConversas x,y⟩
  | .mensagem x y a => ⟨mensagens x y,a⟩

@[simp] theorem path_inj {p q : Place} : p.path = q.path ↔ p = q := by
  cases p <;> cases q <;>
    simp [path,usuarios,contatos,ultimasConversas,mensagens,and_comm,and_assoc]

end Place

/-- A law gives conditions on a stored document, on an update, on a query in flight, on the
user of a session, on the rows decoded from a contact and from a conversation (with the id of
their documents), on an open chat, and on the segments of a path. -/
structure Laws where
  doc : List Account → Place → Dict → Prop
  update : List Account → Place → Dict → Prop
  consulta : List Account → Consulta → Prop
  usuario : List Account → AuthUser → Prop
  contato : List Account → AuthUser → String → Contact → Prop
  conversa : List Account → AuthUser → String → Conversa → Prop
  chat : List Account → AuthUser → ChatScreen → Prop
  referencia : List String → Prop

/-- Conditions on the state before a send and before a typed e-mail is looked up. -/
structure Guard where
  send : List Account → AuthUser → ChatScreen → Prop
  addContact : List Account → AuthUser → String → Prop

namespace Laws

def Store (L : Laws) (accounts : List Account) (store : Store) : Prop :=
  ∀ p d, store.lookup (Place.path p) = some d → L.doc accounts p d

/-- The law of a write: it goes to a place of the app and carries what is allowed there. -/
def Write (L : Laws) (accounts : List Account) : Write → Prop
  | .setData path data => ∃ p, path = Place.path p ∧ L.doc accounts p data
  | .updateData path data => ∃ p, path = Place.path p ∧ L.update accounts p data

/-- The law of a session. Its home screen works for its user and reads and listens on that
user's collections, and every row comes from a lawful document. -/
structure Session (L : Laws) (accounts : List Account) (ses : Session) : Prop where
  usuario : L.usuario accounts ses.user
  logado : ses.home.vc.idUsuarioLogado = some ses.user.uid
  email : ses.home.vc.emailUsuarioLogado = ses.user.email
  leituras : ∀ c ∈ ses.leituras, c = MessageApp.contatos ses.user.uid
  escutas : ∀ r ∈ ses.home.active, r.collection = ultimasConversas ses.user.uid
  contatos : List.Forall₂ (L.contato accounts ses.user) ses.contatoIds ses.home.vc.listContact
  conversas : List.Forall₂ (L.conversa accounts ses.user) ses.conversaIds ses.home.vc.listaConversas
  chat : ∀ chat ∈ ses.chat, L.chat accounts ses.user chat
  perfil : ∀ chat ∈ ses.chat, ∀ p ∈ chat.perfil, p = ⟨usuarios,ses.user.uid⟩

structure Requests (L : Laws) (accounts : List Account) (r : Requests) : Prop where
  writes : ∀ w ∈ r.writes, L.Write accounts w
  consultas : ∀ q ∈ r.consultas, L.consulta accounts q
  leituras : ∀ c ∈ r.leituras, L.referencia c

structure Holds (L : Laws) (s : App) : Prop where
  store : L.Store s.accounts s.store
  inFlight : ∀ w ∈ s.inFlight, L.Write s.accounts w
  consultas : ∀ q ∈ s.consultas, L.consulta s.accounts q
  sessions : ∀ ses ∈ s.sessions, L.Session s.accounts ses
  referencias : ∀ c ∈ s.referencias, L.referencia c

def inf (L M : Laws) : Laws where
  doc A p d := L.doc A p d ∧ M.doc A p d
  update A p d := L.update A p d ∧ M.update A p d
  consulta A q := L.consulta A q ∧ M.consulta A q
  usuario A u := L.usuario A u ∧ M.usuario A u
  contato A u id c := L.contato A u id c ∧ M.contato A u id c
  conversa A u id c := L.conversa A u id c ∧ M.conversa A u id c
  chat A u chat := L.chat A u chat ∧ M.chat A u chat
  referencia c := L.referencia c ∧ M.referencia c

def top : Laws where
  doc _ _ _ := True
  update _ _ _ := True
  consulta _ _ := True
  usuario _ _ := True
  contato _ _ _ _ := True
  conversa _ _ _ _ := True
  chat _ _ _ := True
  referencia _ := True

/-- Where `K` holds as well, every handler keeps `L`, given the guard. -/
structure Closed (K L : Laws) (canon : String → String) (g : Guard) : Prop where
  resolve : ∀ A p d now, L.doc A p d → L.doc A p (Dict.resolve now d)
  merge : ∀ A p old new now, L.doc A p old → L.update A p new →
    L.doc A p (Dict.merge old (Dict.resolve now new))
  grow_doc : ∀ A a p d, App.Fresh canon A a → L.doc A p d → L.doc (A ++ [a]) p d
  grow_update : ∀ A a p d, App.Fresh canon A a → L.update A p d → L.update (A ++ [a]) p d
  grow_consulta : ∀ A a q, App.Fresh canon A a → (K.inf L).consulta A q → L.consulta (A ++ [a]) q
  grow_usuario : ∀ A a u, App.Fresh canon A a → L.usuario A u → L.usuario (A ++ [a]) u
  grow_contato : ∀ A a u id c, App.Fresh canon A a → L.contato A u id c → L.contato (A ++ [a]) u id c
  grow_conversa : ∀ A a u id c, App.Fresh canon A a → L.conversa A u id c →
    L.conversa (A ++ [a]) u id c
  grow_chat : ∀ A a u chat, App.Fresh canon A a → L.chat A u chat → L.chat (A ++ [a]) u chat
  register : ∀ A (a : Account), App.Fresh canon A a → L.doc (A ++ [a]) (.usuario a.uid)
    (RegisterViewController.dadosUsuario a.nome a.email a.uid)
  signIn : ∀ A (a : Account), account? A a.uid = some a → L.usuario A ⟨a.uid,some (canon a.email)⟩
  contato : ∀ A u id d, (K.inf L).usuario A u → (K.inf L).doc A (.contato u.uid id) d →
    L.contato A u id (Contact.ofDictionary (some d))
  conversa : ∀ A u id d, (K.inf L).usuario A u → (K.inf L).doc A (.conversa u.uid id) d →
    L.conversa A u id (Conversa.ofDictionary d)
  push_contato : ∀ A u id c, (K.inf L).usuario A u → (K.inf L).contato A u id c →
    L.chat A u (ChatScreen.push u.uid c id)
  push_conversa : ∀ A u id (dados : Conversa), (K.inf L).usuario A u → (K.inf L).conversa A u id dados →
    L.chat A u (ChatScreen.push u.uid (.ofFields (some (dados.idDestinatario.getD ""))
      (some (dados.nome.getD "")) (some (dados.urlFotoUsuario.getD ""))) id)
  dadosUsuarioLogado : ∀ A u chat erro data, (K.inf L).chat A u chat →
    (∀ d ∈ data, (K.inf L).doc A (.usuario u.uid) d) → (erro = true → data = none) →
    L.chat A u (chat.dadosUsuarioLogado erro data)
  mensagens : ∀ A u (chat : ChatScreen) docs, (K.inf L).chat A u chat →
    (∀ x y, chat.escuta = some (mensagens x y) →
      ∀ ds ∈ docs, ∀ d ∈ ds, (K.inf L).doc A (.mensagem x y d.1) d.2) →
    L.chat A u (chat.mensagensSnapshot docs)
  send : ∀ A u (chat : ChatScreen) texto a b, (K.inf L).usuario A u → (K.inf L).chat A u chat →
    g.send A u chat → a ≠ "" → b ≠ "" → ∀ w ∈ chat.vc.actionPushMessage texto a b, L.Write A w
  downloadURL : ∀ A (u : AuthUser) url, (K.inf L).usuario A u →
    L.Write A (DetailUserViewController.salvarFoto (some u.uid) url)
  addContact : ∀ A (u : AuthUser) texto q, (K.inf L).usuario A u → g.addContact A u texto →
    ContatoController.addContact texto (u.email.getD "") u.uid = .ok q → L.consulta A q
  salvarContato : ∀ A q id d, (K.inf L).consulta A q → (K.inf L).doc A (.usuario id) d →
    d "email" = some (.string q.email) → L.Write A (ContatoController.salvarContato d q.idUsuario)
  ref_usuarios : L.referencia usuarios
  ref_contatos : ∀ A (u : AuthUser), (K.inf L).usuario A u → L.referencia (contatos u.uid)
  ref_conversas : ∀ A (u : AuthUser), (K.inf L).usuario A u → L.referencia (ultimasConversas u.uid)
  ref_perfil : ∀ A (u : AuthUser), (K.inf L).usuario A u →
    L.referencia (DocPath.segments ⟨usuarios,u.uid⟩)
  ref_escuta : ∀ A u (chat : ChatScreen), (K.inf L).usuario A u → (K.inf L).chat A u chat →
    ∀ c ∈ chat.escuta, L.referencia c
  ref_write : ∀ A w, (K.inf L).Write A w → L.referencia w.path.segments

def noGuard : Guard := ⟨fun _ _ _ => True,fun _ _ _ => True⟩

variable {K L M : Laws} {canon : String → String} {g : Guard} {A : List Account}

theorem write_mono (hdoc : ∀ p d, L.doc A p d → M.doc A p d)
    (hupdate : ∀ p d, L.update A p d → M.update A p d) {w : MessageApp.Write} (hw : L.Write A w) :
    M.Write A w := by
  cases w with
  | setData path data =>
    obtain ⟨p,hp,hd⟩ := hw
    exact ⟨p,hp,hdoc p data hd⟩
  | updateData path data =>
    obtain ⟨p,hp,hd⟩ := hw
    exact ⟨p,hp,hupdate p data hd⟩

theorem inf_write {w : MessageApp.Write} (hl : L.Write A w) (hm : M.Write A w) :
    (L.inf M).Write A w := by
  cases w with
  | setData path data =>
    obtain ⟨p,rfl,hp⟩ := hl
    obtain ⟨q,hpq,hq⟩ := hm
    obtain rfl := Place.path_inj.mp hpq
    exact ⟨p,rfl,hp,hq⟩
  | updateData path data =>
    obtain ⟨p,rfl,hp⟩ := hl
    obtain ⟨q,hpq,hq⟩ := hm
    obtain rfl := Place.path_inj.mp hpq
    exact ⟨p,rfl,hp,hq⟩

theorem write_actionPushMessage {vc : ChatViewController} {u v : String}
    (hlogado : vc.idUsuarioLogado = some u) (hcontato : vc.idContato = some v) {texto a b : String}
    (hown : L.doc A (.mensagem u v a) (mensagemDict u texto))
    (hpeer : L.doc A (.mensagem v u b) (mensagemDict u texto))
    (hownConversa : L.doc A (.conversa u v)
      (conversaDict texto u v (vc.nomeContato.getD "") (some (vc.urlFotoContato.getD ""))))
    (hpeerConversa : L.doc A (.conversa v u)
      (conversaDict texto v u (vc.nomeUsuarioLogado.getD "") vc.urlFotoUsuarioLogado)) :
    ∀ w ∈ vc.actionPushMessage texto a b, L.Write A w := by
  rw [ChatViewController.actionPushMessage_eq hlogado hcontato]
  intro w hw
  simp only [List.mem_cons,List.not_mem_nil,or_false] at hw
  rcases hw with rfl | rfl | rfl | rfl
  · exact ⟨.mensagem u v a,rfl,hown⟩
  · exact ⟨.mensagem v u b,rfl,hpeer⟩
  · exact ⟨.conversa u v,rfl,hownConversa⟩
  · exact ⟨.conversa v u,rfl,hpeerConversa⟩

theorem write_salvarContato {d : Dict} {id uid : String} (hid : Dict.string? d "id" = some id)
    (hd : L.doc A (.contato uid id) d) : L.Write A (ContatoController.salvarContato d uid) := by
  refine ⟨.contato uid id,?_,hd⟩
  simp [Place.path,Contact.ofDictionary,hid]

theorem and_left {a b c : Prop} (h : a ∧ b ∧ c) : a ∧ b := ⟨h.1,h.2.1⟩

/-- A law kept where another one holds is kept together with it. -/
theorem Closed.inf (h : Closed K L canon noGuard) (h' : Closed (K.inf L) M canon g) :
    Closed K (L.inf M) canon g where
  resolve A p d now hd := ⟨h.resolve A p d now hd.1,h'.resolve A p d now hd.2⟩
  merge A p old new now hd hu := ⟨h.merge A p old new now hd.1 hu.1,h'.merge A p old new now hd.2 hu.2⟩
  grow_doc A a p d ha hd := ⟨h.grow_doc A a p d ha hd.1,h'.grow_doc A a p d ha hd.2⟩
  grow_update A a p d ha hd := ⟨h.grow_update A a p d ha hd.1,h'.grow_update A a p d ha hd.2⟩
  grow_consulta A a q ha hq :=
    ⟨h.grow_consulta A a q ha (and_left hq),h'.grow_consulta A a q ha (and_assoc.mpr hq)⟩
  grow_usuario A a u ha hu := ⟨h.grow_usuario A a u ha hu.1,h'.grow_usuario A a u ha hu.2⟩
  grow_contato A a u id c ha hc := ⟨h.grow_contato A a u id c ha hc.1,h'.grow_contato A a u id c ha hc.2⟩
  grow_conversa A a u id c ha hc :=
    ⟨h.grow_conversa A a u id c ha hc.1,h'.grow_conversa A a u id c ha hc.2⟩
  grow_chat A a u chat ha hc := ⟨h.grow_chat A a u chat ha hc.1,h'.grow_chat A a u chat ha hc.2⟩
  register A a ha := ⟨h.register A a ha,h'.register A a ha⟩
  signIn A a ha := ⟨h.signIn A a ha,h'.signIn A a ha⟩
  contato A u id d hu hd := ⟨h.contato A u id d (and_left hu) (and_left hd),
    h'.contato A u id d (and_assoc.mpr hu) (and_assoc.mpr hd)⟩
  conversa A u id d hu hd := ⟨h.conversa A u id d (and_left hu) (and_left hd),
    h'.conversa A u id d (and_assoc.mpr hu) (and_assoc.mpr hd)⟩
  push_contato A u id c hu hc := ⟨h.push_contato A u id c (and_left hu) (and_left hc),
    h'.push_contato A u id c (and_assoc.mpr hu) (and_assoc.mpr hc)⟩
  push_conversa A u id dados hu hc := ⟨h.push_conversa A u id dados (and_left hu) (and_left hc),
    h'.push_conversa A u id dados (and_assoc.mpr hu) (and_assoc.mpr hc)⟩
  dadosUsuarioLogado A u chat erro data hc hd herro :=
    ⟨h.dadosUsuarioLogado A u chat erro data (and_left hc) (fun d hdata => and_left (hd d hdata)) herro,
      h'.dadosUsuarioLogado A u chat erro data (and_assoc.mpr hc)
        (fun d hdata => and_assoc.mpr (hd d hdata)) herro⟩
  mensagens A u chat docs hc hd :=
    ⟨h.mensagens A u chat docs (and_left hc) fun x y he ds hds d hm => and_left (hd x y he ds hds d hm),
      h'.mensagens A u chat docs (and_assoc.mpr hc)
        fun x y he ds hds d hm => and_assoc.mpr (hd x y he ds hds d hm)⟩
  send A u chat texto a b hu hc hg ha hb w hw :=
    inf_write (h.send A u chat texto a b (and_left hu) (and_left hc) trivial ha hb w hw)
      (h'.send A u chat texto a b (and_assoc.mpr hu) (and_assoc.mpr hc) hg ha hb w hw)
  downloadURL A u url hu :=
    inf_write (h.downloadURL A u url (and_left hu)) (h'.downloadURL A u url (and_assoc.mpr hu))
  addContact A u texto q hu hg hq := ⟨h.addContact A u texto q (and_left hu) trivial hq,
    h'.addContact A u texto q (and_assoc.mpr hu) hg hq⟩
  salvarContato A q id d hq hd hemail :=
    inf_write (h.salvarContato A q id d (and_left hq) (and_left hd) hemail)
      (h'.salvarContato A q id d (and_assoc.mpr hq) (and_assoc.mpr hd) hemail)
  ref_usuarios := ⟨h.ref_usuarios,h'.ref_usuarios⟩
  ref_contatos A u hu := ⟨h.ref_contatos A u (and_left hu),h'.ref_contatos A u (and_assoc.mpr hu)⟩
  ref_conversas A u hu := ⟨h.ref_conversas A u (and_left hu),h'.ref_conversas A u (and_assoc.mpr hu)⟩
  ref_perfil A u hu := ⟨h.ref_perfil A u (and_left hu),h'.ref_perfil A u (and_assoc.mpr hu)⟩
  ref_escuta A u chat hu hc c he := ⟨h.ref_escuta A u chat (and_left hu) (and_left hc) c he,
    h'.ref_escuta A u chat (and_assoc.mpr hu) (and_assoc.mpr hc) c he⟩
  ref_write A w hw :=
    ⟨h.ref_write A w (write_mono (fun _ _ => and_left) (fun _ _ => and_left) hw),
      h'.ref_write A w (write_mono (fun _ _ => and_assoc.mpr) (fun _ _ => and_assoc.mpr) hw)⟩

theorem Closed.grow_write (h : Closed K L canon g) {a : Account} (ha : App.Fresh canon A a)
    {w : MessageApp.Write} (hw : L.Write A w) : L.Write (A ++ [a]) w := by
  cases w with
  | setData path data =>
    obtain ⟨p,hp,hd⟩ := hw
    exact ⟨p,hp,h.grow_doc A a p data ha hd⟩
  | updateData path data =>
    obtain ⟨p,hp,hd⟩ := hw
    exact ⟨p,hp,h.grow_update A a p data ha hd⟩

theorem Closed.commit (h : Closed K L canon g) {store : MessageApp.Store}
    (hstore : L.Store A store) {w : MessageApp.Write} (hw : L.Write A w) (now : ℕ) :
    L.Store A (store.commit now w) := by
  intro p d hd
  cases w with
  | setData path data =>
    obtain ⟨q,rfl,hq⟩ := hw
    by_cases hpq : p = q
    · subst hpq
      rw [Store.lookup_commit_setData] at hd
      exact Option.some.inj hd ▸ h.resolve A p data now hq
    · rw [Store.lookup_commit_of_ne fun heq => hpq (Place.path_inj.mp heq)] at hd
      exact hstore p d hd
  | updateData path data =>
    obtain ⟨q,rfl,hq⟩ := hw
    by_cases hpq : p = q
    · subst hpq
      simp only [Store.commit] at hd
      split at hd
      · exact hstore p d hd
      · rename_i old hold
        rw [AList.lookup_insert] at hd
        exact Option.some.inj hd ▸ h.merge A p old data now (hstore p old hold) hq
    · rw [Store.lookup_commit_of_ne fun heq => hpq (Place.path_inj.mp heq)] at hd
      exact hstore p d hd

theorem Closed.commits (h : Closed K L canon g) {ws : List MessageApp.Write} (now : ℕ)
    {store : MessageApp.Store} (hstore : L.Store A store) (hws : ∀ w ∈ ws, L.Write A w) :
    L.Store A (ws.foldl (Store.commit now) store) := by
  induction ws generalizing store with
  | nil => exact hstore
  | cons w ws ih =>
    exact ih (h.commit hstore (hws w (by simp)) now) fun v hv => hws v (by simp [hv])

/-- What a client sees is lawful, whichever writes in flight it already sees. -/
theorem Closed.view (h : Closed K L canon g) {s : App} (hs : L.Holds s) (visible : List ℕ) :
    L.Store s.accounts (s.view visible) := by
  refine h.commits s.clock hs.store fun w hw => ?_
  obtain ⟨i,_,hi⟩ := List.mem_filterMap.mp hw
  exact hs.inFlight w (List.mem_of_getElem? hi)

end Laws
end MessageApp
