import MessageApp.SessionLaws

/-! Referential integrity. The ids of a document are those of its path and name registered
users, so no fallback on an id is ever taken, no path has an empty segment, and a chat
reaches exactly the user of the document its row was decoded from. -/
namespace MessageApp

def Registered (accounts : List Account) (uid : String) : Prop := ∃ a ∈ accounts, a.uid = uid

theorem Registered.ne {accounts : List Account} {uid : String} (h : Registered accounts uid) :
    "" ≠ uid := by
  obtain ⟨a,_,rfl⟩ := h
  exact a.uid_ne.symm

theorem Registered.grow {accounts : List Account} {uid : String} (h : Registered accounts uid)
    (a : Account) : Registered (accounts ++ [a]) uid := by
  obtain ⟨b,hb,huid⟩ := h
  exact ⟨b,List.mem_append_left _ hb,huid⟩

def integrity : Laws where
  doc A
    | .usuario u, d => Registered A u ∧ Dict.string? d "id" = some u
    | .contato u c, d => Registered A u ∧ Registered A c ∧ Dict.string? d "id" = some c
    | .conversa x y, d => (Registered A x ∧ Registered A y) ∧
        Dict.string? d "idRemetente" = some x ∧ Dict.string? d "idDestinatario" = some y
    | .mensagem x y a, d => (Registered A x ∧ Registered A y ∧ a ≠ "") ∧
        (Dict.string? d "idUsuario" = some x ∨ Dict.string? d "idUsuario" = some y)
  update A
    | .usuario u, d => Registered A u ∧ d "id" = none
    | _, _ => False
  consulta A q := Registered A q.idUsuario
  usuario A u := Registered A u.uid
  contato A _ id c := Registered A id ∧ c.id = some id
  conversa A _ id c := Registered A id ∧ c.idDestinatario = some id
  chat A u chat := chat.vc.idUsuarioLogado = some u.uid ∧ chat.vc.idContato = some chat.peer ∧
    Registered A chat.peer ∧ chat.escuta = some (mensagens u.uid chat.peer) ∧
    ∀ m ∈ chat.vc.listaMensagens, m.idUsuario = some u.uid ∨ m.idUsuario = some chat.peer
  referencia c := "" ∉ c

namespace integrity

variable {canon : String → String} {A : List Account}

theorem send {u : AuthUser} {chat : ChatScreen} (hu : Registered A u.uid)
    (hchat : integrity.chat A u chat) {texto a b : String} (ha : a ≠ "") (hb : b ≠ "") :
    ∀ w ∈ chat.vc.actionPushMessage texto a b, integrity.Write A w := by
  obtain ⟨hlogado,hcontato,hpeer,_⟩ := hchat
  exact Laws.write_actionPushMessage hlogado hcontato ⟨⟨hu,hpeer,ha⟩,by simp⟩ ⟨⟨hpeer,hu,hb⟩,by simp⟩
    ⟨⟨hu,hpeer⟩,by simp,by simp⟩ ⟨⟨hpeer,hu⟩,by simp,by simp⟩

theorem segments {w : Write} (hw : integrity.Write A w) : "" ∉ w.path.segments := by
  cases w with
  | setData path data =>
    obtain ⟨p,rfl,hp⟩ := hw
    cases p with
    | usuario u => simp [Write.path,Place.path,DocPath.segments,usuarios,hp.1.ne]
    | contato u c => simp [Write.path,Place.path,DocPath.segments,contatos,hp.1.ne,hp.2.1.ne]
    | conversa x y =>
      simp [Write.path,Place.path,DocPath.segments,ultimasConversas,hp.1.1.ne,hp.1.2.ne]
    | mensagem x y a =>
      simp [Write.path,Place.path,DocPath.segments,mensagens,hp.1.1.ne,hp.1.2.1.ne,hp.1.2.2.symm]
  | updateData path data =>
    obtain ⟨p,rfl,hp⟩ := hw
    cases p with
    | usuario u => simp [Write.path,Place.path,DocPath.segments,usuarios,hp.1.ne]
    | contato u c => exact hp.elim
    | conversa x y => exact hp.elim
    | mensagem x y a => exact hp.elim

theorem closed (canon : String → String) : Laws.Closed .top integrity canon Laws.noGuard where
  resolve A p d now h := by
    cases p <;> simpa [integrity] using h
  merge A p old new now h hupdate := by
    cases p with
    | usuario u => exact ⟨h.1,(Dict.string?_merge_of_none now hupdate.2).trans h.2⟩
    | _ => exact hupdate.elim
  grow_doc A a p d _ h := by
    cases p with
    | usuario u => exact ⟨h.1.grow a,h.2⟩
    | contato u c => exact ⟨h.1.grow a,h.2.1.grow a,h.2.2⟩
    | conversa x y => exact ⟨⟨h.1.1.grow a,h.1.2.grow a⟩,h.2⟩
    | mensagem x y b => exact ⟨⟨h.1.1.grow a,h.1.2.1.grow a,h.1.2.2⟩,h.2⟩
  grow_update A a p d _ h := by
    cases p with
    | usuario u => exact ⟨h.1.grow a,h.2⟩
    | _ => exact h.elim
  grow_consulta A a q _ h := h.2.grow a
  grow_usuario A a u _ h := h.grow a
  grow_contato A a u id c _ h := ⟨h.1.grow a,h.2⟩
  grow_conversa A a u id c _ h := ⟨h.1.grow a,h.2⟩
  grow_chat A a u chat _ h := ⟨h.1,h.2.1,h.2.2.1.grow a,h.2.2.2⟩
  register A a _ := ⟨⟨a,by simp,rfl⟩,rfl⟩
  signIn A a ha := ⟨a,List.mem_of_find?_eq_some ha,rfl⟩
  contato A u id d _ hd := ⟨hd.2.2.1,hd.2.2.2⟩
  conversa A u id d _ hd := ⟨hd.2.1.2,hd.2.2.2⟩
  push_contato A u id c _ hc := by
    obtain ⟨hreg,hid⟩ := hc.2
    rw [ChatScreen.push_eq]
    exact ⟨rfl,hid,hreg,by simp [hid],by simp⟩
  push_conversa A u id dados _ hc := by
    obtain ⟨hreg,hid⟩ := hc.2
    rw [ChatScreen.push_eq]
    exact ⟨rfl,by simp [ChatViewController.idContato,hid],hreg,by simp [hid],by simp⟩
  dadosUsuarioLogado A u chat erro data hc _ _ := by
    obtain ⟨hlogado,hcontato,hreg,hescuta,hautores⟩ := hc.2
    cases erro with
    | true => exact ⟨hlogado,hcontato,hreg,hescuta,hautores⟩
    | false => exact ⟨hlogado,hcontato,hreg,hescuta,hautores⟩
  mensagens A u chat docs hc hd := by
    obtain ⟨hlogado,hcontato,hreg,hescuta,_⟩ := hc.2
    cases docs with
    | none => exact ⟨hlogado,hcontato,hreg,hescuta,fun m hm => absurd hm List.not_mem_nil⟩
    | some docs =>
      refine ⟨hlogado,hcontato,hreg,hescuta,fun m hm => ?_⟩
      obtain ⟨d,hmem,rfl⟩ := List.mem_map.mp hm
      exact (hd u.uid chat.peer hescuta docs rfl d hmem).2.2
  send A u chat texto a b hu hc _ ha hb := send hu.2 hc.2 ha hb
  downloadURL A u url hu := ⟨.usuario u.uid,rfl,hu.2,rfl⟩
  addContact A u texto q hu _ hq := by
    unfold ContatoController.addContact at hq
    split at hq
    · simp at hq
    · obtain rfl := Except.ok.inj hq
      exact hu.2
  salvarContato A q id d hq hd _ := Laws.write_salvarContato hd.2.2 ⟨hq.2,hd.2⟩
  ref_usuarios := by simp [integrity,usuarios]
  ref_contatos A u hu := by simp [integrity,contatos,hu.2.ne]
  ref_conversas A u hu := by simp [integrity,ultimasConversas,hu.2.ne]
  ref_perfil A u hu := by simp [integrity,DocPath.segments,usuarios,hu.2.ne]
  ref_escuta A u chat hu hc c he := by
    obtain ⟨_,_,hreg,hescuta,_⟩ := hc.2
    obtain rfl := Option.some.inj (hescuta.symm.trans he)
    simp [integrity,mensagens,hu.2.ne,hreg.ne]
  ref_write A w hw :=
    segments (Laws.write_mono (L := Laws.top.inf integrity) (fun _ _ h => h.2) (fun _ _ h => h.2) hw)

end integrity

/-- No id of the session is missing, and its rows and its chat reach the users of the
documents they come from. Every message its chat lists names one of the chat's two users. -/
structure WellRouted (accounts : List Account) (ses : Session) : Prop where
  usuario : ses.home.vc.idUsuarioLogado = some ses.user.uid ∧ Registered accounts ses.user.uid
  rows : ∀ row contato, ses.home.vc.didSelectItemAt row = some (.pushChat contato) →
    ∃ id, ses.rowIds[row]? = some id ∧ contato.id = some id ∧ Registered accounts id
  chat : ∀ chat ∈ ses.chat, chat.vc.idUsuarioLogado = some ses.user.uid ∧
    chat.vc.idContato = some chat.peer ∧ Registered accounts chat.peer
  escuta : ∀ chat ∈ ses.chat, chat.escuta = some (mensagens ses.user.uid chat.peer)
  autores : ∀ chat ∈ ses.chat, ∀ m ∈ chat.vc.listaMensagens,
    m.idUsuario = some ses.user.uid ∨ m.idUsuario = some chat.peer
  send : ∀ chat ∈ ses.chat, ∀ texto a b,
    (chat.vc.actionPushMessage texto a b).map Write.path =
      [⟨mensagens ses.user.uid chat.peer,a⟩,⟨mensagens chat.peer ses.user.uid,b⟩,
        ⟨ultimasConversas ses.user.uid,chat.peer⟩,⟨ultimasConversas chat.peer,ses.user.uid⟩]

theorem wellRouted {accounts : List Account} {ses : Session} (hs : integrity.Session accounts ses) :
    WellRouted accounts ses where
  usuario := ⟨hs.logado,hs.usuario⟩
  rows row contato hselect := by
    rw [MessageListViewController.didSelectItemAt_eq] at hselect
    obtain ⟨item,hitem,hselected⟩ := Option.map_eq_some_iff.mp hselect
    unfold MessageListViewController.cellForItemAt at hitem
    unfold Session.rowIds HomeScreen.contactMode
    split_ifs at hitem ⊢ with hmode hlast
    · obtain rfl := Option.some.inj hitem
      simp [HomeItem.selected] at hselected
    · obtain ⟨c,hc,rfl⟩ := Option.map_eq_some_iff.mp hitem
      obtain ⟨id,hid,hreg,hcid⟩ := forall₂_getElem? hs.contatos hc
      obtain rfl := HomeAction.pushChat.inj hselected
      exact ⟨id,hid,hcid,hreg⟩
    · obtain ⟨c,hc,rfl⟩ := Option.map_eq_some_iff.mp hitem
      obtain ⟨id,hid,hreg,hcid⟩ := forall₂_getElem? hs.conversas hc
      obtain rfl := HomeAction.pushChat.inj hselected
      exact ⟨id,hid,by simp [hcid],hreg⟩
  chat chat hc := ⟨(hs.chat chat hc).1,(hs.chat chat hc).2.1,(hs.chat chat hc).2.2.1⟩
  escuta chat hc := (hs.chat chat hc).2.2.2.1
  autores chat hc := (hs.chat chat hc).2.2.2.2
  send chat hc texto a b := by
    obtain ⟨hlogado,hcontato,_,_⟩ := hs.chat chat hc
    rw [ChatViewController.actionPushMessage_eq hlogado hcontato]
    rfl

/-- In every reachable state the ids of every document are those of its path and name
registered users, no path with an empty segment was ever built, and every session is well
routed. A client that already sees some writes in flight finds ids in the users' documents and
the ids of the two users in the messages of a box. -/
theorem referential_integrity {canon : String → String} {s : App} (hs : (app canon).Reachable s) :
    (∀ u d, s.store.lookup ⟨usuarios,u⟩ = some d → Dict.string? d "id" = some u) ∧
    (∀ u c d, s.store.lookup ⟨contatos u,c⟩ = some d →
      Dict.string? d "id" = some c ∧ Registered s.accounts c) ∧
    (∀ x y d, s.store.lookup ⟨ultimasConversas x,y⟩ = some d →
      Dict.string? d "idRemetente" = some x ∧ Dict.string? d "idDestinatario" = some y ∧
        Registered s.accounts x ∧ Registered s.accounts y) ∧
    (∀ x y a d, s.store.lookup ⟨mensagens x y,a⟩ = some d →
      Dict.string? d "idUsuario" = some x ∨ Dict.string? d "idUsuario" = some y) ∧
    (∀ c ∈ s.referencias, "" ∉ c) ∧
    (∀ visible u d, (u,d) ∈ (s.view visible).documents usuarios →
      (Contact.ofDictionary (some d)).id = some u) ∧
    (∀ visible x y a d, (a,d) ∈ (s.view visible).documents (mensagens x y) →
      (Message.ofDictionary d).idUsuario = some x ∨ (Message.ofDictionary d).idUsuario = some y) ∧
    ∀ ses ∈ s.sessions, WellRouted s.accounts ses := by
  have hlaw := (integrity.closed canon).reachable hs
  refine ⟨fun u d hd => ?_,fun u c d hd => ?_,fun x y d hd => ?_,fun x y a d hd => ?_,
    hlaw.referencias,fun visible u d hd => ?_,fun visible x y a d hd => ?_,
    fun ses hses => wellRouted (hlaw.sessions ses hses)⟩
  · exact (hlaw.store (.usuario u) d hd).2
  · obtain ⟨_,hreg,hid⟩ := hlaw.store (.contato u c) d hd
    exact ⟨hid,hreg⟩
  · obtain ⟨⟨hx,hy⟩,hremetente,hdestinatario⟩ := hlaw.store (.conversa x y) d hd
    exact ⟨hremetente,hdestinatario,hx,hy⟩
  · exact (hlaw.store (.mensagem x y a) d hd).2
  · exact ((integrity.closed canon).view hlaw visible (.usuario u) d (Store.mem_documents.mp hd)).2
  · exact ((integrity.closed canon).view hlaw visible (.mensagem x y a) d
      (Store.mem_documents.mp hd)).2

/-- Two users register, the first one adds the second, opens the chat from the contact row,
and the profile arrives. -/
def chatWithBia : List AppEvent :=
  [.register "ana@x" "Ana" (.ok "u1"),.register "bia@x" "Bia" (.ok "u2"),.commit 0 1,.commit 0 2,
    .signIn "u1",.client 0 (.tab .contact) [],.client 0 (.contatos 0 false) [],
    .client 0 (.select 0 "bia@x") [],.consulta 0 false [],.commit 0 3,
    .client 0 .successDismissed [],.client 0 (.contatos 0 false) [],.client 0 (.select 0 "") [],
    .client 0 (.dadosUsuarioLogado false) []]

/-- The first message of that chat, with all its writes accepted. -/
def firstMessage : List AppEvent :=
  [.client 0 (.actionPushMessage "oi" "m1" "m2") [],.commit 0 4,.commit 0 5,.commit 0 6,.commit 0 7]

theorem referential_integrity_bia :
    ∃ s, (app id).exec App.start (chatWithBia ++ firstMessage) = some s ∧
      (s.store.lookup ⟨ultimasConversas "u2","u1"⟩).isSome ∧
      ∀ d, s.store.lookup ⟨ultimasConversas "u2","u1"⟩ = some d →
        Dict.string? d "idDestinatario" = some "u1" := by
  refine ⟨_,rfl,rfl,fun d hd => ?_⟩
  exact ((@referential_integrity id _ ⟨chatWithBia ++ firstMessage,rfl⟩).2.2.1 "u2" "u1" d hd).2.1

end MessageApp
