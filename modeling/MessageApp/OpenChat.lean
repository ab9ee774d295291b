import MessageApp.MessageListController
import MessageApp.Avatar

/-! The two ways of opening a chat. A conversation row and a contact row decode different keys
and build the contact differently: the initializer that a conversation row uses drops the
photo. The chat it opens shows none, and its first send puts the empty photo into the row. -/
namespace MessageApp

/-- The photo `configChatView` hands to the navigation bar. -/
def ChatViewController.configChatView {Img Url : Type} (app : Bundle Img Url)
    (vc : ChatViewController) (navView : ChatNavigationView Img Url) : ChatNavigationView Img Url :=
  navView.addImageNavigationView app vc.urlFotoContato

/-- What happens on a chat screen: the profile arrives, the messages arrive, or a message is
sent, whose writes the server commits at the given times. -/
inductive ChatEvent
  | dadosUsuarioLogado (erro : Bool) (data : Option Dict)
  | mensagensSnapshot (querySnapshot : Option Snapshot)
  | actionPushMessage (texto autoRemetente autoDestinatario : String) (time : ℕ → ℕ)

structure Chat where
  vc : ChatViewController
  store : Store

namespace Chat

def commitAll (store : Store) (time : ℕ → ℕ) (writes : List Write) : Store :=
  writes.zipIdx.foldl (fun store w => store.commit (time w.2) w.1) store

def step (s : Chat) : ChatEvent → Chat
  | .dadosUsuarioLogado erro data => { s with vc := s.vc.dadosUsuarioLogado erro data }
  | .mensagensSnapshot docs => { s with vc := s.vc.mensagensSnapshot docs }
  | .actionPushMessage texto a b time =>
    { s with store := commitAll s.store time (s.vc.actionPushMessage texto a b) }

def run (s : Chat) (es : List ChatEvent) : Chat := es.foldl step s

def lastTexto? : List ChatEvent → Option String
  | [] => none
  | .actionPushMessage texto _ _ _::es => (lastTexto? es).or (some texto)
  | _::es => lastTexto? es

variable {s t : Chat} {uid id nome foto foto' : String}

/-- A chat of `uid` with a contact, as far as its sends go; `foto` is what they store. -/
structure Sends (s : Chat) (uid id nome foto : String) : Prop where
  usuario : s.vc.idUsuarioLogado = some uid
  contato : s.vc.idContato = some id
  nome : s.vc.nomeContato = some nome
  foto : s.vc.urlFotoContato.getD "" = foto

theorem Sends.step (h : s.Sends uid id nome foto) (e : ChatEvent) :
    (s.step e).Sends uid id nome foto := by
  cases e with
  | dadosUsuarioLogado erro data =>
    cases erro with
    | true => exact h
    | false => exact ⟨h.usuario,h.contato,h.nome,h.foto⟩
  | mensagensSnapshot docs =>
    cases docs with
    | none => exact ⟨h.usuario,h.contato,h.nome,h.foto⟩
    | some docs => exact ⟨h.usuario,h.contato,h.nome,h.foto⟩
  | actionPushMessage texto a b time => exact ⟨h.usuario,h.contato,h.nome,h.foto⟩

theorem Sends.store_send (h : s.Sends uid id nome foto) (texto a b : String) (time : ℕ → ℕ) :
    (s.step (.actionPushMessage texto a b time)).store =
      ((s.store.insert ⟨mensagens uid id,a⟩ (Dict.resolve (time 0) (mensagemDict uid texto))).insert
        ⟨mensagens id uid,b⟩ (Dict.resolve (time 1) (mensagemDict uid texto))
        |>.insert ⟨ultimasConversas uid,id⟩ (conversaDict texto uid id nome (some foto))).insert
        ⟨ultimasConversas id,uid⟩ (conversaDict texto id uid (s.vc.nomeUsuarioLogado.getD "")
          s.vc.urlFotoUsuarioLogado) := by
  simp only [Chat.step,commitAll,ChatViewController.actionPushMessage_eq h.usuario h.contato,
    h.nome,h.foto,Option.getD_some,List.zipIdx_cons,List.zipIdx_nil,List.foldl_cons,List.foldl_nil,
    Store.commit,conversaDict_resolve]

theorem Sends.lookup_send (h : s.Sends uid id nome foto) (hne : uid ≠ id) (texto a b : String)
    (time : ℕ → ℕ) :
    (s.step (.actionPushMessage texto a b time)).store.lookup ⟨ultimasConversas uid,id⟩ =
      some (conversaDict texto uid id nome (some foto)) := by
  have hpeer : (DocPath.mk (ultimasConversas uid) id) ≠ ⟨ultimasConversas id,uid⟩ := by
    simp [hne]
  rw [h.store_send,AList.lookup_insert_ne hpeer,AList.lookup_insert]

theorem Sends.lookup_run (h : s.Sends uid id nome foto) (hne : uid ≠ id) {d : Dict}
    (hrow : s.store.lookup ⟨ultimasConversas uid,id⟩ = some d) (es : List ChatEvent) :
    (s.run es).store.lookup ⟨ultimasConversas uid,id⟩ =
      some ((lastTexto? es).elim d fun texto => conversaDict texto uid id nome (some foto)) := by
  induction es generalizing s d with
  | nil => exact hrow
  | cons e es ih =>
    cases e with
    | dadosUsuarioLogado erro data => exact ih (h.step _) hrow
    | mensagensSnapshot docs => exact ih (h.step _) hrow
    | actionPushMessage texto a b time =>
      have hnext := ih (h.step (.actionPushMessage texto a b time)) (h.lookup_send hne texto a b time)
      refine hnext.trans (congrArg some ?_)
      simp only [lastTexto?]
      cases lastTexto? es <;> rfl

/-- Two chats whose profile load has delivered the same, on the same store. -/
structure Alike (s t : Chat) : Prop where
  store : s.store = t.store
  nome : s.vc.nomeUsuarioLogado = t.vc.nomeUsuarioLogado
  foto : s.vc.urlFotoUsuarioLogado = t.vc.urlFotoUsuarioLogado

/-- Chats with one user, one contact and one name write alike if they store one photo, or if
the chat is with the user: then the peer's write replaces the own one. -/
theorem Alike.step (h : Alike s t) (hs : s.Sends uid id nome foto) (ht : t.Sends uid id nome foto')
    (hfoto : foto = foto' ∨ uid = id) (e : ChatEvent) : Alike (s.step e) (t.step e) := by
  cases e with
  | dadosUsuarioLogado erro data =>
    cases erro with
    | true => exact h
    | false => exact ⟨h.store,rfl,rfl⟩
  | mensagensSnapshot docs => cases docs <;> exact ⟨h.store,h.nome,h.foto⟩
  | actionPushMessage texto a b time =>
    refine ⟨?_,h.nome,h.foto⟩
    rw [hs.store_send,ht.store_send,h.store,h.nome,h.foto]
    rcases hfoto with rfl | rfl
    · rfl
    · rw [AList.insert_insert,AList.insert_insert]

theorem Alike.run (h : Alike s t) (hs : s.Sends uid id nome foto) (ht : t.Sends uid id nome foto')
    (hfoto : foto = foto' ∨ uid = id) (es : List ChatEvent) : Alike (s.run es) (t.run es) := by
  induction es generalizing s t with
  | nil => exact h
  | cons e es ih => exact ih (h.step hs ht hfoto e) (hs.step e) (ht.step e)

theorem sends_viewDidLoad (uid id nome : String) (url : Option String) (store : Store) :
    (Chat.mk (ChatViewController.viewDidLoad ⟨some id,some nome,url⟩ (some uid)) store).Sends
      uid id nome (url.getD "") := by
  cases url <;> exact ⟨rfl,rfl,rfl,rfl⟩

end Chat

theorem conversa_ofDictionary (texto r d n : String) (url : Option String) :
    Conversa.ofDictionary (conversaDict texto r d n url) = ⟨some n,some texto,url,some d⟩ := by
  cases url <;> rfl

namespace ChatViewController

def SameContact (vc vc' : ChatViewController) : Prop :=
  vc.idContato = vc'.idContato ∧ vc.nomeContato = vc'.nomeContato ∧
    vc.urlFotoContato = vc'.urlFotoContato

def SameStores (vc vc' : ChatViewController) : Prop :=
  ∀ (store : Store) (es : List ChatEvent), (Chat.run ⟨vc,store⟩ es).store = (Chat.run ⟨vc',store⟩ es).store

/-- Whatever happens in the chat of `uid` with `id`, the row `d` keeps its fields but for the
last text sent. -/
def KeepsRow (vc : ChatViewController) (uid id : String) (d : Dict) : Prop :=
  ∀ (store : Store) (es : List ChatEvent), store.lookup ⟨ultimasConversas uid,id⟩ = some d →
    ((Chat.run ⟨vc,store⟩ es).store.lookup ⟨ultimasConversas uid,id⟩).map Conversa.ofDictionary =
      some { Conversa.ofDictionary d with
        ultimaMensagem := (Chat.lastTexto? es).or (Conversa.ofDictionary d).ultimaMensagem }

theorem sameContact_iff (uid id nome : String) (url url' : Option String) :
    SameContact (viewDidLoad ⟨some id,some nome,url⟩ (some uid))
      (viewDidLoad ⟨some id,some nome,url'⟩ (some uid)) ↔ url = url' := by
  have hurl : ∀ url, (viewDidLoad ⟨some id,some nome,url⟩ (some uid)).urlFotoContato = url := by
    intro url
    cases url <;> rfl
  rw [SameContact,hurl,hurl]
  refine ⟨fun h => h.2.2,fun h => ⟨?_,?_,h⟩⟩ <;> cases url <;> cases url' <;> rfl

/-- Two chats with one contact leave the same stores if they store one photo, or if the contact
is the user: then the peer's write replaces the own one. One send shows the difference. -/
theorem sameStores_iff (uid id nome : String) (url url' : Option String) :
    SameStores (viewDidLoad ⟨some id,some nome,url⟩ (some uid))
      (viewDidLoad ⟨some id,some nome,url'⟩ (some uid)) ↔ url.getD "" = url'.getD "" ∨ uid = id := by
  have hs := Chat.sends_viewDidLoad uid id nome url
  have ht := Chat.sends_viewDidLoad uid id nome url'
  constructor
  · intro h
    refine or_iff_not_imp_right.mpr fun hne => ?_
    have hsend := h ∅ [.actionPushMessage "" "" "" fun _ => 0]
    have hlookup := congrArg (fun store : Store => store.lookup ⟨ultimasConversas uid,id⟩) hsend
    simp only [Chat.run,List.foldl_cons,List.foldl_nil] at hlookup
    rw [(hs ∅).lookup_send hne,(ht ∅).lookup_send hne] at hlookup
    have hconversa := congrArg Conversa.ofDictionary (Option.some.inj hlookup)
    rw [conversa_ofDictionary,conversa_ofDictionary] at hconversa
    exact Option.some.inj (congrArg Conversa.urlFotoUsuario hconversa)
  · intro h store es
    have halike : Chat.Alike ⟨viewDidLoad ⟨some id,some nome,url⟩ (some uid),store⟩
        ⟨viewDidLoad ⟨some id,some nome,url'⟩ (some uid),store⟩ := by
      cases url <;> cases url' <;> exact ⟨rfl,rfl,rfl⟩
    exact (halike.run (hs store) (ht store) h es).store

/-- A chat keeps the row of its contact if the photo it stores is that of the row and the contact
is another user. In a chat with oneself the row takes the profile that has been delivered. -/
theorem keepsRow_iff (uid : String) (url : Option String) {id nome : String} {d : Dict}
    (hid : Dict.string? d "idDestinatario" = some id)
    (hnome : Dict.string? d "nomeUsuario" = some nome) :
    KeepsRow (viewDidLoad ⟨some id,some nome,url⟩ (some uid)) uid id d ↔
      Dict.string? d "urlFotoUsuario" = some (url.getD "") ∧ uid ≠ id := by
  have hs := Chat.sends_viewDidLoad uid id nome url
  constructor
  · intro h
    obtain ⟨store,hrow⟩ : ∃ store : Store, store.lookup ⟨ultimasConversas uid,id⟩ = some d :=
      ⟨_,AList.lookup_insert ∅⟩
    have hne : uid ≠ id := by
      rintro rfl
      have hfoto := fun es => congrArg (Option.map Conversa.urlFotoUsuario) (h store es hrow)
      have hnone := hfoto [.actionPushMessage "" "" "" fun _ => 0]
      have hload := hfoto [.dadosUsuarioLogado false none,.actionPushMessage "" "" "" fun _ => 0]
      simp only [Chat.run,List.foldl_cons,List.foldl_nil] at hnone hload
      rw [(hs store).store_send,AList.lookup_insert,Option.map_some,conversa_ofDictionary] at hnone
      rw [((hs store).step _).store_send,AList.lookup_insert,Option.map_some,
        conversa_ofDictionary] at hload
      have hsame := (Option.some.inj hnone).trans (Option.some.inj hload).symm
      cases url <;> exact absurd hsame (by simp [Chat.step,viewDidLoad,configDataFireBase,
        dadosUsuarioLogado])
    refine ⟨?_,hne⟩
    have hsend := h store [.actionPushMessage "" "" "" fun _ => 0] hrow
    rw [(hs store).lookup_run hne hrow] at hsend
    have hfoto := congrArg Conversa.urlFotoUsuario (Option.some.inj hsend)
    simp only [Chat.lastTexto?,Option.none_or,Option.elim_some,conversa_ofDictionary] at hfoto
    exact hfoto.symm
  · rintro ⟨hfoto,hne⟩ store es hlookup
    rw [(hs store).lookup_run hne hlookup]
    cases Chat.lastTexto? es with
    | none => simp
    | some texto =>
      simp only [Option.map_some,Option.elim_some,Option.some_or,conversa_ofDictionary]
      simp [Conversa.ofDictionary,hid,hnome,hfoto]

end ChatViewController

namespace MessageListViewController

variable {home : MessageListViewController} {row : ℕ} {id nome : String}

/-- A conversation row opens the chat on its decoded peer, without the photo. -/
theorem select_conversa {d : Dict}
    (h : home.cellForItemAt row = some (.conversa (Conversa.ofDictionary d)))
    (hid : Dict.string? d "idDestinatario" = some id)
    (hnome : Dict.string? d "nomeUsuario" = some nome) :
    home.didSelectItemAt row = some (.pushChat ⟨some id,some nome,none⟩) := by
  rw [didSelectItemAt_eq,h]
  simp [HomeItem.selected,Conversa.ofDictionary,hid,hnome]

theorem select_contact {c : Dict}
    (h : home.cellForItemAt row = some (.contact (Contact.ofDictionary (some c))))
    (hid : Dict.string? c "id" = some id) (hnome : Dict.string? c "nome" = some nome) :
    home.didSelectItemAt row =
      some (.pushChat ⟨some id,some nome,Dict.string? c "urlImagem"⟩) := by
  rw [didSelectItemAt_eq,h]
  simp [HomeItem.selected,Contact.ofDictionary,hid,hnome]

end MessageListViewController

section
variable {home home' : MessageListViewController} {row row' : ℕ} {d c : Dict}
  {id nome uid : String}

/-- The two ways of opening a chat with one id, name and photo are never equivalent: the screen
has the same contact only where there is no photo, the stores are the same only where the photo
is empty or the contact is the user, and the row is kept only where the photo is the empty
string and the contact is another user. -/
theorem open_chat_never_equiv {url : Option String}
    (hconversa : home.cellForItemAt row = some (.conversa (Conversa.ofDictionary d)))
    (hid : Dict.string? d "idDestinatario" = some id)
    (hnome : Dict.string? d "nomeUsuario" = some nome)
    (hurl : Dict.string? d "urlFotoUsuario" = url)
    (hcontact : home'.cellForItemAt row' = some (.contact (Contact.ofDictionary (some c))))
    (hid' : Dict.string? c "id" = some id) (hnome' : Dict.string? c "nome" = some nome)
    (hurl' : Dict.string? c "urlImagem" = url) :
    ∃ contato contato', home.didSelectItemAt row = some (.pushChat contato) ∧
      home'.didSelectItemAt row' = some (.pushChat contato') ∧
      ∀ vc vc', vc = ChatViewController.viewDidLoad contato (some uid) →
        vc' = ChatViewController.viewDidLoad contato' (some uid) →
        (vc.SameContact vc' ↔ url = none) ∧
        (vc.SameStores vc' ↔ url.getD "" = "" ∨ uid = id) ∧
        (vc.KeepsRow uid id d ↔ url = some "" ∧ uid ≠ id) ∧
        ¬ (vc.SameContact vc' ∧ vc.SameStores vc' ∧ vc.KeepsRow uid id d) := by
  refine ⟨_,_,MessageListViewController.select_conversa hconversa hid hnome,
    MessageListViewController.select_contact hcontact hid' hnome',?_⟩
  rintro vc vc' rfl rfl
  rw [hurl']
  have hfoto := ChatViewController.sameContact_iff uid id nome none url
  have hstores := ChatViewController.sameStores_iff uid id nome none url
  have hrow := ChatViewController.keepsRow_iff uid none hid hnome
  rw [hurl] at hrow
  refine ⟨hfoto.trans eq_comm,hstores.trans (or_congr_left eq_comm),hrow,?_⟩
  rintro ⟨hsame,_,hkeeps⟩
  have hnone : none = url := hfoto.mp hsame
  have hsome : url = some "" := (hrow.mp hkeeps).1
  exact absurd (hnone.trans hsome) (by simp)

/-- A contact of `Bia` as `addContact` stores it, and her conversation row. -/
def biaContato : Dict :=
  Dict.ofList [("id",.string "u2"),("nome",.string "Bia"),("urlImagem",.string "foto")]

def biaConversa : Dict := conversaDict "oi" "u1" "u2" "Bia" (some "foto")

def biaRow : MessageListViewController := { listaConversas := [.ofDictionary biaConversa] }

def biaContactRow : MessageListViewController :=
  { screenContact := some true, listContact := [.ofDictionary (some biaContato)] }

/-- Her contact as it is stored before she records a photo. -/
def biaNewContato : Dict := Dict.ofList [("id",.string "u2"),("nome",.string "Bia")]

def biaNewContactRow : MessageListViewController :=
  { screenContact := some true, listContact := [.ofDictionary (some biaNewContato)] }

def biaStore : Store := Store.commit 0 ∅ (.setData ⟨ultimasConversas "u1","u2"⟩ biaConversa)

theorem open_chat_never_equiv_bia :
    ∃ contato contato', biaRow.didSelectItemAt 0 = some (.pushChat contato) ∧
      biaContactRow.didSelectItemAt 0 = some (.pushChat contato') ∧
      ¬ (ChatViewController.viewDidLoad contato (some "u1")).SameStores
        (ChatViewController.viewDidLoad contato' (some "u1")) := by
  obtain ⟨contato,contato',h,h',hchat⟩ := @open_chat_never_equiv biaRow biaContactRow 0 0
    biaConversa biaContato "u2" "Bia" "u1" (some "foto") rfl rfl rfl rfl rfl rfl rfl rfl
  refine ⟨contato,contato',h,h',fun hsame => ?_⟩
  exact absurd ((hchat _ _ rfl rfl).2.1.mp hsame) (by decide)

/-- One send from the conversation row of `Bia` erases its photo, which a send from her contact
row keeps. -/
theorem open_chat_photo_erased :
    biaRow.didSelectItemAt 0 = some (.pushChat ⟨some "u2",some "Bia",none⟩) ∧
    biaContactRow.didSelectItemAt 0 = some (.pushChat ⟨some "u2",some "Bia",some "foto"⟩) ∧
    (biaStore.lookup ⟨ultimasConversas "u1","u2"⟩).map Conversa.ofDictionary =
      some ⟨some "Bia",some "oi",some "foto",some "u2"⟩ ∧
    ((Chat.run ⟨ChatViewController.viewDidLoad ⟨some "u2",some "Bia",none⟩ (some "u1"),biaStore⟩
      [.actionPushMessage "ola" "m1" "m2" fun _ => 4]).store.lookup ⟨ultimasConversas "u1","u2"⟩).map
        Conversa.ofDictionary = some ⟨some "Bia",some "ola",some "",some "u2"⟩ ∧
    ((Chat.run ⟨ChatViewController.viewDidLoad ⟨some "u2",some "Bia",some "foto"⟩ (some "u1"),
        biaStore⟩
      [.actionPushMessage "ola" "m1" "m2" fun _ => 4]).store.lookup ⟨ultimasConversas "u1","u2"⟩).map
        Conversa.ofDictionary = some ⟨some "Bia",some "ola",some "foto",some "u2"⟩ :=
  ⟨by decide,by decide,by decide,by decide,by decide⟩

/-- The chat of a conversation row has the row's id and name but no photo: its navigation bar
shows the placeholder, and whatever happens in the chat the row keeps its document until the
first send and has the empty photo from then on. -/
theorem row_photo_lost {Img Url : Type} (app : Bundle Img Url)
    (hconversa : home.cellForItemAt row = some (.conversa (Conversa.ofDictionary d)))
    (hid : Dict.string? d "idDestinatario" = some id)
    (hnome : Dict.string? d "nomeUsuario" = some nome) :
    ∃ contato, home.didSelectItemAt row = some (.pushChat contato) ∧
      ∀ vc, vc = ChatViewController.viewDidLoad contato (some uid) →
        (vc.idContato = some id ∧ vc.nomeContato = some nome ∧ vc.urlFotoContato = none) ∧
        (∀ navView : ChatNavigationView Img Url,
          (vc.configChatView app navView).customImage.imageView.image = app.named "imagem-perfil") ∧
        ∀ (store : Store) (es : List ChatEvent), uid ≠ id →
          store.lookup ⟨ultimasConversas uid,id⟩ = some d →
          (Chat.run ⟨vc,store⟩ es).store.lookup ⟨ultimasConversas uid,id⟩ =
            some ((Chat.lastTexto? es).elim d fun texto =>
              conversaDict texto uid id nome (some "")) := by
  refine ⟨_,MessageListViewController.select_conversa hconversa hid hnome,?_⟩
  rintro vc rfl
  refine ⟨⟨rfl,rfl,rfl⟩,fun navView => rfl,fun store es hne hrow => ?_⟩
  exact (Chat.sends_viewDidLoad uid id nome none store).lookup_run hne hrow es

theorem row_photo_lost_bia :
    Dict.string? biaConversa "urlFotoUsuario" = some "foto" ∧
    ∃ contato, biaRow.didSelectItemAt 0 = some (.pushChat contato) ∧
      (Chat.run ⟨ChatViewController.viewDidLoad contato (some "u1"),biaStore⟩
        [.actionPushMessage "ola" "m1" "m2" fun _ => 4]).store.lookup ⟨ultimasConversas "u1","u2"⟩ =
          some (conversaDict "ola" "u1" "u2" "Bia" (some "")) := by
  obtain ⟨contato,hrow,hchat⟩ := @row_photo_lost biaRow 0 biaConversa "u2" "Bia" "u1" String String
    bundle rfl rfl rfl
  refine ⟨rfl,contato,hrow,?_⟩
  have hlookup : biaStore.lookup ⟨ultimasConversas "u1","u2"⟩ = some biaConversa := by
    simp [biaStore,biaConversa]
  exact (hchat _ rfl).2.2 biaStore [.actionPushMessage "ola" "m1" "m2" fun _ => 4] (by decide) hlookup

/-- A conversation row and the contact row of the same user open chats that leave the same
stores on every run exactly if the contact has no photo or an empty one, or the user is their
own contact. The photo of the row does not matter. -/
theorem row_and_contact_agree_iff
    (hconversa : home.cellForItemAt row = some (.conversa (Conversa.ofDictionary d)))
    (hid : Dict.string? d "idDestinatario" = some id)
    (hnome : Dict.string? d "nomeUsuario" = some nome)
    (hcontact : home'.cellForItemAt row' = some (.contact (Contact.ofDictionary (some c))))
    (hid' : Dict.string? c "id" = some id) (hnome' : Dict.string? c "nome" = some nome) :
    ∃ contato contato', home.didSelectItemAt row = some (.pushChat contato) ∧
      home'.didSelectItemAt row' = some (.pushChat contato') ∧
      ((∀ (store : Store) (es : List ChatEvent),
        (Chat.run ⟨ChatViewController.viewDidLoad contato (some uid),store⟩ es).store =
          (Chat.run ⟨ChatViewController.viewDidLoad contato' (some uid),store⟩ es).store) ↔
        (Dict.string? c "urlImagem").getD "" = "" ∨ uid = id) := by
  refine ⟨_,_,MessageListViewController.select_conversa hconversa hid hnome,
    MessageListViewController.select_contact hcontact hid' hnome',?_⟩
  have hstores := ChatViewController.sameStores_iff uid id nome none (Dict.string? c "urlImagem")
  exact hstores.trans (or_congr_left eq_comm)

end

/-- `Bia` has a photo, so the two chats with her differ; without one they agree. -/
theorem row_and_contact_agree_iff_bia :
    (∃ contato contato', biaRow.didSelectItemAt 0 = some (.pushChat contato) ∧
      biaContactRow.didSelectItemAt 0 = some (.pushChat contato') ∧
      ¬ ∀ (store : Store) (es : List ChatEvent),
        (Chat.run ⟨ChatViewController.viewDidLoad contato (some "u1"),store⟩ es).store =
          (Chat.run ⟨ChatViewController.viewDidLoad contato' (some "u1"),store⟩ es).store) ∧
    ∃ contato contato', biaRow.didSelectItemAt 0 = some (.pushChat contato) ∧
      biaNewContactRow.didSelectItemAt 0 = some (.pushChat contato') ∧
      ∀ (store : Store) (es : List ChatEvent),
        (Chat.run ⟨ChatViewController.viewDidLoad contato (some "u1"),store⟩ es).store =
          (Chat.run ⟨ChatViewController.viewDidLoad contato' (some "u1"),store⟩ es).store := by
  refine ⟨?_,?_⟩
  · obtain ⟨contato,contato',hrow,hrow',hiff⟩ := @row_and_contact_agree_iff biaRow biaContactRow 0 0
      biaConversa biaContato "u2" "Bia" "u1" rfl rfl rfl rfl rfl rfl
    exact ⟨contato,contato',hrow,hrow',fun h => absurd (hiff.mp h) (by decide)⟩
  · obtain ⟨contato,contato',hrow,hrow',hiff⟩ := @row_and_contact_agree_iff biaRow biaNewContactRow
      0 0 biaConversa biaNewContato "u2" "Bia" "u1" rfl rfl rfl rfl rfl rfl
    exact ⟨contato,contato',hrow,hrow',hiff.mpr (.inl rfl)⟩

end MessageApp
