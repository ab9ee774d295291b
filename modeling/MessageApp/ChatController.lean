import MessageApp.Firestore

/-! The chat screen: the state of `ChatViewController`, its asynchronous callbacks,
the rows it shows, and the four writes of one send. -/
namespace MessageApp

structure ChatViewController where
  idUsuarioLogado : Option String := none
  contato : Option Contact := none
  nomeContato : Option String := none
  urlFotoContato : Option String := none
  nomeUsuarioLogado : Option String := none
  urlFotoUsuarioLogado : Option String := none
  listaMensagens : List Message := []
  deriving DecidableEq

inductive Side
  | incoming | outgoing
  deriving DecidableEq

namespace ChatViewController

def idContato (vc : ChatViewController) : Option String := vc.contato.bind Contact.id

def recuperarDadosUsuarioLogado (vc : ChatViewController) : DocPath :=
  ⟨usuarios,vc.idUsuarioLogado.getD ""⟩

/-- Its completion: nothing on an error, else the data of the document, which is
empty when the document does not exist. -/
def dadosUsuarioLogado (vc : ChatViewController) (erro : Bool) (data : Option Dict) :
    ChatViewController :=
  if erro then vc
  else
    let dados := Contact.ofDictionary (some (data.getD Dict.empty))
    { vc with
      urlFotoUsuarioLogado := some (dados.urlImage.getD "")
      nomeUsuarioLogado := some (dados.nome.getD "") }

/-- The second component is the profile read, issued only for a signed-in user. -/
def configDataFireBase (vc : ChatViewController) (currentUser : Option String) :
    ChatViewController × Option DocPath :=
  let (vc,read) : ChatViewController × Option DocPath :=
    match currentUser with
    | some id =>
      let vc := { vc with idUsuarioLogado := some id }
      (vc,some vc.recuperarDadosUsuarioLogado)
    | none => (vc,none)
  let vc :=
    match vc.contato.bind Contact.nome with
    | some nome => { vc with nomeContato := some nome }
    | none => vc
  let vc :=
    match vc.contato.bind Contact.urlImage with
    | some url => { vc with urlFotoContato := some url }
    | none => vc
  (vc,read)

/-- A chat opened on a contact, as `viewDidLoad` leaves it. -/
def viewDidLoad (contato : Contact) (currentUser : Option String) : ChatViewController :=
  (({ contato := some contato } : ChatViewController).configDataFireBase currentUser).1

/-- The collection the listener of `viewWillAppear` is registered on. -/
def addListenerRecuperarMensagens (vc : ChatViewController) : Option (List String) :=
  vc.idContato.map fun idDestinatario => mensagens (vc.idUsuarioLogado.getD "") idDestinatario

/-- The listener's callback; an error delivers no snapshot. -/
def mensagensSnapshot (vc : ChatViewController) (querySnapshot : Option Snapshot) :
    ChatViewController :=
  match querySnapshot with
  | none => { vc with listaMensagens := [] }
  | some docs => { vc with listaMensagens := docs.map fun d => Message.ofDictionary d.2 }

def numberOfRowsInSection (vc : ChatViewController) : ℕ := vc.listaMensagens.length

/-- `none` is the trap of an index out of range. -/
def cellForRowAt (vc : ChatViewController) (indice : ℕ) : Option (Side × Message) :=
  vc.listaMensagens[indice]?.map fun dados =>
    let idUsuario := dados.idUsuario.getD ""
    if vc.idUsuarioLogado ≠ some idUsuario then (.incoming,dados) else (.outgoing,dados)

def salvarMensagem (idRemetente idDestinatario : String) (mensagem : Dict) (autoId : String) :
    Write :=
  .addDocument (mensagens idRemetente idDestinatario) autoId mensagem

def salvarConversa (idRemetente idDestinatario : String) (conversa : Dict) : Write :=
  .setData ⟨ultimasConversas idRemetente,idDestinatario⟩ conversa

/-- The writes of one send, in the order they are issued. `idRemetente` and
`idDestinatario` are the automatic ids drawn by the two `addDocument` calls. -/
def actionPushMessage (vc : ChatViewController) (message : String)
    (autoRemetente autoDestinatario : String) : List Write :=
  match vc.idContato with
  | none => []
  | some idUsuarioDestinatario =>
    let logado := vc.idUsuarioLogado.getD ""
    let mensagem := Dict.ofList
      [("idUsuario",.string logado),("texto",.string message),("data",.serverTimestamp)]
    let conversa := Dict.ofList [("ultimaMensagem",.string message)]
    -- dados de quem recebe
    let conversa := Dict.set conversa "idRemetente" (some (.string logado))
    let conversa := Dict.set conversa "idDestinatario" (some (.string idUsuarioDestinatario))
    let conversa := Dict.set conversa "nomeUsuario" (some (.string (vc.nomeContato.getD "")))
    let conversa := Dict.set conversa "urlFotoUsuario" (some (.string (vc.urlFotoContato.getD "")))
    -- dados de quem envia, on the same dictionary; a `nil` photo removes the key
    let conversa' := Dict.set conversa "idRemetente" (some (.string idUsuarioDestinatario))
    let conversa' := Dict.set conversa' "idDestinatario" (some (.string logado))
    let conversa' := Dict.set conversa' "nomeUsuario"
      (some (.string (vc.nomeUsuarioLogado.getD "")))
    let conversa' := Dict.set conversa' "urlFotoUsuario" (vc.urlFotoUsuarioLogado.map .string)
    [salvarMensagem logado idUsuarioDestinatario mensagem autoRemetente,
      salvarMensagem idUsuarioDestinatario logado mensagem autoDestinatario,
      salvarConversa logado idUsuarioDestinatario conversa,
      salvarConversa idUsuarioDestinatario logado conversa']

end ChatViewController

def mensagemDict (idUsuario texto : String) : Dict :=
  Dict.ofList [("idUsuario",.string idUsuario),("texto",.string texto),("data",.serverTimestamp)]

def conversaDict (texto idRemetente idDestinatario nome : String) (url : Option String) : Dict :=
  Dict.set (Dict.set (Dict.set (Dict.set (Dict.ofList [("ultimaMensagem",.string texto)])
    "idRemetente" (some (.string idRemetente))) "idDestinatario" (some (.string idDestinatario)))
    "nomeUsuario" (some (.string nome))) "urlFotoUsuario" (url.map .string)

/-- Reassigning the four keys of the shared dictionary leaves nothing of the first roles. -/
theorem conversaDict_reassigned (texto r d n : String) (u : Option String)
    (idRemetente idDestinatario nome : String) (url : Option String) :
    Dict.set (Dict.set (Dict.set (Dict.set (conversaDict texto r d n u)
      "idRemetente" (some (.string idRemetente))) "idDestinatario" (some (.string idDestinatario)))
      "nomeUsuario" (some (.string nome))) "urlFotoUsuario" (url.map .string) =
      conversaDict texto idRemetente idDestinatario nome url := by
  funext k
  by_cases h₁ : k = "urlFotoUsuario"
  · subst h₁; rfl
  by_cases h₂ : k = "nomeUsuario"
  · subst h₂; rfl
  by_cases h₃ : k = "idDestinatario"
  · subst h₃; rfl
  by_cases h₄ : k = "idRemetente"
  · subst h₄; rfl
  simp only [conversaDict,Dict.set,Function.update_of_ne h₁,Function.update_of_ne h₂,
    Function.update_of_ne h₃,Function.update_of_ne h₄]

@[simp] theorem mensagemDict_texto (idUsuario texto : String) :
    Dict.string? (mensagemDict idUsuario texto) "texto" = some texto := rfl
@[simp] theorem mensagemDict_idUsuario (idUsuario texto : String) :
    Dict.string? (mensagemDict idUsuario texto) "idUsuario" = some idUsuario := rfl
@[simp] theorem mensagemDict_urlImagem (idUsuario texto : String) :
    Dict.string? (mensagemDict idUsuario texto) "urlImagem" = none := rfl

theorem mensagemDict_data (now : ℕ) (idUsuario texto : String) :
    Dict.resolve now (mensagemDict idUsuario texto) "data" = some (.timestamp now) := rfl

@[simp] theorem conversaDict_ultimaMensagem (texto r d n : String) (u : Option String) :
    Dict.string? (conversaDict texto r d n u) "ultimaMensagem" = some texto := rfl
@[simp] theorem conversaDict_idRemetente (texto r d n : String) (u : Option String) :
    Dict.string? (conversaDict texto r d n u) "idRemetente" = some r := rfl
@[simp] theorem conversaDict_idDestinatario (texto r d n : String) (u : Option String) :
    Dict.string? (conversaDict texto r d n u) "idDestinatario" = some d := rfl
@[simp] theorem conversaDict_nomeUsuario (texto r d n : String) (u : Option String) :
    Dict.string? (conversaDict texto r d n u) "nomeUsuario" = some n := rfl

@[simp] theorem conversaDict_resolve (now : ℕ) (texto r d n : String) (u : Option String) :
    Dict.resolve now (conversaDict texto r d n u) = conversaDict texto r d n u := by
  cases u <;> simp [conversaDict,Dict.ofList,Value.resolve]

@[simp] theorem message_ofDictionary (now : ℕ) (idUsuario texto : String) :
    Message.ofDictionary (Dict.resolve now (mensagemDict idUsuario texto)) =
      ⟨some texto,some idUsuario,none⟩ := by
  simp [Message.ofDictionary]

namespace ChatViewController

variable {vc : ChatViewController} {u v : String}

theorem actionPushMessage_getD (hu : vc.idUsuarioLogado.getD "" = u) (hv : vc.idContato = some v)
    (texto a b : String) :
    vc.actionPushMessage texto a b =
      [.setData ⟨mensagens u v,a⟩ (mensagemDict u texto),
        .setData ⟨mensagens v u,b⟩ (mensagemDict u texto),
        .setData ⟨ultimasConversas u,v⟩
          (conversaDict texto u v (vc.nomeContato.getD "") (some (vc.urlFotoContato.getD ""))),
        .setData ⟨ultimasConversas v,u⟩
          (conversaDict texto v u (vc.nomeUsuarioLogado.getD "") vc.urlFotoUsuarioLogado)] := by
  have hpeer := conversaDict_reassigned texto u v (vc.nomeContato.getD "")
    (some (vc.urlFotoContato.getD "")) v u (vc.nomeUsuarioLogado.getD "") vc.urlFotoUsuarioLogado
  simp only [actionPushMessage,hv,hu,salvarMensagem,salvarConversa,Write.addDocument,← hpeer]
  rfl

theorem actionPushMessage_eq (hu : vc.idUsuarioLogado = some u) (hv : vc.idContato = some v)
    (texto a b : String) :
    vc.actionPushMessage texto a b =
      [.setData ⟨mensagens u v,a⟩ (mensagemDict u texto),
        .setData ⟨mensagens v u,b⟩ (mensagemDict u texto),
        .setData ⟨ultimasConversas u,v⟩
          (conversaDict texto u v (vc.nomeContato.getD "") (some (vc.urlFotoContato.getD ""))),
        .setData ⟨ultimasConversas v,u⟩
          (conversaDict texto v u (vc.nomeUsuarioLogado.getD "") vc.urlFotoUsuarioLogado)] :=
  actionPushMessage_getD (by rw [hu,Option.getD_some]) hv texto a b

theorem actionPushMessage_none (hv : vc.idContato = none) (texto a b : String) :
    vc.actionPushMessage texto a b = [] := by
  simp [actionPushMessage,hv]

end ChatViewController
end MessageApp
