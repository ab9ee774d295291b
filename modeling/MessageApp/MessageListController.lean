import MessageApp.ChatController

/-! The home screen: the state of `MessageListViewController`, its tabs, its asynchronous
callbacks and the rows it shows. A handler returns the new state with what it asks of the
database and of the collection view, in order. -/
namespace MessageApp

inductive TypeConversationOrContact
  | conversation | contact
  deriving DecidableEq

structure AuthUser where
  uid : String
  email : Option String
  deriving DecidableEq

inductive HomeEffect
  | getDocuments (collection : List String)
  | addSnapshotListener (registration : ℕ) (collection : List String)
  | remove (registration : Option ℕ)
  | reloadCollection
  deriving DecidableEq

inductive HomeItem
  | contact (contato : Contact)
  | conversa (dados : Conversa)
  | addContact
  deriving DecidableEq

inductive HomeAction
  | pushChat (contato : Contact)
  | alertAddContact
  deriving DecidableEq

structure MessageListViewController where
  idUsuarioLogado : Option String := none
  emailUsuarioLogado : Option String := none
  screenContact : Option Bool := none
  listContact : List Contact := []
  listaConversas : List Conversa := []
  conversasListener : Option ℕ := none
  deriving DecidableEq

namespace MessageListViewController

def configAdentifierFirebase (vc : MessageListViewController) (currentUser : Option AuthUser) :
    MessageListViewController :=
  match currentUser with
  | some user => { vc with idUsuarioLogado := some user.uid, emailUsuarioLogado := user.email }
  | none => vc

/-- Only the last registration is kept. -/
def addListenerRecuperarConversa (vc : MessageListViewController) (currentUser : Option AuthUser)
    (registration : ℕ) : MessageListViewController × List HomeEffect :=
  match currentUser with
  | some user =>
    ({ vc with conversasListener := some registration },
      [.addSnapshotListener registration (ultimasConversas user.uid)])
  | none => (vc,[])

def conversasSnapshot (vc : MessageListViewController) (erro : Bool)
    (querSnapshot : Option Snapshot) : MessageListViewController × List HomeEffect :=
  if erro then (vc,[])
  else
    match querSnapshot with
    | none => ({ vc with listaConversas := [] },[])
    | some docs =>
      ({ vc with listaConversas := docs.map fun d => Conversa.ofDictionary d.2 },
        [.reloadCollection])

def viewDidLoad (currentUser : Option AuthUser) (registration : ℕ) :
    MessageListViewController × List HomeEffect :=
  (configAdentifierFirebase {} currentUser).addListenerRecuperarConversa currentUser registration

def getContatos (vc : MessageListViewController) : MessageListViewController × List HomeEffect :=
  ({ vc with listContact := [] },[.getDocuments (contatos (vc.idUsuarioLogado.getD ""))])

/-- The completion of `getContatos`, which prints an error and goes on. -/
def contatosResultado (vc : MessageListViewController) (snapshotResultado : Option Snapshot) :
    MessageListViewController × List HomeEffect :=
  match snapshotResultado with
  | none => (vc,[])
  | some docs =>
    ({ vc with
        listContact := vc.listContact ++ docs.map fun d => Contact.ofDictionary (some d.2) },
      [.reloadCollection])

def typeScreenMessage (vc : MessageListViewController) (type : TypeConversationOrContact)
    (currentUser : Option AuthUser) (registration : ℕ) :
    MessageListViewController × List HomeEffect :=
  match type with
  | .contact =>
    let (vc,reads) := { vc with screenContact := some true }.getContatos
    (vc,reads ++ [.remove vc.conversasListener])
  | .conversation =>
    let (vc,listens) :=
      { vc with screenContact := some false }.addListenerRecuperarConversa currentUser registration
    (vc,listens ++ [.reloadCollection])

/-- The completion of the alert that `successContato` presents. -/
def successContato (vc : MessageListViewController) :
    MessageListViewController × List HomeEffect := vc.getContatos

def numberOfItemsInSection (vc : MessageListViewController) : ℕ :=
  if vc.screenContact.getD false then vc.listContact.length+1 else vc.listaConversas.length

/-- The item a cell shows; `none` is the trap of an index out of range. -/
def cellForItemAt (vc : MessageListViewController) (row : ℕ) : Option HomeItem :=
  if vc.screenContact.getD false then
    if row = vc.listContact.length then some .addContact
    else vc.listContact[row]?.map .contact
  else vc.listaConversas[row]?.map .conversa

def didSelectItemAt (vc : MessageListViewController) (row : ℕ) : Option HomeAction :=
  if vc.screenContact.getD false then
    if row = vc.listContact.length then some .alertAddContact
    else vc.listContact[row]?.map .pushChat
  else
    vc.listaConversas[row]?.map fun dados =>
      .pushChat (.ofFields (some (dados.idDestinatario.getD "")) (some (dados.nome.getD ""))
        (some (dados.urlFotoUsuario.getD "")))

end MessageListViewController

/-- What a tap does with the item of its row. -/
def HomeItem.selected : HomeItem → HomeAction
  | .contact contato => .pushChat contato
  | .conversa dados =>
    .pushChat (.ofFields (some (dados.idDestinatario.getD "")) (some (dados.nome.getD ""))
      (some (dados.urlFotoUsuario.getD "")))
  | .addContact => .alertAddContact

namespace MessageListViewController

variable {vc : MessageListViewController} {row : ℕ}

theorem didSelectItemAt_eq (vc : MessageListViewController) (row : ℕ) :
    vc.didSelectItemAt row = (vc.cellForItemAt row).map HomeItem.selected := by
  unfold didSelectItemAt cellForItemAt
  split_ifs <;> simp [HomeItem.selected,Function.comp_def]

end MessageListViewController
end MessageApp
