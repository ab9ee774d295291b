import MessageApp.AccountControllers
import MessageApp.Listeners

/-! The whole app: accounts, the server's store, writes in flight, and any number of
signed-in sessions, each with its home screen and the chat opened from it. A read is
answered from the store as the client sees it, with some writes in flight already visible. -/
namespace MessageApp

/-- An account of Auth, with what was typed at its registration. -/
structure Account where
  uid : String
  email : String
  nome : String
  uid_ne : uid ≠ ""
  deriving DecidableEq

/-- An open chat. `peer` is the id of the document its row was decoded from and `carregado`
tells whether the profile load has delivered the stored document; neither is read. -/
structure ChatScreen where
  vc : ChatViewController
  peer : String
  perfil : Option DocPath
  escuta : Option (List String)
  carregado : Bool

namespace ChatScreen

/-- The screen a row of `uid` pushes, once it has loaded and appeared. -/
def push (uid : String) (contato : Contact) (peer : String) : ChatScreen :=
  let (vc,perfil) :=
    ({ contato := some contato } : ChatViewController).configDataFireBase (some uid)
  ⟨vc,peer,perfil,vc.addListenerRecuperarMensagens,false⟩

def dadosUsuarioLogado (chat : ChatScreen) (erro : Bool) (data : Option Dict) : ChatScreen :=
  { chat with
    vc := chat.vc.dadosUsuarioLogado erro data
    perfil := none
    carregado := if erro then chat.carregado else data.isSome }

def mensagensSnapshot (chat : ChatScreen) (docs : Option Snapshot) : ChatScreen :=
  { chat with vc := chat.vc.mensagensSnapshot docs }

theorem push_eq (uid : String) (contato : Contact) (peer : String) :
    push uid contato peer =
      ⟨{ idUsuarioLogado := some uid
         contato := some contato
         nomeContato := contato.nome
         urlFotoContato := contato.urlImage },
        peer,some ⟨usuarios,uid⟩,contato.id.map (mensagens uid),false⟩ := by
  obtain ⟨id,nome,url⟩ := contato
  cases nome <;> cases url <;> rfl

end ChatScreen

/-- One signed-in session. The two lists of ids name the documents behind the rows. -/
structure Session where
  home : HomeScreen
  leituras : List (List String)
  contatoIds : List String
  conversaIds : List String
  chat : Option ChatScreen

inductive ClientEvent
  | tab (type : TypeConversationOrContact)
  /-- The listener of a registration fires. -/
  | conversas (j : ℕ) (erro : Bool)
  /-- A call of `getContatos` completes. -/
  | contatos (j : ℕ) (erro : Bool)
  | successDismissed
  /-- A tap on a row; `texto` is what the user types if it asks for an e-mail. -/
  | select (row : ℕ) (texto : String)
  | dadosUsuarioLogado (erro : Bool)
  | mensagens (erro : Bool)
  | actionPushMessage (texto autoRemetente autoDestinatario : String)
  | back
  | downloadURL (urlImagem : String)

structure Requests where
  writes : List Write := []
  consultas : List Consulta := []
  leituras : List (List String) := []

namespace HomeEffect

def collection? : HomeEffect → Option (List String)
  | .getDocuments c => some c
  | .addSnapshotListener _ c => some c
  | _ => none

def getDocuments? : HomeEffect → Option (List String)
  | .getDocuments c => some c
  | _ => none

end HomeEffect

def DocPath.segments (p : DocPath) : List String := p.collection ++ [p.id]

/-- The reply to a read: nothing on an error, else the collection as the client sees it. -/
def resposta (view : Store) (collection : List String) (erro : Bool) : Option Snapshot :=
  if erro then none else some (view.documents collection)

theorem documents_of_resposta {view : Store} {collection : List String} {erro : Bool} {docs : Snapshot}
    (h : resposta view collection erro = some docs) : docs = view.documents collection := by
  obtain ⟨_,hdocs⟩ := Option.ite_none_left_eq_some.mp h
  exact (Option.some.inj hdocs).symm

namespace Session

def user (ses : Session) : AuthUser := ses.home.user

def perform (ses : Session) (r : MessageListViewController × List HomeEffect) :
    Session × Requests :=
  ({ ses with
      home := ses.home.perform r
      leituras := ses.leituras ++ r.2.filterMap HomeEffect.getDocuments? },
    { leituras := r.2.filterMap HomeEffect.collection? })

def signIn (user : AuthUser) (registration : ℕ) : Session × Requests :=
  perform ⟨⟨{},user,false,[]⟩,[],[],[],none⟩
    (MessageListViewController.viewDidLoad (some user) registration)

def openChat (ses : Session) (contato : Contact) (peer : String) : Session × Requests :=
  let chat := ChatScreen.push ses.user.uid contato peer
  ({ ses with chat := some chat },
    { leituras := (chat.perfil.map DocPath.segments).toList ++ chat.escuta.toList })

/-- The ids of the documents behind the rows of the selected tab. -/
def rowIds (ses : Session) : List String :=
  if ses.home.contactMode then ses.contatoIds else ses.conversaIds

/-- `didSelectItemAt`, with the e-mail typed into the alert it may show. -/
def select (ses : Session) (row : ℕ) (texto : String) : Option (Session × Requests) :=
  match ses.home.vc.didSelectItemAt row with
  | none => none
  | some (.pushChat contato) => some (ses.openChat contato (ses.rowIds[row]?.getD ""))
  | some .alertAddContact =>
    match ContatoController.addContact texto (ses.home.vc.emailUsuarioLogado.getD "")
        (ses.home.vc.idUsuarioLogado.getD "") with
    | .error _ => some (ses,{})
    | .ok consulta => some (ses,{ consultas := [consulta], leituras := [usuarios] })

/-- One event of a session, in which the client sees the store as `view`. -/
def step (view : Store) (registration : ℕ) (ses : Session) : ClientEvent → Option (Session × Requests)
  | .tab .contact =>
    some (perform { ses with contatoIds := [] }
      (ses.home.vc.typeScreenMessage .contact (some ses.user) registration))
  | .tab .conversation =>
    some (ses.perform (ses.home.vc.typeScreenMessage .conversation (some ses.user) registration))
  | .conversas j erro =>
    ses.home.active[j]?.map fun r =>
      let docs := resposta view r.collection erro
      perform { ses with conversaIds := (docs.map (List.map Prod.fst)).getD ses.conversaIds }
        (ses.home.vc.conversasSnapshot erro docs)
  | .contatos j erro =>
    ses.leituras[j]?.map fun c =>
      let docs := resposta view c erro
      perform { ses with
          leituras := ses.leituras.eraseIdx j
          contatoIds := ses.contatoIds ++ (docs.map (List.map Prod.fst)).getD [] }
        (ses.home.vc.contatosResultado docs)
  | .successDismissed => some (perform { ses with contatoIds := [] } ses.home.vc.successContato)
  | .select row texto => ses.select row texto
  | .dadosUsuarioLogado erro =>
    ses.chat.bind fun chat => chat.perfil.map fun p =>
      let data := if erro then none else view.lookup p
      ({ ses with chat := some (chat.dadosUsuarioLogado erro data) },{})
  | .mensagens erro =>
    ses.chat.bind fun chat => chat.escuta.map fun c =>
      let docs := (resposta view c erro).map fun docs => docs.orderByDescending "data"
      ({ ses with chat := some (chat.mensagensSnapshot docs) },{})
  | .actionPushMessage texto a b =>
    if a ≠ "" ∧ b ≠ "" then
      ses.chat.map fun chat => (ses,{ writes := chat.vc.actionPushMessage texto a b })
    else none
  | .back => some ({ ses with chat := none },{})
  | .downloadURL urlImagem =>
    some (ses,{ writes := [DetailUserViewController.salvarFoto (some ses.user.uid) urlImagem] })

end Session

/-- `referencias` holds the segments of every path a client has built. -/
structure App where
  accounts : List Account
  store : Store
  clock : ℕ
  inFlight : List Write
  consultas : List Consulta
  sessions : List Session
  registrations : ℕ
  referencias : List (List String)

inductive AppEvent
  | register (email nome : String) (resultado : Except ℤ String)
  | signIn (uid : String)
  | signOut (k : ℕ)
  /-- An event of session `k`, which sees the listed writes in flight. -/
  | client (k : ℕ) (e : ClientEvent) (visible : List ℕ)
  /-- The query of an `addContact` completes. -/
  | consulta (j : ℕ) (erro : Bool) (visible : List ℕ)
  | commit (i time : ℕ)
  | reject (i : ℕ)

def account? (accounts : List Account) (uid : String) : Option Account :=
  accounts.find? fun a => a.uid = uid

namespace App

def start : App := ⟨[],∅,0,[],[],[],0,[]⟩

/-- The store with the listed writes in flight already applied. -/
def view (s : App) (visible : List ℕ) : Store :=
  (visible.filterMap fun i => s.inFlight[i]?).foldl (Store.commit s.clock) s.store

/-- Adds what a handler asked for to the writes and queries in flight. -/
def request (s : App) (r : Requests) : App :=
  { s with
    inFlight := s.inFlight ++ r.writes
    consultas := s.consultas ++ r.consultas
    referencias := s.referencias ++ r.leituras ++ r.writes.map fun w => w.path.segments }

/-- Auth gives each new account a uid of its own and keeps canonical e-mails apart. -/
def Fresh (canon : String → String) (accounts : List Account) (a : Account) : Prop :=
  ∀ b ∈ accounts, b.uid ≠ a.uid ∧ canon b.email ≠ canon a.email

instance (canon : String → String) (accounts : List Account) (a : Account) :
    Decidable (Fresh canon accounts a) := inferInstanceAs (Decidable (∀ _ ∈ _, _))

def register (canon : String → String) (s : App) (email nome uid : String) : Option App :=
  if h : uid ≠ "" then
    let a : Account := ⟨uid,email,nome,h⟩
    if Fresh canon s.accounts a then
      match RegisterViewController.actionRegisterUser email nome (.ok uid) with
      | .ok w => some (request { s with accounts := s.accounts ++ [a] } { writes := [w] })
      | .error _ => none
    else none
  else none

def step (canon : String → String) (s : App) : AppEvent → Option App
  | .register email nome (.ok uid) => s.register canon email nome uid
  | .register _ _ (.error _) => some s
  | .signIn uid =>
    (account? s.accounts uid).map fun a =>
      let (ses,r) := Session.signIn ⟨a.uid,some (canon a.email)⟩ s.registrations
      request { s with sessions := s.sessions ++ [ses], registrations := s.registrations+1 } r
  | .signOut k =>
    if k < s.sessions.length then some { s with sessions := s.sessions.eraseIdx k } else none
  | .client k e visible =>
    s.sessions[k]?.bind fun ses =>
      (ses.step (s.view visible) s.registrations e).map fun (ses',r) =>
        request { s with
          sessions := s.sessions.set k ses'
          registrations := s.registrations+1 } r
  | .consulta j erro visible =>
    s.consultas[j]?.map fun q =>
      let s' := { s with consultas := s.consultas.eraseIdx j }
      let docs := (resposta (s.view visible) usuarios erro).map fun docs =>
        docs.whereField "email" q.email
      match ContatoController.consultaResultado q.idUsuario docs with
      | .ok writes => s'.request { writes := writes }
      | .error _ => s'
  | .commit i time =>
    s.inFlight[i]?.bind fun w =>
      if s.clock < time then
        some { s with
          store := s.store.commit time w
          clock := time
          inFlight := s.inFlight.eraseIdx i }
      else none
  | .reject i =>
    if i < s.inFlight.length then some { s with inFlight := s.inFlight.eraseIdx i } else none

end App

section
variable {canon : String → String} {accounts : List Account} {a b : Account} {uid : String}

theorem uid_of_account? (h : account? accounts uid = some a) : a.uid = uid := by
  simpa using List.find?_some h

theorem account?_grow (h : account? accounts uid = some a) (b : Account) :
    account? (accounts ++ [b]) uid = some a := by
  simp only [account?,List.find?_append] at h ⊢
  simp [h]

theorem account?_map_grow {β : Type} {f : Account → β} {x : β}
    (h : (account? accounts uid).map f = some x) (b : Account) :
    (account? (accounts ++ [b]) uid).map f = some x := by
  obtain ⟨a,ha,hx⟩ := Option.map_eq_some_iff.mp h
  simp [account?_grow ha b,hx]

theorem account?_new (h : App.Fresh canon accounts a) : account? (accounts ++ [a]) a.uid = some a := by
  have hnone : accounts.find? (fun b => decide (b.uid = a.uid)) = none := by
    rw [List.find?_eq_none]
    intro b hb
    simpa using (h b hb).1
  simp [account?,hnone]

end

/-- The app with the e-mail normalisation of Auth. -/
def app (canon : String → String) : Machine App AppEvent := ⟨App.start,App.step canon⟩

end MessageApp
