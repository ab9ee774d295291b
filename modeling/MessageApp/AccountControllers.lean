import MessageApp.Firestore

/-! The operations that write below `usuarios`: registration, adding a contact, and
recording a profile photo. -/
namespace MessageApp

structure AlertStateError where
  titulo : String
  message : String
  deriving DecidableEq

namespace RegisterViewController

def mensagemErro (erroTexto : ℤ) : String :=
  if erroTexto = 17008 then "E-mail invalido, Digite um E-mail válido!!"
  else if erroTexto = 17026 then "Senha precisa ter no mínimo 6 caracteres, com letras e numeros!!"
  else if erroTexto = 17007 then
    "Esse e-mail já está sendo usado por outra pessoa, digite outro e-mail!!"
  else "Dados digitados estão invalidos"

def dadosUsuario (nome email idUsuario : String) : Dict :=
  Dict.ofList [("nome",.string nome),("email",.string email),("id",.string idUsuario)]

/-- The completion of `createUser` in `actionRegisterUser`: a write, or the text of an error,
which nobody sees because `configAlert` is never called and `alert` stays nil. -/
def actionRegisterUser (email nome : String) (resultado : Except ℤ String) : Except String Write :=
  match resultado with
  | .ok idUsuario => .ok (.setData ⟨usuarios,idUsuario⟩ (dadosUsuario nome email idUsuario))
  | .error erroTexto => .error (mensagemErro erroTexto)

end RegisterViewController

structure Consulta where
  email : String
  idUsuario : String
  deriving DecidableEq

namespace ContatoController

def addContact (email emailUsuarioLogado idUsuario : String) : Except AlertStateError Consulta :=
  -- code points are compared; `==` also identifies two spellings of one accented letter
  if email = emailUsuarioLogado then
    .error ⟨"Você está adicionando seu proprio email","Adicione um email diferente"⟩
  else .ok ⟨email,idUsuario⟩

/-- The stored contact is the whole document found, under the id it decodes to. Firestore refuses
the empty id; every user document the app stores has one. -/
def salvarContato (dadosContato : Dict) (idUsuario : String) : Write :=
  .setData ⟨contatos idUsuario,(Contact.ofDictionary (some dadosContato)).id.getD ""⟩ dadosContato

/-- The completion of the query; without a snapshot it does nothing. -/
def consultaResultado (idUsuario : String) (snapshotResultado : Option Snapshot) :
    Except AlertStateError (List Write) :=
  match snapshotResultado with
  | none => .ok []
  | some docs =>
    if docs.length = 0 then
      .error ⟨"Usuario não cadastrado","Verifique o e-mail e tente novamente."⟩
    else .ok (docs.map fun d => salvarContato d.2 idUsuario)

end ContatoController

namespace DetailUserViewController

def salvarFoto (idUsuario : Option String) (urlImagem : String) : Write :=
  .updateData ⟨usuarios,idUsuario.getD ""⟩ (Dict.ofList [("urlImagem",.string urlImagem)])

end DetailUserViewController
end MessageApp
