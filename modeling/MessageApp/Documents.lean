import Mathlib.Logic.Function.Basic
import Mathlib.Tactic

/-! Firestore dictionaries and the model classes decoded from them. A failed
`as? String` cast and a missing key both decode to `none`. -/
namespace MessageApp

/-- The values the app stores. `serverTimestamp` is the placeholder the server
replaces by its commit time. -/
inductive Value
  | string (s : String)
  | timestamp (t : ℕ)
  | serverTimestamp
  deriving DecidableEq

namespace Value

def asString : Value → Option String
  | .string s => some s
  | _ => none

def asTimestamp : Value → Option ℕ
  | .timestamp t => some t
  | _ => none

def resolve (now : ℕ) : Value → Value
  | .serverTimestamp => .timestamp now
  | v => v

@[simp] theorem asString_resolve (now : ℕ) (v : Value) : (v.resolve now).asString = v.asString := by
  cases v <;> rfl

end Value

/-- `Dictionary<String, Any>`. -/
abbrev Dict := String → Option Value

namespace Dict

def empty : Dict := fun _ => none

/-- `d[k] = v`; assigning `nil` removes the key. -/
def set (d : Dict) (k : String) (v : Option Value) : Dict := Function.update d k v

def ofList (fields : List (String × Value)) : Dict :=
  fields.foldl (fun d f => set d f.1 (some f.2)) empty

/-- `d[k] as? String`. -/
def string? (d : Dict) (k : String) : Option String := (d k).bind Value.asString

def resolve (now : ℕ) (d : Dict) : Dict := fun k => (d k).map (Value.resolve now)

/-- The fields of an update replace those of the stored document. -/
def merge (old new : Dict) : Dict := fun k => (new k).or (old k)

@[simp] theorem string?_resolve (now : ℕ) (d : Dict) (k : String) :
    string? (resolve now d) k = string? d k := by
  simp only [string?,resolve]
  cases d k <;> simp

/-- An update leaves the fields it does not name. -/
theorem string?_merge_of_none {old new : Dict} {k : String} (now : ℕ) (h : new k = none) :
    string? (merge old (resolve now new)) k = string? old k := by
  simp [string?,merge,resolve,h]

@[simp] theorem resolve_empty (now : ℕ) : resolve now empty = empty := rfl

@[simp] theorem resolve_set (now : ℕ) (d : Dict) (k : String) (v : Option Value) :
    resolve now (set d k v) = set (resolve now d) k (v.map (Value.resolve now)) := by
  funext j
  by_cases h : j = k
  · subst h
    simp [resolve,set]
  · simp [resolve,set,h]

end Dict

structure Contact where
  id : Option String
  nome : Option String
  urlImage : Option String
  deriving DecidableEq

/-- `Contact.init(dicionario:)`. -/
def Contact.ofDictionary (dicionario : Option Dict) : Contact where
  id := dicionario.bind fun d => Dict.string? d "id"
  nome := dicionario.bind fun d => Dict.string? d "nome"
  urlImage := dicionario.bind fun d => Dict.string? d "urlImagem"

/-- `Contact.init(id:nome:urlImagem:)`. The parameter `urlImagem` is not read: the last
statement of the source is `self.urlImage = urlImage`, the property on both sides. -/
def Contact.ofFields (id nome _urlImagem : Option String) : Contact :=
  let contato := Contact.ofDictionary none
  let contato := { contato with id := id }
  let contato := { contato with nome := nome }
  { contato with urlImage := contato.urlImage }

@[simp] theorem Contact.ofFields_eq (id nome urlImagem : Option String) :
    Contact.ofFields id nome urlImagem = ⟨id,nome,none⟩ := rfl

structure Message where
  texto : Option String
  idUsuario : Option String
  urlImagem : Option String
  deriving DecidableEq

/-- `Message.init(dicionario:)`. -/
def Message.ofDictionary (dicionario : Dict) : Message where
  texto := Dict.string? dicionario "texto"
  idUsuario := Dict.string? dicionario "idUsuario"
  urlImagem := Dict.string? dicionario "urlImagem"

structure Conversa where
  nome : Option String
  ultimaMensagem : Option String
  urlFotoUsuario : Option String
  idDestinatario : Option String
  deriving DecidableEq

/-- `Conversa.init(dicionario:)`. -/
def Conversa.ofDictionary (dicionario : Dict) : Conversa where
  nome := Dict.string? dicionario "nomeUsuario"
  ultimaMensagem := Dict.string? dicionario "ultimaMensagem"
  urlFotoUsuario := Dict.string? dicionario "urlFotoUsuario"
  idDestinatario := Dict.string? dicionario "idDestinatario"

structure User where
  nome : Option String
  email : Option String
  urlFotoUsuario : Option String
  deriving DecidableEq

end MessageApp
