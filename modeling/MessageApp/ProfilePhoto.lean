import MessageApp.AccountControllers
import MessageApp.Runs

/-! The profile photo. A pick uploads an image, asks for the download URL of what is stored
and records the URL that comes back; the chains of several picks overlap. -/
namespace MessageApp

namespace DetailUserViewController

/-- The upload of a pick: where to and what. `imagemUpload` is the JPEG data of the image. -/
def imagePickerController {Data : Type} (imagemUpload : Option Data)
    (usuarioLogadoUID : Option String) : Option (List String × Data) :=
  match imagemUpload, usuarioLogadoUID with
  | some imagemUpload, some usuarioLogadoUID =>
    some (["imagens","perfil",usuarioLogadoUID ++ ".jpeg"],imagemUpload)
  | _, _ => none

/-- The completion of `putData` asks for the URL, or shows this title and message. -/
def putDataResultado (erro : Option ℤ) : Except (String × String) Unit :=
  if erro = none then .ok ()
  else .error ("Erro","Erro ao fazer Upload da Imagem, tente novamente")

/-- The completion of `downloadURL` records the URL if there is one. -/
def downloadURLResultado (idUsuario : Option String) (url : Option String) : Option Write :=
  url.map (salvarFoto idUsuario)

end DetailUserViewController

/-- The account of the user on whose screen the picks are made. Version `v` is what the `v`-th
upload stored, version 0 what was there before, perhaps nothing; the user's document names
the URL of version 0. -/
structure Conta where
  idUsuario : String
  url : ℕ → Option String
  url_injective : Function.Injective url
  url_stored : ∀ v, (url (v+1)).isSome
  dados : Dict
  dados_url : Dict.string? dados "urlImagem" = url 0

/-- `respostas` holds the answers under way, each with the version its URL is of. `ultima` is
the version of the URL that arrived last, which the app does not keep. -/
structure FotoPerfil (Data : Type) where
  uploads : List (List String × Data)
  versoes : List (List String × Data)
  concluidos : ℕ
  pedidos : ℕ
  respostas : List ℕ
  updates : List Write
  store : Store
  alertas : List (String × String)
  ultima : ℕ

inductive FotoPerfilEvent (Data : Type)
  | pick (imagemUpload : Option Data)
  | stored (i : ℕ)
  | uploadFailed (i : ℕ) (erro : ℤ)
  | uploaded
  | served
  | answered (i : ℕ) (ok : Bool)
  | commit

namespace FotoPerfil

variable {Data : Type}

def start (c : Conta) : FotoPerfil Data :=
  ⟨[],[],0,0,[],[],(∅ : Store).insert ⟨usuarios,c.idUsuario⟩ c.dados,[],0⟩

def step (c : Conta) (s : FotoPerfil Data) : FotoPerfilEvent Data → Option (FotoPerfil Data)
  | .pick imagemUpload => some { s with
      uploads := s.uploads ++
        (DetailUserViewController.imagePickerController imagemUpload (some c.idUsuario)).toList }
  | .stored i => s.uploads[i]?.map fun u =>
    { s with
      uploads := s.uploads.eraseIdx i, versoes := s.versoes ++ [u], concluidos := s.concluidos+1 }
  | .uploadFailed i erro =>
    if i < s.uploads.length then
      match DetailUserViewController.putDataResultado (some erro) with
      | .ok _ => some { s with uploads := s.uploads.eraseIdx i, pedidos := s.pedidos+1 }
      | .error alerta =>
        some { s with uploads := s.uploads.eraseIdx i, alertas := s.alertas ++ [alerta] }
    else none
  | .uploaded =>
    if 0 < s.concluidos then
      match DetailUserViewController.putDataResultado none with
      | .ok _ => some { s with concluidos := s.concluidos-1, pedidos := s.pedidos+1 }
      | .error alerta =>
        some { s with concluidos := s.concluidos-1, alertas := s.alertas ++ [alerta] }
    else none
  | .served =>
    if 0 < s.pedidos then
      some { s with pedidos := s.pedidos-1, respostas := s.respostas ++ [s.versoes.length] }
    else none
  | .answered i ok => s.respostas[i]?.map fun v =>
    match DetailUserViewController.downloadURLResultado (some c.idUsuario)
        (if ok then c.url v else none) with
    | none => { s with respostas := s.respostas.eraseIdx i }
    | some w =>
      { s with respostas := s.respostas.eraseIdx i, updates := s.updates ++ [w], ultima := v }
  | .commit =>
    match s.updates with
    | [] => none
    | w::updates => some { s with updates := updates, store := s.store.commit 0 w }

def urlImagem (c : Conta) (s : FotoPerfil Data) : Option String :=
  (s.store.lookup ⟨usuarios,c.idUsuario⟩).bind fun d => Dict.string? d "urlImagem"

/-- Answers arrive in the order they were served, and with a URL. -/
def InOrder (_ : FotoPerfil Data) : FotoPerfilEvent Data → Prop
  | .answered i ok => i = 0 ∧ ok = true
  | _ => True

instance (s : FotoPerfil Data) (e : FotoPerfilEvent Data) : Decidable (InOrder s e) := by
  cases e <;> unfold InOrder <;> infer_instance

/-- The URLs the document holds and is to hold, the last of them the one that arrived last. -/
structure Recorded (c : Conta) (s : FotoPerfil Data) (urls : List String) : Prop where
  document : ∃ d, s.store.lookup ⟨usuarios,c.idUsuario⟩ = some d
  updates : s.updates = urls.map (DetailUserViewController.salvarFoto (some c.idUsuario))
  last : (s.urlImagem c::urls.map some).getLast? = some (c.url s.ultima)

/-- With answers in order the URL of the newest version is either still to be asked for or the
last of those that have arrived or are under way. -/
structure Fresh (s : FotoPerfil Data) : Prop where
  positive : 0 < s.concluidos+s.pedidos → s.versoes ≠ []
  respostas : ∀ v ∈ s.respostas, 0 < v
  newest : 0 < s.concluidos+s.pedidos ∨
    (s.ultima::s.respostas).getLast? = some s.versoes.length

end FotoPerfil

namespace FotoPerfil

variable {Data : Type} {c : Conta} {s t : FotoPerfil Data}

theorem urlImagem_eq {d : Dict} (h : s.store.lookup ⟨usuarios,c.idUsuario⟩ = some d) :
    s.urlImagem c = Dict.string? d "urlImagem" := by
  rw [urlImagem,h,Option.bind_some]

theorem lookup_commit_salvarFoto {store : Store} {d : Dict} (url : String)
    (h : store.lookup ⟨usuarios,c.idUsuario⟩ = some d) :
    ∃ d', (store.commit 0 (DetailUserViewController.salvarFoto (some c.idUsuario) url)).lookup
        ⟨usuarios,c.idUsuario⟩ = some d' ∧ Dict.string? d' "urlImagem" = some url := by
  refine ⟨Dict.merge d (Dict.resolve 0 (Dict.ofList [("urlImagem",.string url)])),?_,?_⟩
  · simp [Store.commit,DetailUserViewController.salvarFoto,h,AList.lookup_insert]
  · simp [Dict.string?,Dict.merge,Dict.ofList,Dict.set,Dict.resolve,Value.resolve,Value.asString]

theorem Recorded.congr {urls : List String} (h : s.Recorded c urls) (hstore : t.store = s.store)
    (hupdates : t.updates = s.updates) (hultima : t.ultima = s.ultima) : t.Recorded c urls where
  document := hstore ▸ h.document
  updates := hupdates.trans h.updates
  last := by
    rw [hultima,urlImagem,hstore]
    exact h.last

theorem Recorded.step {e : FotoPerfilEvent Data} (h : ∃ urls, s.Recorded c urls)
    (hstep : s.step c e = some t) : ∃ urls, t.Recorded c urls := by
  obtain ⟨urls,h⟩ := h
  cases e with
  | pick imagemUpload =>
    obtain rfl := Option.some.inj hstep
    exact ⟨urls,h.congr rfl rfl rfl⟩
  | stored i =>
    obtain ⟨u,_,rfl⟩ := Option.map_eq_some_iff.mp hstep
    exact ⟨urls,h.congr rfl rfl rfl⟩
  | uploadFailed i erro =>
    obtain ⟨_,rfl⟩ := guarded hstep
    exact ⟨urls,h.congr rfl rfl rfl⟩
  | uploaded =>
    obtain ⟨_,rfl⟩ := guarded hstep
    exact ⟨urls,h.congr rfl rfl rfl⟩
  | served =>
    obtain ⟨_,rfl⟩ := guarded hstep
    exact ⟨urls,h.congr rfl rfl rfl⟩
  | answered i ok =>
    obtain ⟨v,_,rfl⟩ := Option.map_eq_some_iff.mp hstep
    cases hurl : (if ok then c.url v else none) with
    | none => exact ⟨urls,h.congr rfl rfl rfl⟩
    | some url =>
      refine ⟨urls ++ [url],h.document,?_,?_⟩
      · show s.updates ++ _ = _
        rw [h.updates,List.map_append]
        rfl
      · have hv : c.url v = some url := by
          cases ok
          · simp at hurl
          · exact hurl
        show (s.urlImagem c::(urls ++ [url]).map some).getLast? = some (c.url v)
        rw [List.map_append,← List.cons_append,hv]
        exact List.getLast?_concat
  | commit =>
    cases urls with
    | nil =>
      have hempty : s.updates = [] := h.updates
      simp [FotoPerfil.step,hempty] at hstep
    | cons url urls =>
      have hupdates : s.updates = DetailUserViewController.salvarFoto (some c.idUsuario) url::
        urls.map (DetailUserViewController.salvarFoto (some c.idUsuario)) := h.updates
      simp only [FotoPerfil.step,hupdates] at hstep
      obtain rfl := Option.some.inj hstep
      obtain ⟨d,hd⟩ := h.document
      obtain ⟨d',hd',hurl⟩ := lookup_commit_salvarFoto url hd
      refine ⟨urls,⟨d',hd'⟩,rfl,?_⟩
      have hlast : (some url::urls.map some).getLast? = some (c.url s.ultima) := h.last
      rwa [urlImagem_eq hd',hurl]

theorem Fresh.step {e : FotoPerfilEvent Data} (h : s.Fresh) (hord : s.InOrder e)
    (hstep : s.step c e = some t) : t.Fresh := by
  cases e with
  | pick imagemUpload =>
    obtain rfl := Option.some.inj hstep
    exact ⟨h.positive,h.respostas,h.newest⟩
  | stored i =>
    obtain ⟨u,_,rfl⟩ := Option.map_eq_some_iff.mp hstep
    exact ⟨fun _ => List.append_ne_nil_of_right_ne_nil _ (List.cons_ne_nil u []),h.respostas,
      .inl (by show 0 < s.concluidos+1+s.pedidos; omega)⟩
  | uploadFailed i erro =>
    obtain ⟨_,rfl⟩ := guarded hstep
    exact ⟨h.positive,h.respostas,h.newest⟩
  | uploaded =>
    obtain ⟨_,rfl⟩ := guarded hstep
    exact ⟨fun _ => h.positive (by omega),h.respostas,
      .inl (by show 0 < s.concluidos-1+(s.pedidos+1); omega)⟩
  | served =>
    obtain ⟨hpedidos,rfl⟩ := guarded hstep
    have hversoes : s.versoes ≠ [] := h.positive (by omega)
    refine ⟨fun _ => hversoes,fun v hv => ?_,.inr ?_⟩
    · rcases List.mem_append.mp hv with hv | hv
      · exact h.respostas v hv
      · rw [List.mem_singleton.mp hv]
        exact List.length_pos_iff.mpr hversoes
    · show (s.ultima::(s.respostas ++ [s.versoes.length])).getLast? = some s.versoes.length
      rw [← List.cons_append]
      exact List.getLast?_concat
  | answered i ok =>
    obtain ⟨rfl,rfl⟩ := hord
    obtain ⟨v,hv,rfl⟩ := Option.map_eq_some_iff.mp hstep
    obtain ⟨rest,hrespostas⟩ : ∃ rest, s.respostas = v::rest := by
      cases hr : s.respostas with
      | nil => simp [hr] at hv
      | cons w rest => exact ⟨rest,by simpa [hr] using hv⟩
    have hpos : 0 < v := h.respostas v (hrespostas ▸ List.mem_cons_self)
    obtain ⟨url,hurl⟩ := Option.isSome_iff_exists.mp (c.url_stored (v-1))
    rw [Nat.sub_add_cancel hpos] at hurl
    have hnewest := h.newest
    rw [hrespostas] at hnewest
    simp only [if_true,hurl,hrespostas,DetailUserViewController.downloadURLResultado,Option.map_some,
      List.eraseIdx_cons_zero]
    refine ⟨h.positive,fun w hw => ?_,?_⟩
    · exact h.respostas w (hrespostas ▸ List.mem_cons_of_mem v hw)
    · exact hnewest
  | commit =>
    simp only [FotoPerfil.step] at hstep
    split at hstep
    · simp at hstep
    · obtain rfl := Option.some.inj hstep
      exact ⟨h.positive,h.respostas,h.newest⟩

end FotoPerfil

end MessageApp
