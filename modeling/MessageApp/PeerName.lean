import MessageApp.Integrity

/-! The name a conversation shows. The sender's own copy takes it from the row the chat was
opened from; the recipient's copy takes it from the profile of the sender, so it is right
whenever the profile load had delivered that profile before the send. -/
namespace MessageApp

def nomeDe (accounts : List Account) (uid : String) : Option String :=
  (account? accounts uid).map Account.nome

/-- The field holds the name the user registered with. -/
def Nomeia (accounts : List Account) (uid : String) (campo : Option String) : Prop :=
  ∃ nome, campo = some nome ∧ nomeDe accounts uid = some nome

theorem Nomeia.grow {accounts : List Account} {uid : String} {campo : Option String}
    (h : Nomeia accounts uid campo) (a : Account) : Nomeia (accounts ++ [a]) uid campo := by
  obtain ⟨nome,hcampo,hnome⟩ := h
  exact ⟨nome,hcampo,account?_map_grow hnome a⟩

def names : Laws where
  doc A
    | .usuario u, d => Nomeia A u (Dict.string? d "nome")
    | .contato _ c, d => Nomeia A c (Dict.string? d "nome")
    | .conversa _ y, d => Nomeia A y (Dict.string? d "nomeUsuario")
    | .mensagem _ _ _, _ => True
  update _
    | .usuario _, d => d "nome" = none
    | _, _ => False
  consulta _ _ := True
  usuario _ _ := True
  contato A _ id c := Nomeia A id c.nome
  conversa A _ id c := Nomeia A id c.nome
  chat A u chat := Nomeia A chat.peer chat.vc.nomeContato ∧
    (chat.carregado = true → Nomeia A u.uid chat.vc.nomeUsuarioLogado) ∧
    (chat.carregado = false → chat.vc.nomeUsuarioLogado.getD "" = "")
  referencia _ := True

/-- Sends wait until the profile load has delivered the sender's stored document. Only a user
registered without a name loses nothing by sending earlier. -/
def afterProfile : Guard where
  send A u chat := chat.carregado = true ∨ nomeDe A u.uid = some ""
  addContact _ _ _ := True

instance (A : List Account) (u : AuthUser) (chat : ChatScreen) :
    Decidable (afterProfile.send A u chat) := inferInstanceAs (Decidable (_ ∨ _))

instance (A : List Account) (u : AuthUser) (texto : String) :
    Decidable (afterProfile.addContact A u texto) := inferInstanceAs (Decidable True)

namespace names

theorem closed (canon : String → String) : Laws.Closed (.inf .top integrity) names canon afterProfile where
  resolve A p d now h := by
    cases p with
    | mensagem x y a => trivial
    | _ => simpa [names] using h
  merge A p old new now h hupdate := by
    cases p with
    | usuario u =>
      have hnome : new "nome" = none := hupdate
      simpa only [names,Dict.string?_merge_of_none now hnome] using h
    | _ => exact hupdate.elim
  grow_doc A a p d _ h := by
    cases p with
    | mensagem x y b => trivial
    | _ => exact Nomeia.grow h a
  grow_update A a p d _ h := by
    cases p <;> exact h
  grow_consulta _ _ _ _ _ := trivial
  grow_usuario _ _ _ _ _ := trivial
  grow_contato A a u id c _ h := Nomeia.grow h a
  grow_conversa A a u id c _ h := Nomeia.grow h a
  grow_chat A a u chat _ h := ⟨h.1.grow a,fun hc => (h.2.1 hc).grow a,h.2.2⟩
  register A a ha := ⟨a.nome,rfl,by simp [nomeDe,account?_new ha]⟩
  signIn _ _ _ := trivial
  contato A u id d _ hd := hd.2
  conversa A u id d _ hd := hd.2
  push_contato A u id c _ hc := by
    rw [ChatScreen.push_eq]
    exact ⟨hc.2,by simp,fun _ => rfl⟩
  push_conversa A u id dados _ hc := by
    obtain ⟨nome,hnome,hde⟩ := hc.2
    rw [ChatScreen.push_eq]
    exact ⟨⟨nome,by simp [hnome],hde⟩,by simp,fun _ => rfl⟩
  dadosUsuarioLogado A u chat erro data hc hd _ := by
    have hchat : names.chat A u chat := hc.2
    cases erro with
    | true => exact hchat
    | false =>
      cases data with
      | none => exact ⟨hchat.1,by simp [ChatScreen.dadosUsuarioLogado],fun _ => rfl⟩
      | some d =>
        obtain ⟨nome,hnome,hde⟩ := (hd d rfl).2
        exact ⟨hchat.1,fun _ => ⟨nome,by simp [ChatScreen.dadosUsuarioLogado,
          ChatViewController.dadosUsuarioLogado,Contact.ofDictionary,hnome],hde⟩,
          by simp [ChatScreen.dadosUsuarioLogado]⟩
  mensagens A u chat docs hc _ := by
    cases docs <;> exact hc.2
  send A u chat texto a b hu hc hg _ _ := by
    obtain ⟨hlogado,hcontato,_,_⟩ := hc.1.2
    obtain ⟨⟨nome,hnome,hde⟩,hcarregado,hvazio⟩ := hc.2
    have hmeu : nomeDe A u.uid = some (chat.vc.nomeUsuarioLogado.getD "") := by
      cases hload : chat.carregado with
      | true =>
        obtain ⟨meu,hmeu,hdemim⟩ := hcarregado hload
        simpa [hmeu] using hdemim
      | false => simpa [afterProfile,hvazio hload,hload] using hg
    exact Laws.write_actionPushMessage hlogado hcontato trivial trivial ⟨nome,by simp [hnome],hde⟩
      ⟨_,by simp,hmeu⟩
  downloadURL A u url _ := ⟨.usuario u.uid,rfl,rfl⟩
  addContact _ _ _ _ _ _ _ := trivial
  salvarContato A q id d _ hd _ := Laws.write_salvarContato hd.1.2.2 hd.2
  ref_usuarios := trivial
  ref_contatos _ _ _ := trivial
  ref_conversas _ _ _ := trivial
  ref_perfil _ _ _ := trivial
  ref_escuta _ _ _ _ _ _ _ := trivial
  ref_write _ _ _ := trivial

end names

/-- Every conversation shows the name its peer registered with, which is the one stored. -/
def PeersNamed (s : App) : Prop :=
  ∀ x y d, s.store.lookup ⟨ultimasConversas x,y⟩ = some d →
    ∃ nome, Dict.string? d "nomeUsuario" = some nome ∧ nomeDe s.accounts y = some nome ∧
      ∀ du, s.store.lookup ⟨usuarios,y⟩ = some du → Dict.string? du "nome" = some nome

/-- In a run whose sends all come after the profile of their sender has been delivered to the
chat screen (or whose sender has no name), every conversation shows its peer's real name in every state. -/
theorem peers_named {canon : String → String} {es : List AppEvent} {s : App}
    (run : (app canon).exec App.start es = some s)
    (hg : (app canon).Along (Laws.Guarded afterProfile) App.start es) :
    (app canon).Throughout PeersNamed App.start es := by
  refine ((integrity.closed canon).inf (names.closed canon)).throughout run hg ?_
  intro t ht x y d hd
  obtain ⟨nome,hnome,hde⟩ := (ht.store (.conversa x y) d hd).2
  refine ⟨nome,hnome,hde,fun du hdu => ?_⟩
  obtain ⟨nome',hnome',hde'⟩ := (ht.store (.usuario y) du hdu).2
  rw [hnome',← hde',hde]

/-- The run of `chatWithBia` up to the open chat, without the arrival of the profile. -/
def beforeProfile : List AppEvent := chatWithBia.dropLast

/-- A message sent before the profile has arrived shows its recipient no name. -/
theorem peers_named_early_send :
    ∃ s, (app id).exec App.start (beforeProfile ++ firstMessage) = some s ∧
      (s.store.lookup ⟨ultimasConversas "u2","u1"⟩).bind (fun d => Dict.string? d "nomeUsuario") =
        some "" ∧
      (s.store.lookup ⟨usuarios,"u1"⟩).bind (fun d => Dict.string? d "nome") = some "Ana" :=
  ⟨_,rfl,by decide,by decide⟩

theorem peers_named_bia :
    (app id).Throughout PeersNamed App.start (chatWithBia ++ firstMessage) := by
  refine @peers_named id (chatWithBia ++ firstMessage) _ rfl ?_
  exact Machine.along_of_check (by decide +kernel)

end MessageApp
