import MessageApp.StoreLaws

/-! A law that every handler keeps is kept by every session and by every run of the app. -/
namespace MessageApp

def HomeEffect.On (uid : String) : HomeEffect → Prop
  | .getDocuments c => c = contatos uid
  | .addSnapshotListener _ c => c = ultimasConversas uid
  | _ => True

theorem HomeEffect.foldl_applyTo {uid : String} {effects : List HomeEffect}
    (he : ∀ e ∈ effects, e.On uid) {active : List Registration}
    (ha : ∀ r ∈ active, r.collection = ultimasConversas uid) :
    ∀ r ∈ effects.foldl HomeEffect.applyTo active, r.collection = ultimasConversas uid := by
  induction effects generalizing active with
  | nil => exact ha
  | cons e effects ih =>
    refine ih (fun f hf => he f (by simp [hf])) fun r hr => ?_
    have hon := he e (by simp)
    cases e with
    | addSnapshotListener i c =>
      rcases List.mem_append.mp hr with hr | hr
      · exact ha r hr
      · obtain rfl := List.mem_singleton.mp hr
        exact hon
    | remove handle => exact ha r ((HomeScreen.applyTo_remove_sublist active handle).subset hr)
    | getDocuments c => exact ha r hr
    | reloadCollection => exact ha r hr

theorem forall₂_getElem? {α β : Type} {R : α → β → Prop} {l₁ : List α} {l₂ : List β}
    (h : List.Forall₂ R l₁ l₂) {i : ℕ} {b : β} (hb : l₂[i]? = some b) :
    ∃ a, l₁[i]? = some a ∧ R a b := by
  induction h generalizing i with
  | nil => simp at hb
  | cons hab _ ih =>
    cases i with
    | zero =>
      obtain rfl : _ = b := by simpa using hb
      exact ⟨_,rfl,hab⟩
    | succ i => simpa using ih (by simpa using hb)

namespace Laws

variable {K L : Laws} {canon : String → String} {g : Guard} {A : List Account}

/-- Rows decoded from lawful documents are lawful, each with the id of its document. -/
theorem forall₂_decode {γ : Type} {R : String → γ → Prop} (decode : Dict → γ) {docs : Snapshot}
    (h : ∀ id d, (id,d) ∈ docs → R id (decode d)) :
    List.Forall₂ R (docs.map Prod.fst) (docs.map fun d => decode d.2) := by
  rw [List.forall₂_map_left_iff,List.forall₂_map_right_iff,List.forall₂_same]
  exact fun d hd => h d.1 d.2 hd

/-- A handler of the home screen keeps a session lawful if it asks only for collections of
the user and keeps the rows lawful. -/
theorem Closed.perform (h : Closed top L canon g) {ses ses' : MessageApp.Session}
    {r : MessageApp.Requests} {leituras : List (List String)} {contatoIds conversaIds : List String}
    {vc : MessageListViewController} {effects : List HomeEffect} (hs : L.Session A ses)
    (hperform : MessageApp.Session.perform ⟨ses.home,leituras,contatoIds,conversaIds,ses.chat⟩
      (vc,effects) = (ses',r))
    (hleituras : ∀ c ∈ leituras, c ∈ ses.leituras)
    (hlogado : vc.idUsuarioLogado = ses.home.vc.idUsuarioLogado)
    (hemail : vc.emailUsuarioLogado = ses.home.vc.emailUsuarioLogado)
    (heffects : ∀ e ∈ effects, e.On ses.user.uid)
    (hcontatos : List.Forall₂ (L.contato A ses.user) contatoIds vc.listContact)
    (hconversas : List.Forall₂ (L.conversa A ses.user) conversaIds vc.listaConversas) :
    L.Session A ses' ∧ L.Requests A r := by
  obtain ⟨rfl,rfl⟩ := Prod.mk.inj hperform
  have hon : ∀ c ∈ effects.filterMap HomeEffect.getDocuments?, c = contatos ses.user.uid := by
    intro c hc
    obtain ⟨e,he,hec⟩ := List.mem_filterMap.mp hc
    cases e <;> simp only [HomeEffect.getDocuments?,Option.some.injEq,reduceCtorEq] at hec
    exact hec ▸ heffects _ he
  have href : ∀ c ∈ effects.filterMap HomeEffect.collection?, L.referencia c := by
    intro c hc
    obtain ⟨e,he,hec⟩ := List.mem_filterMap.mp hc
    have hone := heffects e he
    cases e <;> simp only [HomeEffect.collection?,Option.some.injEq,reduceCtorEq] at hec
    · have hcontatos : c = MessageApp.contatos ses.user.uid := hec ▸ hone
      exact hcontatos ▸ h.ref_contatos A ses.user ⟨trivial,hs.usuario⟩
    · have hconversas : c = ultimasConversas ses.user.uid := hec ▸ hone
      exact hconversas ▸ h.ref_conversas A ses.user ⟨trivial,hs.usuario⟩
  refine ⟨?_,⟨by simp,by simp,href⟩⟩
  exact {
    usuario := hs.usuario
    logado := hlogado.trans hs.logado
    email := hemail.trans hs.email
    leituras := fun c hc => (List.mem_append.mp hc).elim (fun hc => hs.leituras c (hleituras c hc)) (hon c)
    escutas := HomeEffect.foldl_applyTo heffects hs.escutas
    contatos := hcontatos
    conversas := hconversas
    chat := hs.chat
    perfil := hs.perfil }

def Asks (g : Guard) (A : List Account) (ses : MessageApp.Session) : ClientEvent → Prop
  | .actionPushMessage _ _ _ => ∀ chat ∈ ses.chat, g.send A ses.user chat
  | .select row texto => ses.home.vc.didSelectItemAt row = some .alertAddContact →
      g.addContact A ses.user texto
  | _ => True

instance [∀ A u chat, Decidable (g.send A u chat)] [∀ A u texto, Decidable (g.addContact A u texto)]
    (ses : MessageApp.Session) (e : ClientEvent) : Decidable (Asks g A ses e) := by
  cases e <;> unfold Asks <;> infer_instance

theorem Requests.none (A : List Account) : L.Requests A {} := ⟨by simp,by simp,by simp⟩

theorem Closed.openChat (h : Closed top L canon g) {ses : MessageApp.Session}
    (hs : L.Session A ses) {contato : Contact} {id : String}
    (hchat : L.chat A ses.user (ChatScreen.push ses.user.uid contato id)) :
    L.Session A (ses.openChat contato id).1 ∧ L.Requests A (ses.openChat contato id).2 := by
  have hu := hs.usuario
  have hperfil : (ChatScreen.push ses.user.uid contato id).perfil = some ⟨usuarios,ses.user.uid⟩ := rfl
  refine ⟨{ hs with chat := ?_, perfil := ?_ },⟨by simp [MessageApp.Session.openChat],
    by simp [MessageApp.Session.openChat],?_⟩⟩
  · intro chat hc
    obtain rfl := Option.some.inj hc
    exact hchat
  · intro chat hc p hp
    obtain rfl := Option.some.inj hc
    exact (Option.some.inj (hperfil.symm.trans hp)).symm
  · intro c hc
    rcases List.mem_append.mp hc with hc | hc
    · obtain rfl : c = DocPath.segments ⟨usuarios,ses.user.uid⟩ := by simpa [hperfil] using hc
      exact h.ref_perfil A ses.user ⟨trivial,hu⟩
    · exact h.ref_escuta A ses.user _ ⟨trivial,hu⟩ ⟨trivial,hchat⟩ c (by simpa using hc)

theorem Closed.select (h : Closed top L canon g) {ses ses' : MessageApp.Session}
    {r : MessageApp.Requests} (hs : L.Session A ses) {row : ℕ} {texto : String}
    (hg : Asks g A ses (.select row texto)) (hstep : ses.select row texto = some (ses',r)) :
    L.Session A ses' ∧ L.Requests A r := by
  have hu := hs.usuario
  unfold MessageApp.Session.select at hstep
  split at hstep
  · simp at hstep
  · rename_i contato hselect
    obtain ⟨rfl,rfl⟩ := Prod.mk.inj (Option.some.inj hstep)
    refine h.openChat hs ?_
    rw [MessageListViewController.didSelectItemAt_eq] at hselect
    obtain ⟨item,hitem,hselected⟩ := Option.map_eq_some_iff.mp hselect
    unfold MessageListViewController.cellForItemAt at hitem
    split_ifs at hitem with hmode hlast
    · obtain rfl := Option.some.inj hitem
      simp [HomeItem.selected] at hselected
    · obtain ⟨c,hc,rfl⟩ := Option.map_eq_some_iff.mp hitem
      obtain ⟨id,hid,hrow⟩ := forall₂_getElem? hs.contatos hc
      obtain rfl := HomeAction.pushChat.inj hselected
      have hids : ses.rowIds[row]? = some id := by
        simp [MessageApp.Session.rowIds,HomeScreen.contactMode,hmode,hid]
      rw [hids]
      exact h.push_contato A ses.user id c ⟨trivial,hu⟩ ⟨trivial,hrow⟩
    · obtain ⟨c,hc,rfl⟩ := Option.map_eq_some_iff.mp hitem
      obtain ⟨id,hid,hrow⟩ := forall₂_getElem? hs.conversas hc
      obtain rfl := HomeAction.pushChat.inj hselected
      have hids : ses.rowIds[row]? = some id := by
        simp [MessageApp.Session.rowIds,HomeScreen.contactMode,hmode,hid]
      rw [hids]
      exact h.push_conversa A ses.user id c ⟨trivial,hu⟩ ⟨trivial,hrow⟩
  · rename_i hselect
    split at hstep
    · obtain ⟨rfl,rfl⟩ := Prod.mk.inj (Option.some.inj hstep)
      exact ⟨hs,Requests.none A⟩
    · rename_i q hq
      obtain ⟨rfl,rfl⟩ := Prod.mk.inj (Option.some.inj hstep)
      rw [hs.email,hs.logado] at hq
      have hconsulta := h.addContact A ses.user texto q ⟨trivial,hu⟩ (hg hselect) hq
      exact ⟨hs,⟨by simp,by simpa using hconsulta,by simpa using h.ref_usuarios⟩⟩

/-- Every event of a session keeps it lawful and asks only for what is lawful. -/
theorem Closed.client (h : Closed top L canon g) {view : MessageApp.Store} {registration : ℕ}
    {ses ses' : MessageApp.Session} {e : ClientEvent} {r : MessageApp.Requests}
    (hview : L.Store A view) (hs : L.Session A ses) (hg : Asks g A ses e)
    (hstep : ses.step view registration e = some (ses',r)) :
    L.Session A ses' ∧ L.Requests A r := by
  have hu := hs.usuario
  have hget : HomeEffect.On ses.user.uid
      (.getDocuments (contatos (ses.home.vc.idUsuarioLogado.getD ""))) := by
    simp [HomeEffect.On,hs.logado]
  cases e with
  | tab type =>
    cases type with
    | contact =>
      refine h.perform hs (Option.some.inj hstep) (fun _ hc => hc) rfl rfl ?_ List.Forall₂.nil
        hs.conversas
      intro e he
      rcases List.mem_pair.mp he with rfl | rfl
      · exact hget
      · trivial
    | conversation =>
      refine h.perform hs (Option.some.inj hstep) (fun _ hc => hc) rfl rfl ?_ hs.contatos hs.conversas
      intro e he
      rcases List.mem_pair.mp he with rfl | rfl
      · rfl
      · trivial
  | conversas j erro =>
    obtain ⟨reg,hreg,hstep⟩ := Option.map_eq_some_iff.mp hstep
    have hcollection := hs.escutas reg (List.mem_of_getElem? hreg)
    cases erro with
    | true => exact h.perform hs hstep (fun _ hc => hc) rfl rfl (by simp) hs.contatos hs.conversas
    | false =>
      refine h.perform hs hstep (fun _ hc => hc) rfl rfl ?_ hs.contatos
        (forall₂_decode Conversa.ofDictionary fun id d hd => ?_)
      · intro e he
        obtain rfl := List.mem_singleton.mp he
        trivial
      · rw [hcollection] at hd
        exact h.conversa A ses.user id d ⟨trivial,hu⟩
          ⟨trivial,hview (.conversa ses.user.uid id) d (Store.mem_documents.mp hd)⟩
  | contatos j erro =>
    obtain ⟨c,hc,hstep⟩ := Option.map_eq_some_iff.mp hstep
    have hcollection := hs.leituras c (List.mem_of_getElem? hc)
    have herase : ∀ c ∈ ses.leituras.eraseIdx j, c ∈ ses.leituras :=
      fun _ hc => List.mem_of_mem_eraseIdx hc
    cases erro with
    | true =>
      refine h.perform hs hstep herase rfl rfl (by simp) ?_ hs.conversas
      simpa [resposta] using hs.contatos
    | false =>
      have hdecode : ∀ id d, (id,d) ∈ view.documents c →
          L.contato A ses.user id (Contact.ofDictionary (some d)) := by
        intro id d hd
        rw [hcollection] at hd
        exact h.contato A ses.user id d ⟨trivial,hu⟩
          ⟨trivial,hview (.contato ses.user.uid id) d (Store.mem_documents.mp hd)⟩
      refine h.perform hs hstep herase rfl rfl ?_ (List.rel_append hs.contatos
        (forall₂_decode (fun d => Contact.ofDictionary (some d)) hdecode)) hs.conversas
      intro e he
      obtain rfl := List.mem_singleton.mp he
      trivial
  | successDismissed =>
    refine h.perform hs (Option.some.inj hstep) (fun _ hc => hc) rfl rfl ?_ List.Forall₂.nil
      hs.conversas
    intro e he
    obtain rfl := List.mem_singleton.mp he
    exact hget
  | select row texto => exact h.select hs hg hstep
  | dadosUsuarioLogado erro =>
    obtain ⟨chat,hchat,hstep⟩ := Option.bind_eq_some_iff.mp hstep
    obtain ⟨p,hp,hstep⟩ := Option.map_eq_some_iff.mp hstep
    obtain ⟨rfl,rfl⟩ := Prod.mk.inj hstep
    obtain rfl := hs.perfil chat hchat p hp
    refine ⟨{ hs with chat := ?_, perfil := ?_ },Requests.none A⟩
    · intro chat' hc
      obtain rfl := Option.some.inj hc
      refine h.dadosUsuarioLogado A ses.user chat erro _ ⟨trivial,hs.chat chat hchat⟩ ?_ ?_
      · intro d hd
        cases erro with
        | true => simp at hd
        | false => exact ⟨trivial,hview (.usuario ses.user.uid) d hd⟩
      · rintro rfl
        rfl
    · intro chat' hc q hq
      obtain rfl := Option.some.inj hc
      simp [ChatScreen.dadosUsuarioLogado] at hq
  | mensagens erro =>
    obtain ⟨chat,hchat,hstep⟩ := Option.bind_eq_some_iff.mp hstep
    obtain ⟨c,hc,hstep⟩ := Option.map_eq_some_iff.mp hstep
    obtain ⟨rfl,rfl⟩ := Prod.mk.inj hstep
    refine ⟨{ hs with chat := ?_, perfil := ?_ },Requests.none A⟩
    · intro chat' hc'
      obtain rfl := Option.some.inj hc'
      refine h.mensagens A ses.user chat _ ⟨trivial,hs.chat chat hchat⟩ fun x y he ds hds d hd => ?_
      obtain rfl := Option.some.inj (hc.symm.trans he)
      obtain ⟨docs,hdocs,rfl⟩ := Option.map_eq_some_iff.mp hds
      obtain rfl := documents_of_resposta hdocs
      have hlisted := Snapshot.mem_of_orderByDescending hd
      exact ⟨trivial,hview (.mensagem x y d.1) d.2 (Store.mem_documents.mp hlisted)⟩
    · intro chat' hc
      obtain rfl := Option.some.inj hc
      exact hs.perfil chat hchat
  | actionPushMessage texto a b =>
    simp only [MessageApp.Session.step] at hstep
    split at hstep
    · rename_i hids
      obtain ⟨chat,hchat,hstep⟩ := Option.map_eq_some_iff.mp hstep
      obtain ⟨rfl,rfl⟩ := Prod.mk.inj hstep
      exact ⟨hs,⟨h.send A ses.user chat texto a b ⟨trivial,hu⟩ ⟨trivial,hs.chat chat hchat⟩
        (hg chat hchat) hids.1 hids.2,by simp,by simp⟩⟩
    · simp at hstep
  | back =>
    obtain ⟨rfl,rfl⟩ := Prod.mk.inj (Option.some.inj hstep)
    exact ⟨{ hs with chat := by simp, perfil := by simp },Requests.none A⟩
  | downloadURL urlImagem =>
    obtain ⟨rfl,rfl⟩ := Prod.mk.inj (Option.some.inj hstep)
    have hfoto := h.downloadURL A ses.user urlImagem ⟨trivial,hu⟩
    exact ⟨hs,⟨by simpa using hfoto,by simp,by simp⟩⟩

theorem Closed.signIn_session (h : Closed top L canon g) {a : Account}
    (ha : account? A a.uid = some a)
    (registration : ℕ) :
    L.Session A (Session.signIn ⟨a.uid,some (canon a.email)⟩ registration).1 ∧
      L.Requests A (Session.signIn ⟨a.uid,some (canon a.email)⟩ registration).2 := by
  have hu := h.signIn A a ha
  refine ⟨⟨hu,rfl,rfl,?_,?_,List.Forall₂.nil,List.Forall₂.nil,?_,?_⟩,⟨?_,?_,?_⟩⟩
  · intro c hc
    exact absurd hc List.not_mem_nil
  · intro r hr
    obtain rfl := List.mem_singleton.mp hr
    rfl
  · intro chat hc
    exact absurd hc (Option.not_mem_none chat)
  · intro chat hc
    exact absurd hc (Option.not_mem_none chat)
  · intro w hw
    exact absurd hw List.not_mem_nil
  · intro q hq
    exact absurd hq List.not_mem_nil
  · intro c hc
    obtain rfl := List.mem_singleton.mp hc
    exact h.ref_conversas A ⟨a.uid,some (canon a.email)⟩ ⟨trivial,hu⟩

theorem Closed.grow_session (h : Closed K L canon g) {a : Account} (ha : App.Fresh canon A a)
    {ses : MessageApp.Session} (hs : L.Session A ses) : L.Session (A ++ [a]) ses :=
  { hs with
    usuario := h.grow_usuario A a _ ha hs.usuario
    contatos := hs.contatos.imp fun id c => h.grow_contato A a _ id c ha
    conversas := hs.conversas.imp fun id c => h.grow_conversa A a _ id c ha
    chat := fun chat hc => h.grow_chat A a _ chat ha (hs.chat chat hc) }

theorem Closed.grow (h : Closed top L canon g) {s : App} (hs : L.Holds s) {a : Account}
    (ha : App.Fresh canon s.accounts a) : L.Holds { s with accounts := s.accounts ++ [a] } where
  store p d hd := h.grow_doc _ a p d ha (hs.store p d hd)
  inFlight w hw := h.grow_write ha (hs.inFlight w hw)
  consultas q hq := h.grow_consulta _ a q ha ⟨trivial,hs.consultas q hq⟩
  sessions ses hses := h.grow_session ha (hs.sessions ses hses)
  referencias := hs.referencias

theorem Closed.request (h : Closed top L canon g) {s : App} (hs : L.Holds s)
    {r : MessageApp.Requests} (hr : L.Requests s.accounts r) : L.Holds (s.request r) where
  store := hs.store
  inFlight w hw := (List.mem_append.mp hw).elim (hs.inFlight w) (hr.writes w)
  consultas q hq := (List.mem_append.mp hq).elim (hs.consultas q) (hr.consultas q)
  sessions := hs.sessions
  referencias c hc := by
    rcases List.mem_append.mp hc with hc | hc
    · exact (List.mem_append.mp hc).elim (hs.referencias c) (hr.leituras c)
    · obtain ⟨w,hw,rfl⟩ := List.mem_map.mp hc
      refine h.ref_write s.accounts w (inf_write ?_ (hr.writes w hw))
      exact write_mono (fun _ _ _ => trivial) (fun _ _ _ => trivial) (hr.writes w hw)

theorem Closed.resultado (h : Closed top L canon g) {s : App} (hs : L.Holds s) {q : Consulta}
    (hq : L.consulta s.accounts q) {erro : Bool} {visible : List ℕ} {writes : List MessageApp.Write}
    (hres : ContatoController.consultaResultado q.idUsuario
      ((resposta (s.view visible) usuarios erro).map fun docs => docs.whereField "email" q.email) =
        .ok writes) : ∀ w ∈ writes, L.Write s.accounts w := by
  cases erro with
  | true =>
    obtain rfl : [] = writes := Except.ok.inj hres
    simp
  | false =>
    simp only [resposta,Bool.false_eq_true,if_false,Option.map_some,
      ContatoController.consultaResultado] at hres
    split at hres
    · simp at hres
    · obtain rfl := Except.ok.inj hres
      intro w hw
      obtain ⟨⟨id,d⟩,hd,rfl⟩ := List.mem_map.mp hw
      obtain ⟨hdoc,hemail⟩ := List.mem_filter.mp hd
      have hlookup := Store.mem_documents.mp hdoc
      exact h.salvarContato _ q id d ⟨trivial,hq⟩ ⟨trivial,h.view hs visible (.usuario id) d hlookup⟩
        (by simpa using hemail)

def Guarded (g : Guard) (s : App) : AppEvent → Prop
  | .client k e _ => ∀ ses ∈ s.sessions[k]?, Asks g s.accounts ses e
  | _ => True

instance [∀ A u chat, Decidable (g.send A u chat)] [∀ A u texto, Decidable (g.addContact A u texto)]
    (s : App) (e : AppEvent) : Decidable (Guarded g s e) := by
  cases e <;> unfold Guarded <;> infer_instance

theorem Closed.step (h : Closed top L canon g) {s t : App} {e : AppEvent} (hs : L.Holds s)
    (hg : Guarded g s e) (hstep : s.step canon e = some t) : L.Holds t := by
  cases e with
  | register email nome resultado =>
    cases resultado with
    | error erro =>
      obtain rfl := Option.some.inj hstep
      exact hs
    | ok uid =>
      simp only [App.step,App.register] at hstep
      split at hstep
      · rename_i huid
        obtain ⟨hfresh,rfl⟩ := guarded hstep
        refine h.request (h.grow hs hfresh) ⟨fun w hw => ?_,by simp,by simp⟩
        obtain rfl := List.mem_singleton.mp hw
        exact ⟨.usuario uid,rfl,h.register s.accounts ⟨uid,email,nome,huid⟩ hfresh⟩
      · simp at hstep
  | signIn uid =>
    obtain ⟨a,ha,hstep⟩ := Option.map_eq_some_iff.mp hstep
    obtain ⟨hses,hreq⟩ := h.signIn_session ((uid_of_account? ha).symm ▸ ha) s.registrations
    have hs' : L.Holds { s with
        sessions := s.sessions ++ [(Session.signIn ⟨a.uid,some (canon a.email)⟩ s.registrations).1]
        registrations := s.registrations+1 } := by
      refine { hs with sessions := fun ses hmem => ?_ }
      rcases List.mem_append.mp hmem with hmem | hmem
      · exact hs.sessions ses hmem
      · obtain rfl := List.mem_singleton.mp hmem
        exact hses
    exact hstep ▸ h.request hs' hreq
  | signOut k =>
    obtain ⟨_,rfl⟩ := guarded hstep
    exact { hs with sessions := fun ses hses => hs.sessions ses (List.mem_of_mem_eraseIdx hses) }
  | client k e visible =>
    obtain ⟨ses,hses,hstep⟩ := Option.bind_eq_some_iff.mp hstep
    obtain ⟨⟨ses',r⟩,hr,hstep⟩ := Option.map_eq_some_iff.mp hstep
    obtain ⟨hses',hreq⟩ := h.client (h.view hs visible) (hs.sessions ses (List.mem_of_getElem? hses))
      (hg ses hses) hr
    have hs' : L.Holds { s with
        sessions := s.sessions.set k ses', registrations := s.registrations+1 } := by
      refine { hs with sessions := fun a ha => ?_ }
      rcases List.mem_or_eq_of_mem_set ha with ha | rfl
      · exact hs.sessions a ha
      · exact hses'
    exact hstep ▸ h.request hs' hreq
  | consulta j erro visible =>
    obtain ⟨q,hq,hstep⟩ := Option.map_eq_some_iff.mp hstep
    have hs' : L.Holds { s with consultas := s.consultas.eraseIdx j } :=
      { hs with consultas := fun q hq => hs.consultas q (List.mem_of_mem_eraseIdx hq) }
    subst hstep
    dsimp only
    split
    · rename_i writes hres
      have hwrites := h.resultado hs (hs.consultas q (List.mem_of_getElem? hq)) hres
      exact h.request hs' ⟨hwrites,by simp,by simp⟩
    · exact hs'
  | commit i time =>
    obtain ⟨w,hw,hstep⟩ := Option.bind_eq_some_iff.mp hstep
    obtain ⟨_,rfl⟩ := guarded hstep
    exact { hs with
      store := h.commit hs.store (hs.inFlight w (List.mem_of_getElem? hw)) time
      inFlight := fun v hv => hs.inFlight v (List.mem_of_mem_eraseIdx hv) }
  | reject i =>
    obtain ⟨_,rfl⟩ := guarded hstep
    exact { hs with inFlight := fun v hv => hs.inFlight v (List.mem_of_mem_eraseIdx hv) }

theorem holds_start (L : Laws) : L.Holds App.start where
  store p d hd := by simp [App.start] at hd
  inFlight := by simp [App.start]
  consultas := by simp [App.start]
  sessions := by simp [App.start]
  referencias := by simp [App.start]

/-- A law that every handler keeps without a guard is kept by every step. -/
theorem Closed.step_free (h : Closed top L canon noGuard) {s t : App} {e : AppEvent}
    (hs : L.Holds s) (hstep : s.step canon e = some t) : L.Holds t := by
  refine h.step hs ?_ hstep
  cases e with
  | client k e visible =>
    intro ses _
    cases e with
    | select row texto => exact fun _ => trivial
    | actionPushMessage texto a b => exact fun _ _ => trivial
    | _ => trivial
  | _ => trivial

/-- Such a law holds in every reachable state. -/
theorem Closed.reachable (h : Closed top L canon noGuard) {s : App}
    (hs : (app canon).Reachable s) : L.Holds s := by
  refine hs.invariant (holds_start L) ?_
  intro s e t hs hstep
  exact h.step_free hs hstep

/-- A law that every guarded handler keeps, and what follows from it, holds throughout every
guarded run. -/
theorem Closed.throughout (h : Closed top L canon g) {s : App} {es : List AppEvent}
    (run : (app canon).exec App.start es = some s)
    (hg : (app canon).Along (Guarded g) App.start es) {P : App → Prop}
    (hP : ∀ t, L.Holds t → P t) : (app canon).Throughout P App.start es := by
  have hlaw := Machine.throughout_of_along (m := app canon)
    (fun _ _ _ hs hg hstep => h.step hs hg hstep) (holds_start L) run hg
  exact fun before t hpre ht => hP t (hlaw before t hpre ht)

end Laws
end MessageApp
