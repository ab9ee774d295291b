import MessageApp.Directory

/-! Nobody is listed twice. The rows of a tab come from documents of one collection, which have
distinct ids, and a lawful row carries the id of its document: the conversations of every session
name distinct users, and so do its contacts as long as no two calls of `getContatos` overlap. -/
namespace MessageApp

def ClientEvent.callsGetContatos : ClientEvent → Bool
  | .tab .contact => true
  | .successDismissed => true
  | _ => false

def AppEvent.getContatos? : AppEvent → Option ℕ
  | .client k e _ => if e.callsGetContatos then some k else none
  | _ => none

theorem map_of_forall₂ {α β γ : Type} {f : α → γ} {g : β → γ} {l : List α} {l' : List β}
    (h : List.Forall₂ (fun a b => g b = f a) l l') : l'.map g = l.map f := by
  induction h with
  | nil => rfl
  | cons hab _ ih => rw [List.map_cons,List.map_cons,hab,ih]

namespace Session

variable {view : Store} {n : ℕ} {ses ses' : Session} {e : ClientEvent} {r : Requests}

/-- The documents behind the rows, and the calls of `getContatos` that have not completed. -/
def lists (ses : Session) : List String × List String × List (List String) :=
  (ses.conversaIds,ses.contatoIds,ses.leituras)

/-- Everything a step can do to the lists: nothing, replace the conversations, complete a call,
or issue one. -/
theorem step_lists (h : ses.step view n e = some (ses',r)) :
    (e.callsGetContatos = false ∧ ses'.lists = ses.lists) ∨
    (∃ c, e.callsGetContatos = false ∧
      ses'.lists = ((view.documents c).map Prod.fst,ses.contatoIds,ses.leituras)) ∨
    (∃ j c ids, e.callsGetContatos = false ∧ ses.leituras[j]? = some c ∧
      (ids = [] ∨ ids = (view.documents c).map Prod.fst) ∧
      ses'.lists = (ses.conversaIds,ses.contatoIds ++ ids,ses.leituras.eraseIdx j)) ∨
    (∃ c, e.callsGetContatos = true ∧ ses'.lists = (ses.conversaIds,[],ses.leituras ++ [c])) := by
  cases e with
  | tab type =>
    cases type with
    | contact =>
      obtain ⟨rfl,_⟩ := Prod.mk.inj (Option.some.inj h)
      exact .inr (.inr (.inr ⟨_,rfl,rfl⟩))
    | conversation =>
      obtain ⟨rfl,_⟩ := Prod.mk.inj (Option.some.inj h)
      exact .inl ⟨rfl,by simp [lists,MessageListViewController.typeScreenMessage,
        MessageListViewController.addListenerRecuperarConversa,HomeEffect.getDocuments?]⟩
  | conversas j erro =>
    obtain ⟨reg,_,h⟩ := Option.map_eq_some_iff.mp h
    obtain ⟨rfl,_⟩ := Prod.mk.inj h
    cases erro with
    | true => exact .inl ⟨rfl,by simp [lists,resposta,
        MessageListViewController.conversasSnapshot]⟩
    | false => exact .inr (.inl ⟨reg.collection,rfl,by simp [lists,resposta,
        MessageListViewController.conversasSnapshot,HomeEffect.getDocuments?]⟩)
  | contatos j erro =>
    obtain ⟨c,hc,h⟩ := Option.map_eq_some_iff.mp h
    obtain ⟨rfl,_⟩ := Prod.mk.inj h
    cases erro with
    | true => exact .inr (.inr (.inl ⟨j,c,[],rfl,hc,.inl rfl,by simp [lists,resposta,
        MessageListViewController.contatosResultado]⟩))
    | false => exact .inr (.inr (.inl ⟨j,c,_,rfl,hc,.inr rfl,by simp [lists,resposta,
        MessageListViewController.contatosResultado,HomeEffect.getDocuments?]⟩))
  | successDismissed =>
    obtain ⟨rfl,_⟩ := Prod.mk.inj (Option.some.inj h)
    exact .inr (.inr (.inr ⟨_,rfl,rfl⟩))
  | select row texto =>
    simp only [step,select] at h
    split at h
    · simp at h
    · obtain ⟨rfl,_⟩ := Prod.mk.inj (Option.some.inj h)
      exact .inl ⟨rfl,rfl⟩
    · split at h <;> (obtain ⟨rfl,_⟩ := Prod.mk.inj (Option.some.inj h); exact .inl ⟨rfl,rfl⟩)
  | dadosUsuarioLogado erro =>
    obtain ⟨chat,_,h⟩ := Option.bind_eq_some_iff.mp h
    obtain ⟨p,_,h⟩ := Option.map_eq_some_iff.mp h
    obtain ⟨rfl,_⟩ := Prod.mk.inj h
    exact .inl ⟨rfl,rfl⟩
  | mensagens erro =>
    obtain ⟨chat,_,h⟩ := Option.bind_eq_some_iff.mp h
    obtain ⟨c,_,h⟩ := Option.map_eq_some_iff.mp h
    obtain ⟨rfl,_⟩ := Prod.mk.inj h
    exact .inl ⟨rfl,rfl⟩
  | actionPushMessage texto a b =>
    simp only [step] at h
    split at h
    · obtain ⟨chat,_,h⟩ := Option.map_eq_some_iff.mp h
      obtain ⟨rfl,_⟩ := Prod.mk.inj h
      exact .inl ⟨rfl,rfl⟩
    · simp at h
  | back =>
    obtain ⟨rfl,_⟩ := Prod.mk.inj (Option.some.inj h)
    exact .inl ⟨rfl,rfl⟩
  | downloadURL urlImagem =>
    obtain ⟨rfl,_⟩ := Prod.mk.inj (Option.some.inj h)
    exact .inl ⟨rfl,rfl⟩

def ConversasOnce (ses : Session) : Prop := ses.conversaIds.Nodup

/-- No contact is listed twice, one call is pending at most, and the list waits for it empty. -/
structure ContatosOnce (ses : Session) : Prop where
  rows : ses.contatoIds.Nodup
  pending : ses.leituras.length ≤ 1
  waiting : ses.leituras ≠ [] → ses.contatoIds = []

theorem ConversasOnce.step (hs : ses.ConversasOnce) (h : ses.step view n e = some (ses',r)) :
    ses'.ConversasOnce := by
  have hsame : ∀ {l}, ses'.lists = (ses.conversaIds,l) → ses'.ConversasOnce := by
    intro l hl
    have hids : ses'.conversaIds = ses.conversaIds := congrArg Prod.fst hl
    rw [ConversasOnce,hids]
    exact hs
  rcases step_lists h with ⟨_,hl⟩ | ⟨c,_,hl⟩ | ⟨j,c,ids,_,_,_,hl⟩ | ⟨c,_,hl⟩
  · exact hsame hl
  · have hids : ses'.conversaIds = _ := congrArg Prod.fst hl
    rw [ConversasOnce,hids]
    exact Store.documents_ids_nodup view c
  · exact hsame hl
  · exact hsame hl

theorem ContatosOnce.congr (hs : ses.ContatosOnce) (hids : ses'.contatoIds = ses.contatoIds)
    (hleituras : ses'.leituras = ses.leituras) : ses'.ContatosOnce :=
  ⟨hids ▸ hs.rows,hleituras ▸ hs.pending,by rw [hids,hleituras]; exact hs.waiting⟩

theorem ContatosOnce.step (hs : ses.ContatosOnce) (hcalm : e.callsGetContatos = true → ses.leituras = [])
    (h : ses.step view n e = some (ses',r)) : ses'.ContatosOnce := by
  have hsame : ∀ {l}, ses'.lists = (l,ses.contatoIds,ses.leituras) → ses'.ContatosOnce := by
    intro l hl
    exact hs.congr (congrArg (fun l => l.2.1) hl) (congrArg (fun l => l.2.2) hl)
  rcases step_lists h with ⟨_,hl⟩ | ⟨c,_,hl⟩ | ⟨j,c,ids,_,hc,hids,hl⟩ | ⟨c,hcall,hl⟩
  · exact hsame hl
  · exact hsame hl
  · -- the one pending call completes on an empty list
    have hcontatos : ses'.contatoIds = ses.contatoIds ++ ids := congrArg (fun l => l.2.1) hl
    have hleituras : ses'.leituras = ses.leituras.eraseIdx j := congrArg (fun l => l.2.2) hl
    obtain ⟨hj,_⟩ := List.getElem?_eq_some_iff.mp hc
    have hempty := hs.waiting (List.ne_nil_of_length_pos (Nat.zero_lt_of_lt hj))
    have hnone : ses'.leituras = [] := by
      have herase := List.length_eraseIdx_of_lt hj
      have hpending := hs.pending
      refine List.length_eq_zero_iff.mp ?_
      rw [hleituras,herase]
      omega
    refine ⟨?_,by simp [hnone],fun hne => absurd hnone hne⟩
    rw [hcontatos,hempty,List.nil_append]
    rcases hids with rfl | rfl
    · exact List.nodup_nil
    · exact Store.documents_ids_nodup view c
  · have hcontatos : ses'.contatoIds = [] := congrArg (fun l => l.2.1) hl
    have hleituras : ses'.leituras = ses.leituras ++ [c] := congrArg (fun l => l.2.2) hl
    refine ⟨hcontatos ▸ List.nodup_nil,?_,fun _ => hcontatos⟩
    rw [hleituras,hcalm hcall]
    simp

theorem conversas_nodup {A : List Account} (hlaw : integrity.Session A ses) (h : ses.ConversasOnce) :
    (ses.home.vc.listaConversas.map Conversa.idDestinatario).Nodup := by
  have hids : ses.home.vc.listaConversas.map Conversa.idDestinatario = ses.conversaIds.map some :=
    map_of_forall₂ (hlaw.conversas.imp fun _ _ hrow => hrow.2)
  rw [hids]
  exact h.map (Option.some_injective _)

theorem contatos_nodup {A : List Account} (hlaw : integrity.Session A ses) (h : ses.ContatosOnce) :
    (ses.home.vc.listContact.map Contact.id).Nodup := by
  have hids : ses.home.vc.listContact.map Contact.id = ses.contatoIds.map some :=
    map_of_forall₂ (hlaw.contatos.imp fun _ _ hrow => hrow.2)
  rw [hids]
  exact h.rows.map (Option.some_injective _)

end Session

namespace App

variable {canon : String → String} {s t : App}

/-- What holds of a new session, and is kept by every event of a session that meets the guard,
holds of all sessions along every run that meets it. -/
theorem sessions_step {P : Session → Prop} {G : Session → ClientEvent → Prop}
    (hsign : ∀ user n, P (Session.signIn user n).1)
    (hevent : ∀ view n ses e ses' r, P ses → G ses e →
      Session.step view n ses e = some (ses',r) → P ses')
    {e : AppEvent} (h : ∀ ses ∈ s.sessions, P ses)
    (hguard : ∀ k ev visible, e = .client k ev visible → ∀ ses ∈ s.sessions[k]?, G ses ev)
    (hstep : s.step canon e = some t) : ∀ ses ∈ t.sessions, P ses := by
  cases e with
  | register email nome resultado =>
    cases resultado with
    | error erro =>
      obtain rfl := Option.some.inj hstep
      exact h
    | ok uid =>
      simp only [step,App.register] at hstep
      split at hstep
      · obtain ⟨_,rfl⟩ := guarded hstep
        exact h
      · simp at hstep
  | signIn uid =>
    obtain ⟨a,_,rfl⟩ := Option.map_eq_some_iff.mp hstep
    intro ses hses
    rcases List.mem_append.mp hses with hses | hses
    · exact h ses hses
    · obtain rfl := List.mem_singleton.mp hses
      exact hsign _ _
  | signOut k =>
    obtain ⟨_,rfl⟩ := guarded hstep
    exact fun ses hses => h ses (List.mem_of_mem_eraseIdx hses)
  | client k ev visible =>
    obtain ⟨ses,hses,hstep⟩ := Option.bind_eq_some_iff.mp hstep
    obtain ⟨⟨ses',r⟩,hr,rfl⟩ := Option.map_eq_some_iff.mp hstep
    intro a ha
    rcases List.mem_or_eq_of_mem_set ha with ha | rfl
    · exact h a ha
    · exact hevent _ _ _ _ _ _ (h ses (List.mem_of_getElem? hses)) (hguard k ev visible rfl ses hses) hr
  | consulta j erro visible =>
    obtain ⟨q,_,rfl⟩ := Option.map_eq_some_iff.mp hstep
    dsimp only
    split
    · exact h
    · exact h
  | commit i time =>
    obtain ⟨w,_,hstep⟩ := Option.bind_eq_some_iff.mp hstep
    obtain ⟨_,rfl⟩ := guarded hstep
    exact h
  | reject i =>
    obtain ⟨_,rfl⟩ := guarded hstep
    exact h

/-- A session calls `getContatos` only while no call of its is pending. -/
def Calm (s : App) (e : AppEvent) : Prop :=
  ∀ k ∈ e.getContatos?, ∀ ses ∈ s.sessions[k]?, ses.leituras = []

instance (s : App) (e : AppEvent) : Decidable (s.Calm e) :=
  inferInstanceAs (Decidable (∀ k ∈ _, ∀ ses ∈ _, _ = _))

end App

section
variable {canon : String → String} {es : List AppEvent} {s : App}

/-- In every reachable state the conversation rows of every session are of pairwise different
users, and every answer to `getContatos` has contacts with distinct ids. -/
theorem conversations_listed_once (hs : (app canon).Reachable s) :
    ∀ ses ∈ s.sessions, (ses.home.vc.listaConversas.map Conversa.idDestinatario).Nodup ∧
      ∀ c ∈ ses.leituras, ∀ (erro : Bool) (visible : List ℕ),
        ContactList.Distinct (.contatos (resposta (s.view visible) c erro)) := by
  have hlaw := (integrity.closed canon).reachable hs
  have honce : ∀ ses ∈ s.sessions, ses.ConversasOnce := by
    refine hs.invariant (P := fun s => ∀ ses ∈ s.sessions, ses.ConversasOnce) (by simp [app,App.start]) ?_
    intro s e t h hstep
    exact App.sessions_step (G := fun _ _ => True) (fun _ _ => List.nodup_nil)
      (fun _ _ _ _ _ _ hses _ hr => hses.step hr) h (fun _ _ _ _ _ _ => trivial) hstep
  intro ses hses
  have hsession := hlaw.sessions ses hses
  refine ⟨Session.conversas_nodup hsession (honce ses hses),fun c hc erro visible => ?_⟩
  obtain rfl := hsession.leituras c hc
  cases erro with
  | true => trivial
  | false =>
    have hids : (((s.view visible).documents (contatos ses.user.uid)).map
        fun d => (Contact.ofDictionary (some d.2)).id) =
        ((s.view visible).documents (contatos ses.user.uid)).map fun d => some d.1 := by
      refine List.map_congr_left fun d hd => ?_
      exact ((integrity.closed canon).view hlaw visible (.contato ses.user.uid d.1) d.2
        (Store.mem_documents.mp hd)).2.2
    have hnodup := (Store.documents_ids_nodup (s.view visible) (contatos ses.user.uid)).map
      (Option.some_injective _)
    simpa [ContactList.Distinct,resposta,ContactList.ids,ContactList.decoded,Function.comp_def,hids]
      using hnodup

/-- A third user registers and becomes the second contact of `Ana`. -/
def addCaio : List AppEvent :=
  [.register "caio@x" "Caio" (.ok "u3"),.commit 0 8,.client 0 .back [],.client 0 (.tab .contact) [],
    .client 0 (.contatos 0 false) [],.client 0 (.select 1 "caio@x") [],.consulta 0 false [],
    .commit 0 9,.client 0 .successDismissed [],.client 0 (.contatos 0 false) []]

def listedConversations : List AppEvent :=
  chatWithBia ++ firstMessage ++ addCaio ++
    [.client 0 (.select 1 "") [],.client 0 (.dadosUsuarioLogado false) [],
      .client 0 (.actionPushMessage "ola" "m3" "m4") [],.commit 0 10,.commit 0 11,.commit 0 12,
      .commit 0 13,.client 0 .back [],.client 0 (.tab .conversation) [],
      .client 0 (.conversas 0 false) []]

theorem conversations_listed_once_bia :
    ∃ s ses, (app id).exec App.start listedConversations = some s ∧ s.sessions[0]? = some ses ∧
      ses.home.vc.listaConversas.map Conversa.idDestinatario = [some "u2",some "u3"] ∧
      (ses.home.vc.listaConversas.map Conversa.idDestinatario).Nodup := by
  have hrun : ∃ s ∈ (app id).exec App.start listedConversations, ∃ ses ∈ s.sessions[0]?,
      ses.home.vc.listaConversas.map Conversa.idDestinatario = [some "u2",some "u3"] := by
    decide +kernel
  obtain ⟨s,hs,ses,hses,hrows⟩ := hrun
  exact ⟨s,ses,hs,hses,hrows,(@conversations_listed_once id s ⟨listedConversations,hs⟩ ses
    (List.mem_of_getElem? hses)).1⟩

/-- In a run in which no session calls `getContatos` while a call of its is pending, the contacts
of every session are pairwise different users in every state. -/
theorem contacts_listed_once (run : (app canon).exec App.start es = some s)
    (calm : (app canon).Along App.Calm App.start es) :
    (app canon).Throughout
      (fun s => ∀ ses ∈ s.sessions, (ses.home.vc.listContact.map Contact.id).Nodup) App.start es := by
  have hkeep := Machine.throughout_of_along (m := app canon)
    (P := fun s => integrity.Holds s ∧ ∀ ses ∈ s.sessions, ses.ContatosOnce) ?_
    ⟨Laws.holds_start _,by simp [App.start]⟩ run calm
  · intro before t hpre ht ses hses
    obtain ⟨hlaw,honce⟩ := hkeep before t hpre ht
    exact Session.contatos_nodup (hlaw.sessions ses hses) (honce ses hses)
  · rintro s e t ⟨hlaw,h⟩ hcalm hstep
    refine ⟨(integrity.closed canon).step_free hlaw hstep,?_⟩
    refine App.sessions_step (G := fun ses ev => ev.callsGetContatos = true → ses.leituras = [])
      (fun _ _ => ⟨List.nodup_nil,Nat.zero_le 1,fun _ => rfl⟩)
      (fun _ _ _ _ _ _ hses hcall hr => hses.step hcall hr) h ?_ hstep
    rintro k ev visible rfl ses hses hcall
    exact hcalm k (by simp [AppEvent.getContatos?,hcall]) ses hses

theorem contacts_listed_once_bia :
    ∃ s ses, (app id).exec App.start (chatWithBia ++ addCaio) = some s ∧ s.sessions[0]? = some ses ∧
      ses.home.vc.listContact.map Contact.id = [some "u2",some "u3"] ∧
      (ses.home.vc.listContact.map Contact.id).Nodup := by
  have hrun : ∃ s ∈ (app id).exec App.start (chatWithBia ++ addCaio), ∃ ses ∈ s.sessions[0]?,
      ses.home.vc.listContact.map Contact.id = [some "u2",some "u3"] := by
    decide +kernel
  obtain ⟨s,hs,ses,hses,hrows⟩ := hrun
  exact ⟨s,ses,hs,hses,hrows,@contacts_listed_once id (chatWithBia ++ addCaio) s hs
    (Machine.along_of_check (by decide +kernel)) _ s (List.prefix_refl _) hs ses
    (List.mem_of_getElem? hses)⟩

end
end MessageApp
