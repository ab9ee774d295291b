import MessageApp.Network
import MessageApp.Sessions

/-! Registration writes to two places: Auth holds the account at once, while the document of
the user is one more write in flight. Only that write creates the document, so an account
whose registration write was rejected stays without one on every later run. -/
namespace MessageApp

def Write.Registers (u : String) (w : Write) : Prop := ∃ d, w = .setData ⟨usuarios,u⟩ d

/-- The document holds what was typed at the registration of the account. -/
def Account.Stored (a : Account) (d : Dict) : Prop :=
  Dict.string? d "id" = some a.uid ∧ Dict.string? d "email" = some a.email ∧
    Dict.string? d "nome" = some a.nome

theorem Write.not_registers {w : Write} (h : w.path.collection ≠ usuarios) (u : String) :
    ¬ w.Registers u := by
  rintro ⟨d,rfl⟩
  exact h rfl

theorem ChatViewController.actionPushMessage_not_registers (vc : ChatViewController)
    (texto a b u : String) : ∀ w ∈ vc.actionPushMessage texto a b, ¬ w.Registers u := by
  intro w hw
  refine Write.not_registers ?_ u
  unfold actionPushMessage at hw
  split at hw
  · simp at hw
  · simp only [salvarMensagem,salvarConversa,Write.addDocument,List.mem_cons,List.not_mem_nil,
      or_false] at hw
    rcases hw with rfl | rfl | rfl | rfl <;>
      simp [Write.path,usuarios,mensagens,ultimasConversas]

theorem ContatoController.consultaResultado_not_registers {idUsuario u : String}
    {docs : Option Snapshot} {ws : List Write} (h : consultaResultado idUsuario docs = .ok ws) :
    ∀ w ∈ ws, ¬ w.Registers u := by
  intro w hw
  refine Write.not_registers ?_ u
  unfold consultaResultado at h
  split at h
  · obtain rfl := Except.ok.inj h
    simp at hw
  · split at h
    · simp at h
    · obtain rfl := Except.ok.inj h
      obtain ⟨d,_,rfl⟩ := List.mem_map.mp hw
      simp [salvarContato,Write.path,usuarios,contatos]

namespace Session

def sent (ses : Session) : ClientEvent → Option Send
  | .actionPushMessage texto a b => ses.chat.map fun chat => ⟨chat.vc,texto,a,b⟩
  | _ => none

def foto (ses : Session) : ClientEvent → List Write
  | .downloadURL urlImagem => [DetailUserViewController.salvarFoto (some ses.user.uid) urlImagem]
  | _ => []

def issues (ses : Session) (e : ClientEvent) : List Write :=
  (ses.sent e).elim [] Send.writes ++ ses.foto e

variable {view : Store} {n : ℕ} {ses ses' : Session} {e : ClientEvent} {r : Requests}

/-- A session writes what it sends and the photo of its user, and nothing else. -/
theorem step_writes (h : ses.step view n e = some (ses',r)) : r.writes = ses.issues e := by
  cases e with
  | tab type =>
    cases type <;> (obtain ⟨_,rfl⟩ := Prod.mk.inj (Option.some.inj h); rfl)
  | conversas j erro =>
    obtain ⟨reg,_,h⟩ := Option.map_eq_some_iff.mp h
    obtain ⟨_,rfl⟩ := Prod.mk.inj h
    rfl
  | contatos j erro =>
    obtain ⟨c,_,h⟩ := Option.map_eq_some_iff.mp h
    obtain ⟨_,rfl⟩ := Prod.mk.inj h
    rfl
  | successDismissed =>
    obtain ⟨_,rfl⟩ := Prod.mk.inj (Option.some.inj h)
    rfl
  | select row texto =>
    simp only [step,select] at h
    split at h
    · simp at h
    · obtain ⟨_,rfl⟩ := Prod.mk.inj (Option.some.inj h)
      rfl
    · split at h <;> (obtain ⟨_,rfl⟩ := Prod.mk.inj (Option.some.inj h); rfl)
  | dadosUsuarioLogado erro =>
    obtain ⟨chat,_,h⟩ := Option.bind_eq_some_iff.mp h
    obtain ⟨p,_,h⟩ := Option.map_eq_some_iff.mp h
    obtain ⟨_,rfl⟩ := Prod.mk.inj h
    rfl
  | mensagens erro =>
    obtain ⟨chat,_,h⟩ := Option.bind_eq_some_iff.mp h
    obtain ⟨c,_,h⟩ := Option.map_eq_some_iff.mp h
    obtain ⟨_,rfl⟩ := Prod.mk.inj h
    rfl
  | actionPushMessage texto a b =>
    simp only [step] at h
    split at h
    · obtain ⟨chat,hchat,h⟩ := Option.map_eq_some_iff.mp h
      obtain ⟨_,rfl⟩ := Prod.mk.inj h
      simp [issues,sent,foto,hchat,Send.writes]
    · simp at h
  | back =>
    obtain ⟨_,rfl⟩ := Prod.mk.inj (Option.some.inj h)
    rfl
  | downloadURL urlImagem =>
    obtain ⟨_,rfl⟩ := Prod.mk.inj (Option.some.inj h)
    rfl

theorem mem_issues {w : Write} (h : w ∈ ses.issues e) :
    (∃ m, ses.sent e = some m ∧ w ∈ m.writes) ∨ w ∈ ses.foto e := by
  refine (List.mem_append.mp h).imp_left fun hw => ?_
  cases hm : ses.sent e with
  | none => simp [hm] at hw
  | some m => exact ⟨m,rfl,by simpa [hm] using hw⟩

end Session

theorem Session.step_not_registers {view : Store} {n : ℕ} {ses ses' : Session} {e : ClientEvent}
    {r : Requests} (h : ses.step view n e = some (ses',r)) (u : String) :
    ∀ w ∈ r.writes, ¬ w.Registers u := by
  intro w hw
  rw [step_writes h] at hw
  rcases mem_issues hw with ⟨m,_,hsend⟩ | hfoto
  · exact m.vc.actionPushMessage_not_registers m.texto m.autoRemetente m.autoDestinatario u w hsend
  · cases e with
    | downloadURL urlImagem =>
      obtain rfl := List.mem_singleton.mp hfoto
      rintro ⟨d,hd⟩
      simp [DetailUserViewController.salvarFoto] at hd
    | _ => exact absurd hfoto List.not_mem_nil

namespace App

variable {canon : String → String} {s t : App} {u : String}

def registration (a : Account) : Write :=
  .setData ⟨usuarios,a.uid⟩ (RegisterViewController.dadosUsuario a.nome a.email a.uid)

theorem uid_of_registration {a : Account} (h : (registration a).Registers u) : a.uid = u := by
  obtain ⟨d,hd⟩ := h
  simp only [registration,Write.setData.injEq,DocPath.mk.injEq] at hd
  exact hd.1.2

/-- What one step can do to the accounts, the store and the writes in flight: register a new
account, commit a write, or add and drop writes that register nobody. -/
theorem step_cases {e : AppEvent} (h : s.step canon e = some t) :
    (∃ a, Fresh canon s.accounts a ∧ t.accounts = s.accounts ++ [a] ∧ t.store = s.store ∧
      t.inFlight = s.inFlight ++ [registration a]) ∨
    (t.accounts = s.accounts ∧ t.store = s.store ∧
      ∀ w ∈ t.inFlight, w ∈ s.inFlight ∨ ∀ u, ¬ w.Registers u) ∨
    (t.accounts = s.accounts ∧ ∃ i w time, s.inFlight[i]? = some w ∧
      t.store = s.store.commit time w ∧ t.inFlight = s.inFlight.eraseIdx i) := by
  cases e with
  | register email nome resultado =>
    cases resultado with
    | error erro =>
      obtain rfl := Option.some.inj h
      exact Or.inr (Or.inl ⟨rfl,rfl,fun w hw => Or.inl hw⟩)
    | ok uid =>
      simp only [step,App.register] at h
      split at h
      · rename_i huid
        obtain ⟨hfresh,rfl⟩ := guarded h
        exact Or.inl ⟨⟨uid,email,nome,huid⟩,hfresh,rfl,rfl,rfl⟩
      · simp at h
  | signIn uid =>
    obtain ⟨a,_,rfl⟩ := Option.map_eq_some_iff.mp h
    refine Or.inr (Or.inl ⟨rfl,rfl,fun w hw => Or.inl ?_⟩)
    simpa [request,Session.signIn,Session.perform] using hw
  | signOut k =>
    obtain ⟨_,rfl⟩ := guarded h
    exact Or.inr (Or.inl ⟨rfl,rfl,fun w hw => Or.inl hw⟩)
  | client k e visible =>
    obtain ⟨ses,_,h⟩ := Option.bind_eq_some_iff.mp h
    obtain ⟨⟨ses',r⟩,hr,rfl⟩ := Option.map_eq_some_iff.mp h
    refine Or.inr (Or.inl ⟨rfl,rfl,fun w hw => ?_⟩)
    exact (List.mem_append.mp hw).imp_right fun hw u => Session.step_not_registers hr u w hw
  | consulta j erro visible =>
    obtain ⟨q,_,rfl⟩ := Option.map_eq_some_iff.mp h
    dsimp only
    split
    · rename_i ws hres
      refine Or.inr (Or.inl ⟨rfl,rfl,fun w hw => ?_⟩)
      exact (List.mem_append.mp hw).imp_right fun hw u =>
        ContatoController.consultaResultado_not_registers hres w hw
    · exact Or.inr (Or.inl ⟨rfl,rfl,fun w hw => Or.inl hw⟩)
  | commit i time =>
    obtain ⟨w,hw,h⟩ := Option.bind_eq_some_iff.mp h
    obtain ⟨_,rfl⟩ := guarded h
    exact Or.inr (Or.inr ⟨rfl,i,w,time,hw,rfl,rfl⟩)
  | reject i =>
    obtain ⟨_,rfl⟩ := guarded h
    exact Or.inr (Or.inl ⟨rfl,rfl,fun w hw => Or.inl (List.mem_of_mem_eraseIdx hw)⟩)

theorem step_account {e : AppEvent} (h : s.step canon e = some t) {a : Account}
    (ha : account? s.accounts u = some a) : account? t.accounts u = some a := by
  rcases step_cases h with ⟨b,_,hb,_⟩ | ⟨hsame,_⟩ | ⟨hsame,_⟩
  · exact hb ▸ account?_grow ha b
  · rwa [hsame]
  · rwa [hsame]

theorem step_registers {e : AppEvent} (h : s.step canon e = some t) {a : Account}
    (ha : account? s.accounts u = some a) {w : Write} (hw : w ∈ t.inFlight)
    (hreg : w.Registers u) : w ∈ s.inFlight := by
  rcases step_cases h with ⟨b,hfresh,_,_,hfly⟩ | ⟨_,_,hfly⟩ | ⟨_,i,v,time,_,_,hfly⟩
  · rw [hfly] at hw
    refine (List.mem_append.mp hw).resolve_right fun hnew => ?_
    obtain rfl := List.mem_singleton.mp hnew
    have hne := (hfresh a (List.mem_of_find?_eq_some ha)).1
    exact hne ((uid_of_account? ha).trans (uid_of_registration hreg).symm)
  · exact (hfly w hw).resolve_right fun hnone => hnone u hreg
  · rw [hfly] at hw
    exact List.mem_of_mem_eraseIdx hw

theorem step_missing {e : AppEvent} (h : s.step canon e = some t)
    (hmissing : s.store.lookup ⟨usuarios,u⟩ = none)
    (hnone : ∀ w ∈ s.inFlight, ¬ w.Registers u) : t.store.lookup ⟨usuarios,u⟩ = none := by
  rcases step_cases h with ⟨_,_,_,hstore,_⟩ | ⟨_,hstore,_⟩ | ⟨_,i,w,time,hw,hstore,_⟩
  · rwa [hstore]
  · rwa [hstore]
  · rw [hstore]
    by_cases hp : ⟨usuarios,u⟩ = w.path
    · cases w with
      | setData path data =>
        obtain rfl : ⟨usuarios,u⟩ = path := hp
        exact absurd ⟨data,rfl⟩ (hnone _ (List.mem_of_getElem? hw))
      | updateData path data =>
        obtain rfl : ⟨usuarios,u⟩ = path := hp
        simp [Store.commit,hmissing]
    · rwa [Store.lookup_commit_of_ne hp]

theorem step_commit {i time : ℕ} {w : Write} (hw : s.inFlight[i]? = some w) (htime : s.clock < time) :
    s.step canon (.commit i time) = some { s with
      store := s.store.commit time w
      clock := time
      inFlight := s.inFlight.eraseIdx i } := by
  simp [step,hw,htime]

theorem exec_missing {es : List AppEvent} (run : (app canon).exec s es = some t) {a : Account}
    (ha : account? s.accounts u = some a) (hmissing : s.store.lookup ⟨usuarios,u⟩ = none)
    (hnone : ∀ w ∈ s.inFlight, ¬ w.Registers u) : t.store.lookup ⟨usuarios,u⟩ = none := by
  have hkeep := Machine.exec_invariant (m := app canon) (P := fun s =>
    account? s.accounts u = some a ∧ s.store.lookup ⟨usuarios,u⟩ = none ∧
      ∀ w ∈ s.inFlight, ¬ w.Registers u) ?_ ⟨ha,hmissing,hnone⟩ run
  · exact hkeep.2.1
  · rintro s e t ⟨ha,hmissing,hnone⟩ h
    exact ⟨step_account h ha,step_missing h hmissing hnone,
      fun w hw hreg => hnone w (step_registers h ha hw hreg) hreg⟩

theorem Reachable.registration (hs : (app canon).Reachable s) {w : Write} (hw : w ∈ s.inFlight)
    (hreg : w.Registers u) : ∃ a, account? s.accounts u = some a ∧ w = App.registration a := by
  have hkeep := hs.invariant (P := fun s => ∀ w ∈ s.inFlight, ∀ u, w.Registers u →
    ∃ a, account? s.accounts u = some a ∧ w = App.registration a) (by simp [app,start]) ?_
  · exact hkeep w hw u hreg
  · intro s e t ih h w hw u hreg
    have hold : w ∈ s.inFlight → ∃ a, account? t.accounts u = some a ∧ w = App.registration a := by
      intro hw
      obtain ⟨a,ha,hwa⟩ := ih w hw u hreg
      exact ⟨a,step_account h ha,hwa⟩
    rcases step_cases h with ⟨a,hfresh,haccounts,_,hfly⟩ | ⟨_,_,hfly⟩ | ⟨_,i,v,time,_,_,hfly⟩
    · rw [hfly] at hw
      rcases List.mem_append.mp hw with hw | hw
      · exact hold hw
      · obtain rfl := List.mem_singleton.mp hw
        exact ⟨a,by rw [haccounts,← uid_of_registration hreg,account?_new hfresh],rfl⟩
    · exact hold ((hfly w hw).resolve_right fun hnone => hnone u hreg)
    · rw [hfly] at hw
      exact hold (List.mem_of_mem_eraseIdx hw)

end App

/-- An account whose document is missing gets one on some later run exactly if the write of
its registration is still in flight; accepting that write stores what was typed. -/
theorem half_registered {canon : String → String} {s : App} (hs : (app canon).Reachable s)
    {uid : String} {a : Account} (ha : account? s.accounts uid = some a)
    (hmissing : s.store.lookup ⟨usuarios,uid⟩ = none) :
    ((∃ es t, (app canon).exec s es = some t ∧ (t.store.lookup ⟨usuarios,uid⟩).isSome) ↔
      ∃ w ∈ s.inFlight, w.Registers uid) ∧
    ∀ i w, s.inFlight[i]? = some w → w.Registers uid → ∃ t d,
      (app canon).exec s [.commit i (s.clock+1)] = some t ∧
        t.store.lookup ⟨usuarios,uid⟩ = some d ∧ a.Stored d := by
  have hcommit : ∀ i w, s.inFlight[i]? = some w → w.Registers uid → ∃ t d,
      (app canon).exec s [.commit i (s.clock+1)] = some t ∧
        t.store.lookup ⟨usuarios,uid⟩ = some d ∧ a.Stored d := by
    intro i w hw hreg
    obtain ⟨b,hb,rfl⟩ := App.Reachable.registration hs (List.mem_of_getElem? hw) hreg
    obtain rfl : b = a := Option.some.inj (hb.symm.trans ha)
    obtain rfl := uid_of_account? ha
    have hstep := @App.step_commit canon _ _ _ _ hw (Nat.lt_succ_self s.clock)
    refine ⟨_,_,Machine.exec_cons_eq.mpr ⟨_,hstep,rfl⟩,Store.lookup_commit_setData _ _ _ _,?_⟩
    simp only [Account.Stored,Dict.string?_resolve]
    exact ⟨rfl,rfl,rfl⟩
  refine ⟨⟨?_,?_⟩,hcommit⟩
  · rintro ⟨es,t,run,hsome⟩
    by_contra hnone
    have hnone' : ∀ w ∈ s.inFlight, ¬ w.Registers uid := fun w hw hreg => hnone ⟨w,hw,hreg⟩
    rw [App.exec_missing run ha hmissing hnone'] at hsome
    simp at hsome
  · rintro ⟨w,hw,hreg⟩
    obtain ⟨i,hi⟩ := List.getElem?_of_mem hw
    obtain ⟨t,d,run,hd,_⟩ := hcommit i w hi hreg
    exact ⟨_,t,run,by simp [hd]⟩

def rejectedRegistration : List AppEvent := [.register "ana@x" "Ana" (.ok "u1"),.reject 0]

/-- The account is held and may sign in, but no run ever stores its document. -/
theorem half_registered_for_ever :
    ∃ s, (app id).exec App.start rejectedRegistration = some s ∧
      (account? s.accounts "u1").isSome ∧ s.store.lookup ⟨usuarios,"u1"⟩ = none ∧
      ∀ es t, (app id).exec s es = some t → t.store.lookup ⟨usuarios,"u1"⟩ = none := by
  refine ⟨_,rfl,rfl,rfl,fun es t run => ?_⟩
  exact App.exec_missing run rfl rfl (List.forall_mem_nil _)

/-- Before that write is settled, it still creates the document. -/
theorem half_registered_pending :
    ∃ s, (app id).exec App.start [.register "ana@x" "Ana" (.ok "u1")] = some s ∧
      ∃ es t, (app id).exec s es = some t ∧ (t.store.lookup ⟨usuarios,"u1"⟩).isSome := by
  refine ⟨_,rfl,?_⟩
  have h := @half_registered id _ ⟨[.register "ana@x" "Ana" (.ok "u1")],rfl⟩ "u1" _ rfl rfl
  exact h.1.mpr ⟨_,List.mem_singleton.mpr rfl,_,rfl⟩

end MessageApp
