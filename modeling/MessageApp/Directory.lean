import MessageApp.Authorship
import MessageApp.AddContact
import MessageApp.ContactList

/-! The users' directory. Every document of a user, and every contact copied from one, is what
the user typed at registration, but for the photo. Registration keeps the e-mails apart, so a
search finds at most one user, and its caller hears of one contact at most. -/
namespace MessageApp

/-- The document is the one of the registration on every key but the photo. -/
def Account.Profile (a : Account) (d : Dict) : Prop :=
  ∀ k, k ≠ "urlImagem" → d k = RegisterViewController.dadosUsuario a.nome a.email a.uid k

def profiles : Laws where
  doc A
    | .usuario u, d => ∃ a, account? A u = some a ∧ a.Profile d
    | .contato _ c, d => ∃ a, account? A c = some a ∧ a.Profile d
    | _, _ => True
  update _
    | .usuario _, d => ∀ k, k ≠ "urlImagem" → d k = none
    | _, _ => False
  consulta _ _ := True
  usuario _ _ := True
  contato _ _ _ _ := True
  conversa _ _ _ _ := True
  chat _ _ _ := True
  referencia _ := True

theorem RegisterViewController.dadosUsuario_resolve (now : ℕ) (nome email uid : String) :
    Dict.resolve now (dadosUsuario nome email uid) = dadosUsuario nome email uid := by
  simp [dadosUsuario,Dict.ofList,Value.resolve]

namespace Account.Profile

variable {a : Account} {d : Dict}

theorem resolve (h : a.Profile d) (now : ℕ) : a.Profile (Dict.resolve now d) := by
  intro k hk
  rw [← RegisterViewController.dadosUsuario_resolve now]
  simp only [Dict.resolve,h k hk]

theorem merge (h : a.Profile d) {new : Dict} (hnew : ∀ k, k ≠ "urlImagem" → new k = none) (now : ℕ) :
    a.Profile (Dict.merge d (Dict.resolve now new)) := by
  intro k hk
  simp [Dict.merge,Dict.resolve,hnew k hk,h k hk]

end Account.Profile

namespace profiles

theorem closed (canon : String → String) :
    Laws.Closed (.inf .top integrity) profiles canon Laws.noGuard where
  resolve A p d now h := by
    cases p with
    | usuario u => exact h.imp fun a ha => ⟨ha.1,ha.2.resolve now⟩
    | contato u c => exact h.imp fun a ha => ⟨ha.1,ha.2.resolve now⟩
    | _ => trivial
  merge A p old new now h hupdate := by
    cases p with
    | usuario u => exact h.imp fun a ha => ⟨ha.1,ha.2.merge hupdate now⟩
    | _ => exact hupdate.elim
  grow_doc A b p d _ h := by
    cases p with
    | usuario u => exact h.imp fun a ha => ⟨account?_grow ha.1 b,ha.2⟩
    | contato u c => exact h.imp fun a ha => ⟨account?_grow ha.1 b,ha.2⟩
    | _ => trivial
  grow_update A b p d _ h := by
    cases p <;> exact h
  grow_consulta _ _ _ _ _ := trivial
  grow_usuario _ _ _ _ _ := trivial
  grow_contato _ _ _ _ _ _ _ := trivial
  grow_conversa _ _ _ _ _ _ _ := trivial
  grow_chat _ _ _ _ _ _ := trivial
  register A a ha := ⟨a,account?_new ha,fun _ _ => rfl⟩
  signIn _ _ _ := trivial
  contato _ _ _ _ _ _ := trivial
  conversa _ _ _ _ _ _ := trivial
  push_contato _ _ _ _ _ _ := trivial
  push_conversa _ _ _ _ _ _ := trivial
  dadosUsuarioLogado _ _ _ _ _ _ _ _ := trivial
  mensagens _ _ _ _ _ _ := trivial
  send A u chat texto a b hu hc _ ha hb := by
    obtain ⟨hlogado,hcontato,_,_⟩ := hc.1.2
    exact Laws.write_actionPushMessage hlogado hcontato trivial trivial trivial trivial
  downloadURL A u url _ := by
    refine ⟨.usuario u.uid,rfl,fun k hk => ?_⟩
    simp [Dict.ofList,Dict.set,Dict.empty,hk]
  addContact _ _ _ _ _ _ _ := trivial
  salvarContato A q id d _ hd _ := Laws.write_salvarContato hd.1.2.2 hd.2
  ref_usuarios := trivial
  ref_contatos _ _ _ := trivial
  ref_conversas _ _ _ := trivial
  ref_perfil _ _ _ := trivial
  ref_escuta _ _ _ _ _ _ _ := trivial
  ref_write _ _ _ := trivial

theorem source {canon : String → String} {s : App} (hs : (app canon).Reachable s) :
    (integrity.inf profiles).Holds s :=
  ((integrity.closed canon).inf (closed canon)).reachable hs

theorem view {canon : String → String} {s : App} (hs : (app canon).Reachable s)
    (visible : List ℕ) : (integrity.inf profiles).Store s.accounts (s.view visible) :=
  ((integrity.closed canon).inf (closed canon)).view (source hs) visible

end profiles

def Apart (canon : String → String) (accounts : List Account) : Prop :=
  ∀ a ∈ accounts, ∀ b ∈ accounts, a.uid = b.uid ∨ canon a.email = canon b.email → a = b

namespace App

variable {canon : String → String} {s t : App}

theorem apart_step {e : AppEvent} (h : Apart canon s.accounts) (hstep : s.step canon e = some t) :
    Apart canon t.accounts := by
  rcases step_cases hstep with ⟨c,hfresh,hc,_⟩ | ⟨hsame,_⟩ | ⟨hsame,_⟩
  · rw [hc]
    have hnew : ∀ a ∈ s.accounts, ¬ (a.uid = c.uid ∨ canon a.email = canon c.email) :=
      fun a ha => not_or.mpr (hfresh a ha)
    intro a ha b hb hab
    rcases List.mem_append.mp ha with hold | hc <;> rcases List.mem_append.mp hb with hold' | hc'
    · exact h a hold b hold' hab
    · obtain rfl := List.mem_singleton.mp hc'
      exact absurd hab (hnew a hold)
    · obtain rfl := List.mem_singleton.mp hc
      exact absurd (hab.imp Eq.symm Eq.symm) (hnew b hold')
    · exact (List.mem_singleton.mp hc).trans (List.mem_singleton.mp hc').symm
  · exact hsame ▸ h
  · exact hsame ▸ h

theorem apart_reachable (hs : (app canon).Reachable s) : Apart canon s.accounts := by
  refine hs.invariant (P := fun s => Apart canon s.accounts) ?_ ?_
  · intro a ha
    exact absurd ha List.not_mem_nil
  · intro s e t h hstep
    exact apart_step h hstep

end App

theorem DocPath.eq_of {p q : DocPath} (hcollection : p.collection = q.collection) (hid : p.id = q.id) :
    p = q := by
  cases p
  cases q
  simp_all

theorem Store.documents_ids_nodup (store : Store) (collection : List String) :
    ((store.documents collection).map Prod.fst).Nodup := by
  have hkeys : ((store.entries.filter fun e => e.1.collection = collection).map Sigma.fst).Nodup :=
    (List.filter_sublist.map Sigma.fst).nodup store.nodupKeys
  refine (((documents_perm store collection).map Prod.fst).nodup_iff).mpr ?_
  rw [List.map_map]
  refine List.Nodup.map_on (fun e he f hf hid => ?_) hkeys.of_map
  have hcollection := (of_decide_eq_true (List.mem_filter.mp he).2).trans
    (of_decide_eq_true (List.mem_filter.mp hf).2).symm
  refine List.inj_on_of_nodup_map hkeys he hf ?_
  exact DocPath.eq_of hcollection hid

theorem length_le_one_of_keys {β : Type} {l : List (String × β)} (hnodup : (l.map Prod.fst).Nodup)
    (hone : ∀ a ∈ l, ∀ b ∈ l, a.1 = b.1) : l.length ≤ 1 := by
  match l with
  | [] => simp
  | [a] => simp
  | a::b::l =>
    have hab : a.1 = b.1 := hone a (by simp) b (by simp)
    simp [hab] at hnodup

section
variable {canon : String → String} {s : App}

theorem account_of_search (hs : (app canon).Reachable s) {visible : List ℕ} {email : String}
    {d : String × Dict} (hd : d ∈ ((s.view visible).documents usuarios).whereField "email" email) :
    ∃ a, account? s.accounts d.1 = some a ∧ a.email = email ∧ a.Profile d.2 := by
  obtain ⟨hdoc,hemail⟩ := List.mem_filter.mp hd
  obtain ⟨a,ha,hprofile⟩ :=
    (profiles.view hs visible (.usuario d.1) d.2 (Store.mem_documents.mp hdoc)).2
  refine ⟨a,ha,?_,hprofile⟩
  have hstored := (hprofile "email" (by decide)).symm.trans (of_decide_eq_true hemail)
  simpa [RegisterViewController.dadosUsuario,Dict.ofList,Dict.set] using hstored

theorem search_length (hs : (app canon).Reachable s) (visible : List ℕ) (email : String) :
    (((s.view visible).documents usuarios).whereField "email" email).length ≤ 1 := by
  refine length_le_one_of_keys ?_ fun d hd d' hd' => ?_
  · exact (List.filter_sublist.map Prod.fst).nodup (Store.documents_ids_nodup _ _)
  · obtain ⟨a,ha,hemail,_⟩ := account_of_search hs hd
    obtain ⟨b,hb,hemail',_⟩ := account_of_search hs hd'
    have hab := App.apart_reachable hs a (List.mem_of_find?_eq_some ha) b
      (List.mem_of_find?_eq_some hb) (.inr (by rw [hemail,hemail']))
    rw [← uid_of_account? ha,← uid_of_account? hb,hab]

end

namespace AddContact

/-- The query has completed, and the delegate has been told, or will be, once at most. -/
def Single (s : AddContact) : Prop := s.consulta = none ∧ s.avisos.length + s.pendentes.length ≤ 1

variable {s t : AddContact}

theorem Single.step {e : AddContactEvent} (h : s.Single) (hstep : s.step e = some t) : t.Single := by
  obtain ⟨hnone,hlength⟩ := h
  cases e with
  | resultado docs => simp [AddContact.step,hnone] at hstep
  | resposta i erro =>
    obtain ⟨hi,rfl⟩ := guarded hstep
    refine ⟨hnone,?_⟩
    have herase := List.length_eraseIdx_of_lt hi
    have haviso : (ContatoController.salvarContatoResultado erro).length ≤ 1 := by
      unfold ContatoController.salvarContatoResultado
      split <;> simp
    simp only [List.length_append,herase]
    omega

theorem single_of_resultado {email emailUsuarioLogado idUsuario : String} {docs : Option Snapshot}
    (hdocs : ∀ d ∈ docs, d.length ≤ 1)
    (hstep : (start email emailUsuarioLogado idUsuario).step (.resultado docs) = some t) :
    t.Single := by
  unfold start at hstep
  split at hstep
  · simp [AddContact.step] at hstep
  · rename_i q hq
    obtain rfl := Option.some.inj hstep
    dsimp only
    split
    · exact ⟨rfl,by simp⟩
    · rename_i ws hres
      refine ⟨rfl,?_⟩
      cases docs with
      | none =>
        obtain rfl : [] = ws := Except.ok.inj hres
        simp
      | some docs =>
        simp only [ContatoController.consultaResultado] at hres
        split at hres
        · simp at hres
        · obtain rfl := Except.ok.inj hres
          simpa using hdocs docs rfl

end AddContact

section
variable {canon : String → String} {s : App}

/-- In every reachable state every document of a user, and every contact stored for anybody, is
what its user typed at registration on every key but the photo, in the store and for every client
that already sees some writes in flight. -/
theorem profiles_copied (hs : (app canon).Reachable s) (visible : List ℕ) :
    (∀ u d, (s.view visible).lookup ⟨usuarios,u⟩ = some d →
      ∃ a ∈ s.accounts, a.uid = u ∧ a.Profile d) ∧
    ∀ u c d, (s.view visible).lookup ⟨contatos u,c⟩ = some d →
      ∃ a ∈ s.accounts, a.uid = c ∧ a.Profile d := by
  have hview := profiles.view hs visible
  refine ⟨fun u d hd => ?_,fun u c d hd => ?_⟩
  · obtain ⟨a,ha,hprofile⟩ := (hview (.usuario u) d hd).2
    exact ⟨a,List.mem_of_find?_eq_some ha,uid_of_account? ha,hprofile⟩
  · obtain ⟨a,ha,hprofile⟩ := (hview (.contato u c) d hd).2
    exact ⟨a,List.mem_of_find?_eq_some ha,uid_of_account? ha,hprofile⟩

theorem profiles_copied_bia :
    ∃ s d, (app id).exec App.start chatWithBia = some s ∧
      s.store.lookup ⟨contatos "u1","u2"⟩ = some d ∧ ∃ a ∈ s.accounts, a.uid = "u2" ∧ a.Profile d :=
  ⟨_,_,rfl,rfl,(@profiles_copied id _ ⟨chatWithBia,rfl⟩ []).2 "u1" "u2" _ rfl⟩

/-- In every reachable state a search by e-mail finds at most one user, the one registered with
it, and a call of `addContact` whose query is answered there tells its delegate once at most. -/
theorem search_finds_one (hs : (app canon).Reachable s) (email : String) (erro : Bool)
    (visible : List ℕ) :
    (∀ docs ∈ s.snapshotResultado email erro visible, docs.length ≤ 1 ∧
      ∀ d ∈ docs, ∃ a ∈ s.accounts, a.uid = d.1 ∧ a.email = email ∧ a.Profile d.2) ∧
    ∀ (emailUsuarioLogado idUsuario : String) (es : List AddContactEvent) (t : AddContact),
      (addContact email emailUsuarioLogado idUsuario).exec
        (AddContact.start email emailUsuarioLogado idUsuario)
        (.resultado (s.snapshotResultado email erro visible)::es) = some t →
      t.avisos.length ≤ 1 := by
  have hlength : ∀ docs ∈ s.snapshotResultado email erro visible, docs.length ≤ 1 :=
    fun docs hdocs => App.mem_snapshotResultado hdocs ▸ search_length hs visible email
  refine ⟨fun docs hdocs => ⟨hlength docs hdocs,fun d hd => ?_⟩,fun own uid es t run => ?_⟩
  · rw [App.mem_snapshotResultado hdocs] at hd
    obtain ⟨a,ha,hemail,hprofile⟩ := account_of_search hs hd
    exact ⟨a,List.mem_of_find?_eq_some ha,uid_of_account? ha,hemail,hprofile⟩
  · obtain ⟨u,hu,hut⟩ := Machine.exec_cons_eq.mp run
    have hsingle : t.Single := Machine.exec_invariant (fun _ _ _ h hstep => h.step hstep)
      (AddContact.single_of_resultado hlength hu) hut
    exact (Nat.le_add_right _ _).trans hsingle.2

theorem search_finds_one_bia :
    ∃ s docs, (app id).exec App.start chatWithBia = some s ∧
      s.snapshotResultado "bia@x" false [] = some docs ∧ docs.length = 1 ∧
      ∀ d ∈ docs, ∃ a ∈ s.accounts, a.uid = d.1 ∧ a.email = "bia@x" ∧ a.Profile d.2 :=
  ⟨_,_,rfl,rfl,rfl,((@search_finds_one id _ ⟨chatWithBia,rfl⟩ "bia@x" false []).1 _ rfl).2⟩

end
end MessageApp
