import MessageApp.Integrity

/-! Nobody is their own contact, as long as nobody searches for the e-mail they typed at their
own registration, where Auth reports it in another spelling: `addContact` compares what is
typed with the spelling of Auth, the query compares it with the stored one. -/
namespace MessageApp

def emailDe (accounts : List Account) (uid : String) : Option String :=
  (account? accounts uid).map Account.email

/-- The law of e-mails. A query in flight is not for the e-mail of the user who asked. -/
def emails (canon : String → String) : Laws where
  doc A
    | .usuario u, d => ∃ e, emailDe A u = some e ∧ Dict.string? d "email" = some e
    | .contato u c, _ => c ≠ u
    | _, _ => True
  update _
    | .usuario _, d => d "email" = none
    | _, _ => False
  consulta A q := ∃ e, emailDe A q.idUsuario = some e ∧ q.email ≠ e
  usuario A u := ∃ e, emailDe A u.uid = some e ∧ u.email = some (canon e)
  contato _ _ _ _ := True
  conversa _ _ _ _ := True
  chat _ _ _ := True
  referencia _ := True

/-- Who types the e-mail of their own registration had typed it as Auth spells it. -/
def ownSpelling (canon : String → String) : Guard where
  send _ _ _ := True
  addContact A u texto := ∀ e ∈ emailDe A u.uid, texto = e → canon e = e

instance (canon : String → String) (A : List Account) (u : AuthUser) (chat : ChatScreen) :
    Decidable ((ownSpelling canon).send A u chat) := inferInstanceAs (Decidable True)

instance (canon : String → String) (A : List Account) (u : AuthUser) (texto : String) :
    Decidable ((ownSpelling canon).addContact A u texto) :=
  inferInstanceAs (Decidable (∀ e ∈ emailDe A u.uid, texto = e → canon e = e))

namespace emails

variable {canon : String → String} {A : List Account}

theorem addContact {u : AuthUser} {texto : String} {q : Consulta}
    (hu : (emails canon).usuario A u) (hg : (ownSpelling canon).addContact A u texto)
    (hq : ContatoController.addContact texto (u.email.getD "") u.uid = .ok q) :
    (emails canon).consulta A q := by
  obtain ⟨e,he,hemail⟩ := hu
  unfold ContatoController.addContact at hq
  split at hq
  · simp at hq
  · rename_i hne
    obtain rfl := Except.ok.inj hq
    refine ⟨e,he,fun htexto => hne ?_⟩
    have hown : texto = e := htexto
    simp [hemail,hg e he hown,hown]

theorem salvarContato {q : Consulta} {id : String} {d : Dict} (hq : (emails canon).consulta A q)
    (hd : (emails canon).doc A (.usuario id) d) (hemail : d "email" = some (.string q.email)) :
    id ≠ q.idUsuario := by
  rintro rfl
  obtain ⟨e,he,hne⟩ := hq
  obtain ⟨e',he',hstored⟩ := hd
  have hsame : e' = e := Option.some.inj (he'.symm.trans he)
  have hfound : q.email = e' := by simpa [Dict.string?,hemail,Value.asString] using hstored
  exact hne (hfound.trans hsame)

theorem closed (canon : String → String) :
    Laws.Closed (.inf .top integrity) (emails canon) canon (ownSpelling canon) where
  resolve A p d now h := by
    cases p with
    | usuario u =>
      obtain ⟨e,he,hstored⟩ := h
      exact ⟨e,he,by simpa using hstored⟩
    | _ => exact h
  merge A p old new now h hupdate := by
    cases p with
    | usuario u =>
      obtain ⟨e,he,hstored⟩ := h
      have hemail : new "email" = none := hupdate
      exact ⟨e,he,(Dict.string?_merge_of_none now hemail).trans hstored⟩
    | _ => exact hupdate.elim
  grow_doc A a p d _ h := by
    cases p with
    | usuario u =>
      obtain ⟨e,he,hstored⟩ := h
      exact ⟨e,account?_map_grow he a,hstored⟩
    | _ => exact h
  grow_update A a p d _ h := by
    cases p <;> exact h
  grow_consulta A a q _ h := by
    obtain ⟨e,he,hne⟩ := h.2
    exact ⟨e,account?_map_grow he a,hne⟩
  grow_usuario A a u _ h := by
    obtain ⟨e,he,hemail⟩ := h
    exact ⟨e,account?_map_grow he a,hemail⟩
  grow_contato _ _ _ _ _ _ _ := trivial
  grow_conversa _ _ _ _ _ _ _ := trivial
  grow_chat _ _ _ _ _ _ := trivial
  register A a ha := ⟨a.email,by simp [emailDe,account?_new ha],rfl⟩
  signIn A a ha := ⟨a.email,by simp [emailDe,ha],rfl⟩
  contato _ _ _ _ _ _ := trivial
  conversa _ _ _ _ _ _ := trivial
  push_contato _ _ _ _ _ _ := trivial
  push_conversa _ _ _ _ _ _ := trivial
  dadosUsuarioLogado _ _ _ _ _ _ _ _ := trivial
  mensagens _ _ _ _ _ _ := trivial
  send A u chat texto a b hu hc _ ha hb := by
    obtain ⟨hlogado,hcontato,_,_⟩ := hc.1.2
    exact Laws.write_actionPushMessage hlogado hcontato trivial trivial trivial trivial
  downloadURL A u url _ := ⟨.usuario u.uid,rfl,rfl⟩
  addContact A u texto q hu hg hq := addContact hu.2 hg hq
  salvarContato A q id d hq hd hemail :=
    Laws.write_salvarContato hd.1.2.2 (salvarContato hq.2 hd.2 hemail)
  ref_usuarios := trivial
  ref_contatos _ _ _ := trivial
  ref_conversas _ _ _ := trivial
  ref_perfil _ _ _ := trivial
  ref_escuta _ _ _ _ _ _ _ := trivial
  ref_write _ _ _ := trivial

end emails

def NoSelfContact (s : App) : Prop := ∀ u, s.store.lookup ⟨contatos u,u⟩ = none

/-- In a run in which nobody searches for their own e-mail as they typed it, unless Auth spells
it the same way, nobody is ever their own contact. -/
theorem no_self_contact {canon : String → String} {es : List AppEvent} {s : App}
    (run : (app canon).exec App.start es = some s)
    (hg : (app canon).Along (Laws.Guarded (ownSpelling canon)) App.start es) :
    (app canon).Throughout NoSelfContact App.start es := by
  refine ((integrity.closed canon).inf (emails.closed canon)).throughout run hg ?_
  intro t ht u
  by_contra hne
  obtain ⟨d,hd⟩ := Option.ne_none_iff_exists'.mp hne
  exact (ht.store (.contato u u) d hd).2 rfl

def minusculas (email : String) : String := String.ofList (email.toList.map Char.toLower)

theorem toLower_of_not {c : Char} (h : ¬(c.val ≥ 'A'.val ∧ c.val ≤ 'Z'.val)) : c.toLower = c :=
  dif_neg h

theorem toLower_toLower (c : Char) : c.toLower.toLower = c.toLower := by
  by_cases h : c.val ≥ 'A'.val ∧ c.val ≤ 'Z'.val
  · have hlower : c.toLower.val = c.val + ('a'.val - 'A'.val) := by
      unfold Char.toLower
      rw [dif_pos h]
    refine toLower_of_not ?_
    rw [hlower]
    simp only [ge_iff_le,UInt32.le_iff_toNat_le,UInt32.toNat_add] at h ⊢
    have hA : 'A'.val.toNat = 65 := rfl
    have hZ : 'Z'.val.toNat = 90 := rfl
    have hd : ('a'.val - 'A'.val).toNat = 32 := rfl
    omega
  · rw [toLower_of_not h,toLower_of_not h]

theorem minusculas_minusculas (email : String) : minusculas (minusculas email) = minusculas email := by
  have hcomp : Char.toLower ∘ Char.toLower = Char.toLower := funext toLower_toLower
  simp [minusculas,hcomp]

/-- A user who registers with a capital letter and then types that same e-mail. -/
def ownEmail : List AppEvent :=
  [.register "Ana@x" "Ana" (.ok "u1"),.commit 0 1,.signIn "u1",.client 0 (.tab .contact) [],
    .client 0 (.contatos 0 false) [],.client 0 (.select 0 "Ana@x") [],.consulta 0 false [],
    .commit 0 2]

theorem no_self_contact_capital :
    (∀ email, minusculas (minusculas email) = minusculas email) ∧
    ∃ s, (app minusculas).exec App.start ownEmail = some s ∧
      (s.store.lookup ⟨contatos "u1","u1"⟩).isSome :=
  ⟨minusculas_minusculas,_,rfl,by decide⟩

theorem no_self_contact_bia :
    (app minusculas).Throughout NoSelfContact App.start (chatWithBia ++ firstMessage) := by
  refine @no_self_contact minusculas (chatWithBia ++ firstMessage) _ rfl ?_
  exact Machine.along_of_check (by decide +kernel)

end MessageApp
