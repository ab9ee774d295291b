import MessageApp.AccountControllers
import MessageApp.Runs

/-! One call of `addContact` with the callbacks it leads to: the completion of the query and
one completion for each contact written, in any order. -/
namespace MessageApp

/-- What the delegate of `ContatoController` is told. -/
inductive ContatoAviso
  | alertStateError (e : AlertStateError)
  | successContato
  deriving DecidableEq

/-- The completion of the write in `salvarContato`. -/
def ContatoController.salvarContatoResultado (erro : Option ℤ) : List ContatoAviso :=
  if erro = none then [.successContato] else []

/-- The query and the writes whose callbacks have not fired, what the delegate was told, and,
for the statements below, what the callbacks that have fired were given. -/
structure AddContact where
  consulta : Option Consulta
  pendentes : List Write
  avisos : List ContatoAviso
  resultado : Option (Option Snapshot)
  erros : List (Option ℤ)

inductive AddContactEvent
  | resultado (snapshotResultado : Option Snapshot)
  | resposta (i : ℕ) (erro : Option ℤ)

namespace AddContact

def start (email emailUsuarioLogado idUsuario : String) : AddContact :=
  match ContatoController.addContact email emailUsuarioLogado idUsuario with
  | .error e => ⟨none,[],[.alertStateError e],none,[]⟩
  | .ok q => ⟨some q,[],[],none,[]⟩

def step (s : AddContact) : AddContactEvent → Option AddContact
  | .resultado docs => s.consulta.map fun q =>
    match ContatoController.consultaResultado q.idUsuario docs with
    | .error e =>
      { s with consulta := none, avisos := s.avisos ++ [.alertStateError e], resultado := some docs }
    | .ok ws => { s with consulta := none, pendentes := ws, resultado := some docs }
  | .resposta i erro =>
    if i < s.pendentes.length then
      some { s with
        pendentes := s.pendentes.eraseIdx i
        avisos := s.avisos ++ ContatoController.salvarContatoResultado erro
        erros := s.erros ++ [erro] }
    else none

def Done (s : AddContact) : Prop := s.consulta = none ∧ s.pendentes = []

def AllStored (s : AddContact) : Prop :=
  (∃ d docs, s.resultado = some (some (d::docs))) ∧ ∀ erro ∈ s.erros, erro = none

/-- The delegate was told once, and of the right outcome. -/
def ReportedOnce (s : AddContact) : Prop :=
  (s.AllStored → s.avisos = [.successContato]) ∧
    (¬ s.AllStored → ∃ e, s.avisos = [.alertStateError e])

/-- The stages of a call, each with what the delegate has been told by then. -/
inductive Stage (proprio : Prop) : AddContact → Prop
  | recusado (h : proprio) (e : AlertStateError) :
    Stage proprio ⟨none,[],[.alertStateError e],none,[]⟩
  | consultando (h : ¬ proprio) (q : Consulta) : Stage proprio ⟨some q,[],[],none,[]⟩
  | semResultado (h : ¬ proprio) : Stage proprio ⟨none,[],[],some none,[]⟩
  | naoCadastrado (h : ¬ proprio) (e : AlertStateError) :
    Stage proprio ⟨none,[],[.alertStateError e],some (some []),[]⟩
  | gravando (h : ¬ proprio) {docs : Snapshot} (hdocs : docs ≠ []) {ws : List Write}
    {erros : List (Option ℤ)} (hlength : ws.length + erros.length = docs.length) :
    Stage proprio
      ⟨none,ws,List.replicate (erros.count none) .successContato,some (some docs),erros⟩

end AddContact

def addContact (email emailUsuarioLogado idUsuario : String) : Machine AddContact AddContactEvent :=
  ⟨AddContact.start email emailUsuarioLogado idUsuario,AddContact.step⟩

namespace AddContact

variable {s t : AddContact} {proprio : Prop}

theorem stage_start (email emailUsuarioLogado idUsuario : String) :
    Stage (email = emailUsuarioLogado) (start email emailUsuarioLogado idUsuario) := by
  by_cases h : email = emailUsuarioLogado
  · simp only [start,ContatoController.addContact,if_pos h]
    exact .recusado h _
  · simp only [start,ContatoController.addContact,if_neg h]
    exact .consultando h _

theorem replicate_resposta (erros : List (Option ℤ)) (erro : Option ℤ) :
    List.replicate (erros.count none) ContatoAviso.successContato ++
        ContatoController.salvarContatoResultado erro =
      List.replicate ((erros ++ [erro]).count none) .successContato := by
  cases erro with
  | none => simp [ContatoController.salvarContatoResultado,List.replicate_add]
  | some codigo => simp [ContatoController.salvarContatoResultado]

theorem Stage.step {e : AddContactEvent} (h : Stage proprio s) (hstep : s.step e = some t) :
    Stage proprio t := by
  cases e with
  | resultado docs =>
    cases h with
    | consultando hproprio q =>
      obtain rfl := Option.some.inj hstep
      cases docs with
      | none => exact .semResultado hproprio
      | some docs =>
        cases docs with
        | nil => exact .naoCadastrado hproprio _
        | cons d docs => exact @Stage.gravando proprio hproprio (d::docs) (List.cons_ne_nil d docs) _ [] (by simp)
    | _ => simp [AddContact.step] at hstep
  | resposta i erro =>
    obtain ⟨hi,rfl⟩ := guarded hstep
    cases h with
    | @gravando hproprio docs hdocs ws erros hlength =>
      rw [replicate_resposta]
      refine .gravando hproprio hdocs ?_
      show (ws.eraseIdx i).length+(erros ++ [erro]).length = docs.length
      have herase : (ws.eraseIdx i).length+1 = ws.length := List.length_eraseIdx_add_one hi
      rw [List.length_append,List.length_singleton]
      omega
    | _ => exact absurd hi (Nat.not_lt_zero i)

/-- When every document found has been answered for, the delegate was told once of success
exactly if there was one document and it was stored. -/
theorem reportedOnce_gravando {docs : Snapshot} {erros : List (Option ℤ)} (hdocs : docs ≠ [])
    (hlength : erros.length = docs.length) :
    ReportedOnce ⟨none,[],List.replicate (erros.count none) .successContato,some (some docs),erros⟩ ↔
      (∃ d, docs = [d]) ∧ erros = [none] := by
  constructor
  · rintro ⟨hstored,hfailed⟩
    by_cases hall : ∀ erro ∈ erros, erro = none
    · obtain ⟨d,rest,rfl⟩ := List.exists_cons_of_ne_nil hdocs
      have hone := hstored ⟨⟨d,rest,rfl⟩,hall⟩
      have hcount : erros.count none = erros.length :=
        List.count_eq_length.mpr fun erro herro => (hall erro herro).symm
      have hlen : erros.length = 1 := by simpa [hcount] using congrArg List.length hone
      obtain ⟨erro,rfl⟩ := List.length_eq_one_iff.mp hlen
      rw [hall erro (List.mem_singleton_self erro)]
      exact ⟨List.length_eq_one_iff.mp (hlength.symm.trans hlen),rfl⟩
    · obtain ⟨e,he⟩ := hfailed fun hstored => hall hstored.2
      replace he : List.replicate (erros.count none) ContatoAviso.successContato =
        [.alertStateError e] := he
      have hmem : ContatoAviso.alertStateError e ∈
          List.replicate (erros.count none) ContatoAviso.successContato :=
        he ▸ List.mem_singleton_self (ContatoAviso.alertStateError e)
      exact absurd (List.eq_of_mem_replicate hmem) (by simp)
  · rintro ⟨⟨d,rfl⟩,rfl⟩
    refine ⟨fun _ => rfl,fun hnot => absurd ⟨⟨d,[],rfl⟩,?_⟩ hnot⟩
    simp

theorem Stage.reportedOnce (h : Stage proprio s) (hdone : s.Done) :
    s.ReportedOnce ↔ proprio ∨ s.resultado = some (some []) ∨
      (∃ d, s.resultado = some (some [d])) ∧ s.erros = [none] := by
  cases h with
  | recusado hproprio e =>
    refine iff_of_true ⟨fun hstored => ?_,fun _ => ⟨e,rfl⟩⟩ (.inl hproprio)
    simp [AllStored] at hstored
  | consultando hproprio q => simp [Done] at hdone
  | semResultado hproprio => simp [ReportedOnce,AllStored,hproprio]
  | naoCadastrado hproprio e =>
    refine iff_of_true ⟨fun hstored => ?_,fun _ => ⟨e,rfl⟩⟩ (.inr (.inl rfl))
    simp [AllStored] at hstored
  | gravando hproprio hdocs hlength =>
    obtain rfl := hdone.2
    rw [reportedOnce_gravando hdocs (by simpa using hlength)]
    simp [hproprio,hdocs]

end AddContact

/-- Once all callbacks of a call have fired, the delegate has been told once of the right
outcome exactly if the e-mail was the caller's own, or no user has it, or one document was
found and its write succeeded. -/
theorem add_contact_reported_once (email emailUsuarioLogado idUsuario : String)
    {es : List AddContactEvent} {s : AddContact}
    (run : (addContact email emailUsuarioLogado idUsuario).exec
      (AddContact.start email emailUsuarioLogado idUsuario) es = some s) (hdone : s.Done) :
    s.ReportedOnce ↔ email = emailUsuarioLogado ∨ s.resultado = some (some []) ∨
      (∃ d, s.resultado = some (some [d])) ∧ s.erros = [none] := by
  have hstage : AddContact.Stage (email = emailUsuarioLogado) s :=
    Machine.exec_invariant (fun _ _ _ h hstep => h.step hstep)
      (AddContact.stage_start email emailUsuarioLogado idUsuario) run
  exact hstage.reportedOnce hdone

/-- Two users with the e-mail of Bia. -/
def duasBias : Snapshot :=
  [("u2",Dict.ofList [("id",.string "u2"),("email",.string "bia@app.com")]),
    ("u3",Dict.ofList [("id",.string "u3"),("email",.string "bia@app.com")])]

/-- The query fails and the delegate is told nothing; the query finds two users and the
delegate is told twice. -/
theorem add_contact_misreported :
    (∃ s, (addContact "bia@app.com" "ana@app.com" "u1").exec
        (AddContact.start "bia@app.com" "ana@app.com" "u1") [.resultado none] = some s ∧ s.Done ∧
        s.avisos = [] ∧ ¬ s.ReportedOnce) ∧
    ∃ s, (addContact "bia@app.com" "ana@app.com" "u1").exec
        (AddContact.start "bia@app.com" "ana@app.com" "u1")
        [.resultado (some duasBias),.resposta 1 none,.resposta 0 none] = some s ∧ s.Done ∧
        s.avisos = [.successContato,.successContato] ∧ ¬ s.ReportedOnce := by
  constructor
  · refine ⟨⟨none,[],[],some none,[]⟩,rfl,⟨rfl,rfl⟩,rfl,fun h => ?_⟩
    obtain ⟨e,he⟩ := h.2 fun hstored => by simp [AddContact.AllStored] at hstored
    simp at he
  · refine ⟨⟨none,[],[.successContato,.successContato],some (some duasBias),[none,none]⟩,rfl,
      ⟨rfl,rfl⟩,rfl,fun h => ?_⟩
    have hone := h.1 ⟨⟨_,_,rfl⟩,by simp⟩
    simp at hone

theorem add_contact_reported_once_bia :
    ∃ s, (addContact "bia@app.com" "ana@app.com" "u1").exec
        (AddContact.start "bia@app.com" "ana@app.com" "u1")
        [.resultado (some (duasBias.take 1)),.resposta 0 none] = some s ∧ s.ReportedOnce := by
  refine ⟨_,rfl,?_⟩
  exact (@add_contact_reported_once "bia@app.com" "ana@app.com" "u1"
    [.resultado (some (duasBias.take 1)),.resposta 0 none] _ rfl ⟨rfl,rfl⟩).mpr
    (.inr (.inr ⟨⟨_,rfl⟩,rfl⟩))

end MessageApp
