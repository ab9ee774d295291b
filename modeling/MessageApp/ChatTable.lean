import MessageApp.ChatController
import MessageApp.Runs

/-! The table of the chat. It keeps the row count of its last reload, while the listener
replaces the messages on every event and reloads only when it is given a snapshot. -/
namespace MessageApp

variable {CGFloat : Type} [Add CGFloat] [NatCast CGFloat]

/-- `none` is the trap of an index out of range. The text measure `heightWithConstrainedWidth`
is not part of the app. -/
def ChatViewController.heightForRowAt (heightWithConstrainedWidth : ℕ → String → CGFloat)
    (vc : ChatViewController) (indice : ℕ) : Option CGFloat :=
  vc.listaMensagens[indice]?.map fun dados =>
    ((65 : ℕ) : CGFloat) + heightWithConstrainedWidth 220 (dados.texto.getD "")

/-- `linhas` is what `numberOfRowsInSection` returned at the last reload, and `recarregadas`
the messages at that moment, which nothing keeps. -/
structure ChatTable where
  vc : ChatViewController
  linhas : ℕ
  recarregadas : List Message
  ativos : List ℕ
  mensagensListener : Option ℕ
  registros : ℕ

inductive ChatTableEvent
  | viewWillAppear
  | viewWillDisappear
  /-- A registration that has not been removed fires; an error delivers no snapshot. -/
  | snapshot (registro : ℕ) (querySnapshot : Option Snapshot)

namespace ChatTable

def start (contato : Contact) (currentUser : Option String) : ChatTable :=
  ⟨ChatViewController.viewDidLoad contato currentUser,0,[],[],none,0⟩

def reload (s : ChatTable) : ChatTable :=
  { s with linhas := s.vc.numberOfRowsInSection, recarregadas := s.vc.listaMensagens }

def step (s : ChatTable) : ChatTableEvent → Option ChatTable
  | .viewWillAppear =>
    match s.vc.addListenerRecuperarMensagens with
    | none => some s
    | some _ => some { s with
        ativos := s.ativos ++ [s.registros]
        mensagensListener := some s.registros
        registros := s.registros+1 }
  | .viewWillDisappear =>
    match s.mensagensListener with
    | none => some s
    | some registro => some { s with ativos := s.ativos.filter fun r => r ≠ registro }
  | .snapshot registro querySnapshot =>
    if registro ∈ s.ativos then
      let s := { s with vc := s.vc.mensagensSnapshot querySnapshot }
      match querySnapshot with
      | none => some s
      | some _ => some s.reload
    else none

/-- Every row of the table reads the message it was loaded with, for its cell and its height. -/
def InRange (heightWithConstrainedWidth : ℕ → String → CGFloat) (s : ChatTable) : Prop :=
  ∀ r, r < s.linhas → ∃ m, s.recarregadas[r]? = some m ∧
    (s.vc.cellForRowAt r).map Prod.snd = some m ∧
    s.vc.heightForRowAt heightWithConstrainedWidth r =
      some (((65 : ℕ) : CGFloat) + heightWithConstrainedWidth 220 (m.texto.getD ""))

def NoRows (s : ChatTable) : ChatTableEvent → Prop
  | .snapshot _ none => s.linhas = 0
  | _ => True

instance (s : ChatTable) (e : ChatTableEvent) : Decidable (NoRows s e) := by
  unfold NoRows
  split <;> infer_instance

end ChatTable

def chatTable (contato : Contact) (currentUser : Option String) : Machine ChatTable ChatTableEvent :=
  ⟨ChatTable.start contato currentUser,ChatTable.step⟩

namespace ChatViewController

variable {vc : ChatViewController} {heightWithConstrainedWidth : ℕ → String → CGFloat}

theorem cellForRowAt_message (r : ℕ) :
    (vc.cellForRowAt r).map Prod.snd = vc.listaMensagens[r]? := by
  cases hrow : vc.listaMensagens[r]? with
  | none => simp [cellForRowAt,hrow]
  | some m =>
    simp only [cellForRowAt,hrow,Option.map_some]
    split <;> rfl

end ChatViewController

namespace ChatTable

variable {s t : ChatTable} {heightWithConstrainedWidth : ℕ → String → CGFloat}

theorem inRange_iff (h : s.linhas = s.recarregadas.length) :
    s.InRange heightWithConstrainedWidth ↔
      ∀ r, r < s.recarregadas.length → s.vc.listaMensagens[r]? = s.recarregadas[r]? := by
  simp only [InRange,h,ChatViewController.cellForRowAt_message]
  refine forall_congr' fun r => forall_congr' fun hr => ?_
  constructor
  · rintro ⟨m,hm,hcell,_⟩
    rw [hm,hcell]
  · intro heq
    have hm : s.recarregadas[r]? = some s.recarregadas[r] := List.getElem?_eq_getElem hr
    refine ⟨s.recarregadas[r],hm,heq.trans hm,?_⟩
    simp [ChatViewController.heightForRowAt,heq.trans hm]

/-- Everything one step can do: only the listener touches the messages, and only with a
snapshot does it reload. -/
theorem step_cases {e : ChatTableEvent} (h : s.step e = some t) :
    (s.NoRows e ∧ t.vc = s.vc ∧ t.linhas = s.linhas ∧ t.recarregadas = s.recarregadas) ∨
    (∃ registro, e = .snapshot registro none ∧ t = { s with vc := s.vc.mensagensSnapshot none }) ∨
    ∃ registro docs, e = .snapshot registro (some docs) ∧
      t = reload { s with vc := s.vc.mensagensSnapshot (some docs) } := by
  cases e with
  | viewWillAppear =>
    simp only [step] at h
    split at h <;> obtain rfl := Option.some.inj h <;> exact .inl ⟨trivial,rfl,rfl,rfl⟩
  | viewWillDisappear =>
    simp only [step] at h
    split at h <;> obtain rfl := Option.some.inj h <;> exact .inl ⟨trivial,rfl,rfl,rfl⟩
  | snapshot registro docs =>
    obtain ⟨_,h⟩ := Option.ite_none_right_eq_some.mp h
    cases docs with
    | none => exact .inr (.inl ⟨registro,rfl,(Option.some.inj h).symm⟩)
    | some docs => exact .inr (.inr ⟨registro,docs,rfl,(Option.some.inj h).symm⟩)

theorem linhas_step {e : ChatTableEvent} (h : s.linhas = s.recarregadas.length)
    (hstep : s.step e = some t) : t.linhas = t.recarregadas.length := by
  rcases step_cases hstep with ⟨_,_,hlinhas,hrecarregadas⟩ | ⟨_,_,rfl⟩ | ⟨_,_,_,rfl⟩
  · rw [hlinhas,hrecarregadas,h]
  · exact h
  · rfl

theorem inRange_step {e : ChatTableEvent} (h : s.linhas = s.recarregadas.length)
    (hs : s.InRange heightWithConstrainedWidth) (hstep : s.step e = some t) :
    t.InRange heightWithConstrainedWidth ↔ s.NoRows e := by
  have ht := linhas_step h hstep
  rcases step_cases hstep with ⟨hnone,hvc,hlinhas,hrecarregadas⟩ | ⟨_,rfl,rfl⟩ | ⟨_,_,rfl,rfl⟩
  · refine iff_of_true ?_ hnone
    rw [InRange,hvc,hlinhas,hrecarregadas]
    exact hs
  · rw [inRange_iff ht]
    -- the list is empty now, so a row is in range only if there is none
    show (∀ r, r < s.recarregadas.length → ([] : List Message)[r]? = s.recarregadas[r]?) ↔
      s.linhas = 0
    rw [h]
    constructor
    · intro hall
      by_contra hne
      have hpos : 0 < s.recarregadas.length := Nat.pos_of_ne_zero hne
      have hrow := hall 0 hpos
      simp [List.getElem?_eq_getElem hpos] at hrow
    · intro hzero r hr
      omega
  · rw [inRange_iff ht]
    exact iff_of_true (fun _ _ => rfl) trivial

end ChatTable

/-- In a run of the chat screen every row of the table always reads the message it was loaded
with exactly if every error that reaches the listener finds a table without rows. -/
theorem chat_rows_in_range (heightWithConstrainedWidth : ℕ → String → CGFloat) (contato : Contact)
    (currentUser : Option String) {es : List ChatTableEvent} {s : ChatTable}
    (run : (chatTable contato currentUser).exec (ChatTable.start contato currentUser) es = some s) :
    (chatTable contato currentUser).Throughout (ChatTable.InRange heightWithConstrainedWidth)
        (ChatTable.start contato currentUser) es ↔
      (chatTable contato currentUser).Along ChatTable.NoRows (ChatTable.start contato currentUser)
        es := by
  refine Machine.throughout_iff_along (I := fun s => s.linhas = s.recarregadas.length)
    (fun _ _ _ h hstep => ChatTable.linhas_step h hstep)
    (fun _ _ _ h hs hstep => ChatTable.inRange_step h hs hstep) rfl ?_ run
  intro r hr
  exact absurd hr (Nat.not_lt_zero r)

def biaPeer : Contact := ⟨some "u2",some "Bia",none⟩

/-- One message and then an error. -/
def errorAfterMessage : List ChatTableEvent :=
  [.viewWillAppear,.snapshot 0 (some [("m1",mensagemDict "u2" "Oi")]),.snapshot 0 none]

theorem chat_row_out_of_range :
    ∃ s, (chatTable biaPeer (some "u1")).exec (ChatTable.start biaPeer (some "u1"))
        errorAfterMessage = some s ∧ s.linhas = 1 ∧ s.vc.cellForRowAt 0 = none ∧
      s.vc.heightForRowAt (fun _ texto => texto.length) 0 = none ∧
      ¬ s.InRange fun _ texto => texto.length := by
  refine ⟨_,rfl,rfl,rfl,rfl,fun h => ?_⟩
  obtain ⟨m,_,hcell,_⟩ := h 0 (by decide)
  exact absurd hcell (by simp [ChatViewController.cellForRowAt_message,
    ChatViewController.mensagensSnapshot])

theorem chat_rows_in_range_bia :
    (chatTable biaPeer (some "u1")).Throughout
      (ChatTable.InRange fun _ texto => texto.length) (ChatTable.start biaPeer (some "u1"))
      [.viewWillAppear,.snapshot 0 none,.snapshot 0 (some [("m1",mensagemDict "u2" "Oi")])] :=
  (@chat_rows_in_range ℕ _ _ (fun _ texto => texto.length) biaPeer (some "u1")
    [.viewWillAppear,.snapshot 0 none,.snapshot 0 (some [("m1",mensagemDict "u2" "Oi")])] _
    rfl).mpr (Machine.along_of_check (by decide))

end MessageApp
