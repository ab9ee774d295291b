import MessageApp.ChatController
import MessageApp.Runs

/-! The input field and the send button of the chat. The button follows the field's edits; a
send clears the field without an edit, so the send itself has to put the button right. -/
namespace MessageApp

structure ChatView where
  text : String
  isEnabled : Bool
  deriving DecidableEq

namespace ChatView

def start : ChatView := ⟨"",false⟩

/-- Fires on `editingChanged`. -/
def textFieldDidChange (v : ChatView) : ChatView :=
  if v.text = "" then { v with isEnabled := false } else { v with isEnabled := true }

def edit (v : ChatView) (text : String) : ChatView := textFieldDidChange { v with text := text }

/-- `inputMessageTextField.text = ""` from code, which fires no `editingChanged`. -/
def limparCaixa (v : ChatView) : ChatView := { v with text := "" }

def startPushMessage (v : ChatView) : ChatView := { v.limparCaixa with isEnabled := false }

end ChatView

structure ChatInput where
  vc : ChatViewController
  view : ChatView

namespace ChatInput

/-- The delegate's `actionPushMessage` on the view: each of its two `salvarMensagem` clears the
field, and without a contact id there is none. -/
def actionPushMessage (sc : ChatInput) (autoRemetente autoDestinatario : String) :
    ChatView × List Write :=
  let message := sc.view.text
  match sc.vc.idContato with
  | none => (sc.view,[])
  | some _ => (sc.view.limparCaixa.limparCaixa,
      sc.vc.actionPushMessage message autoRemetente autoDestinatario)

/-- `touchAnimation` of the button is not part of the sources; it runs first. -/
def sendBtnPressed (touchAnimation : ChatView → ChatView) (sc : ChatInput)
    (autoRemetente autoDestinatario : String) : ChatInput × List Write :=
  let sc := { sc with view := touchAnimation sc.view }
  let (view,writes) := sc.actionPushMessage autoRemetente autoDestinatario
  ({ sc with view := view.startPushMessage },writes)

def ButtonFollows (sc : ChatInput) : Prop := sc.view.isEnabled = true ↔ sc.view.text ≠ ""

end ChatInput

structure ChatInputs where
  screens : List ChatInput
  inFlight : List Write
  store : Store
  clock : ℕ

inductive ChatInputsEvent
  | viewDidLoad (contato : Contact) (currentUser : Option String)
  | editingChanged (k : ℕ) (text : String)
  | sendBtnPressed (k : ℕ) (autoRemetente autoDestinatario : String)
  | dadosUsuarioLogado (k : ℕ) (erro : Bool) (data : Option Dict)
  | mensagensSnapshot (k : ℕ) (querySnapshot : Option Snapshot)
  | commit (i time : ℕ)
  | reject (i : ℕ)

namespace ChatInputs

def start : ChatInputs := ⟨[],[],∅,0⟩

def put (s : ChatInputs) (k : ℕ) (r : ChatInput × List Write) : ChatInputs :=
  { s with screens := s.screens.set k r.1, inFlight := s.inFlight ++ r.2 }

def step (touchAnimation : ChatView → ChatView) (s : ChatInputs) : ChatInputsEvent → Option ChatInputs
  | .viewDidLoad contato currentUser =>
    some { s with
      screens := s.screens ++ [⟨ChatViewController.viewDidLoad contato currentUser,ChatView.start⟩] }
  | .editingChanged k text =>
    s.screens[k]?.map fun sc => s.put k ({ sc with view := sc.view.edit text },[])
  | .sendBtnPressed k a b =>
    s.screens[k]?.bind fun sc =>
      if sc.view.isEnabled then some (s.put k (sc.sendBtnPressed touchAnimation a b)) else none
  | .dadosUsuarioLogado k erro data =>
    s.screens[k]?.map fun sc => s.put k ({ sc with vc := sc.vc.dadosUsuarioLogado erro data },[])
  | .mensagensSnapshot k docs =>
    s.screens[k]?.map fun sc => s.put k ({ sc with vc := sc.vc.mensagensSnapshot docs },[])
  | .commit i time =>
    s.inFlight[i]?.bind fun w =>
      if s.clock < time then
        some { s with
          store := s.store.commit time w, clock := time, inFlight := s.inFlight.eraseIdx i }
      else none
  | .reject i =>
    if i < s.inFlight.length then some { s with inFlight := s.inFlight.eraseIdx i } else none

end ChatInputs

def chatInputs (touchAnimation : ChatView → ChatView) : Machine ChatInputs ChatInputsEvent :=
  ⟨ChatInputs.start,ChatInputs.step touchAnimation⟩

/-- A document of a collection of messages has a text, and one of a collection of
conversations a last message. -/
def Preenchido (collection : List String) (d : Dict) : Prop :=
  (∀ u v, collection = mensagens u v → ∃ texto, Dict.string? d "texto" = some texto ∧ texto ≠ "") ∧
    ∀ u, collection = ultimasConversas u →
      ∃ texto, Dict.string? d "ultimaMensagem" = some texto ∧ texto ≠ ""

def Write.Preenchido (w : Write) : Prop :=
  ∃ p d, w = .setData p d ∧ MessageApp.Preenchido p.collection d

theorem Preenchido.resolve {collection : List String} {d : Dict} (now : ℕ)
    (h : Preenchido collection d) : Preenchido collection (Dict.resolve now d) := by
  simpa only [Preenchido,Dict.string?_resolve] using h

theorem preenchido_mensagem (u v w texto : String) (h : texto ≠ "") :
    Preenchido (mensagens u v) (mensagemDict w texto) := by
  refine ⟨fun _ _ _ => ⟨texto,mensagemDict_texto w texto,h⟩,fun x hx => ?_⟩
  exact absurd hx.symm (ultimasConversas_ne_mensagens x u v)

theorem preenchido_conversa (u texto r d n : String) (url : Option String) (h : texto ≠ "") :
    Preenchido (ultimasConversas u) (conversaDict texto r d n url) := by
  refine ⟨fun x y hx => ?_,fun _ _ => ⟨texto,conversaDict_ultimaMensagem texto r d n url,h⟩⟩
  exact absurd hx (ultimasConversas_ne_mensagens u x y)

namespace ChatInput

variable {touchAnimation : ChatView → ChatView} {sc : ChatInput}

theorem buttonFollows_edit (text : String) :
    ButtonFollows { sc with view := sc.view.edit text } := by
  unfold ButtonFollows ChatView.edit ChatView.textFieldDidChange
  by_cases h : text = "" <;> simp [h]

/-- Whatever the delegate did to the field, the view leaves field and button agreeing. -/
theorem buttonFollows_sendBtnPressed (a b : String) :
    (sc.sendBtnPressed touchAnimation a b).1.ButtonFollows := by
  unfold ButtonFollows
  exact iff_of_false (by simp [sendBtnPressed,ChatView.startPushMessage])
    (by simp [sendBtnPressed,ChatView.startPushMessage,ChatView.limparCaixa])

theorem preenchido_sendBtnPressed (htouch : ∀ v, (touchAnimation v).text = v.text)
    (htext : sc.view.text ≠ "") (a b : String) :
    ∀ w ∈ (sc.sendBtnPressed touchAnimation a b).2, w.Preenchido := by
  cases hcontato : sc.vc.idContato with
  | none => simp [sendBtnPressed,actionPushMessage,hcontato]
  | some v =>
    intro w hw
    rw [← htouch sc.view] at htext
    simp only [sendBtnPressed,actionPushMessage,hcontato] at hw
    rw [ChatViewController.actionPushMessage_getD rfl hcontato] at hw
    simp only [List.mem_cons,List.not_mem_nil,or_false] at hw
    rcases hw with rfl | rfl | rfl | rfl
    · exact ⟨_,_,rfl,preenchido_mensagem _ _ _ _ htext⟩
    · exact ⟨_,_,rfl,preenchido_mensagem _ _ _ _ htext⟩
    · exact ⟨_,_,rfl,preenchido_conversa _ _ _ _ _ _ htext⟩
    · exact ⟨_,_,rfl,preenchido_conversa _ _ _ _ _ _ htext⟩

end ChatInput

namespace ChatInputs

variable {touchAnimation : ChatView → ChatView} {s t : ChatInputs}

structure NoEmpty (s : ChatInputs) : Prop where
  buttons : ∀ sc ∈ s.screens, sc.ButtonFollows
  inFlight : ∀ w ∈ s.inFlight, w.Preenchido
  stored : ∀ p d, s.store.lookup p = some d → Preenchido p.collection d

theorem NoEmpty.put {r : ChatInput × List Write} (h : s.NoEmpty) (k : ℕ) (hbutton : r.1.ButtonFollows)
    (hwrites : ∀ w ∈ r.2, w.Preenchido) : (s.put k r).NoEmpty where
  buttons sc hsc := by
    rcases List.mem_or_eq_of_mem_set hsc with hsc | rfl
    · exact h.buttons sc hsc
    · exact hbutton
  inFlight w hw := by
    rcases List.mem_append.mp hw with hw | hw
    · exact h.inFlight w hw
    · exact hwrites w hw
  stored := h.stored

theorem NoEmpty.commit {w : Write} (h : s.NoEmpty) (hw : w.Preenchido) (time : ℕ) :
    ∀ p d, (s.store.commit time w).lookup p = some d → Preenchido p.collection d := by
  obtain ⟨q,data,rfl,hdata⟩ := hw
  intro p d hd
  by_cases hp : p = q
  · subst hp
    rw [Store.lookup_commit_setData] at hd
    obtain rfl := Option.some.inj hd
    exact hdata.resolve time
  · rw [Store.lookup_commit_of_ne hp] at hd
    exact h.stored p d hd

theorem NoEmpty.step (htouch : ∀ v, (touchAnimation v).text = v.text) {e : ChatInputsEvent}
    (h : s.NoEmpty) (hstep : s.step touchAnimation e = some t) : t.NoEmpty := by
  cases e with
  | viewDidLoad contato currentUser =>
    obtain rfl := Option.some.inj hstep
    refine ⟨fun sc hsc => ?_,h.inFlight,h.stored⟩
    rcases List.mem_append.mp hsc with hsc | hsc
    · exact h.buttons sc hsc
    · obtain rfl := List.mem_singleton.mp hsc
      simp [ChatInput.ButtonFollows,ChatView.start]
  | editingChanged k text =>
    obtain ⟨sc,_,rfl⟩ := Option.map_eq_some_iff.mp hstep
    exact h.put k (ChatInput.buttonFollows_edit text) (List.forall_mem_nil _)
  | sendBtnPressed k a b =>
    obtain ⟨sc,hsc,hsend⟩ := Option.bind_eq_some_iff.mp hstep
    obtain ⟨henabled,rfl⟩ := guarded hsend
    have htext : sc.view.text ≠ "" := (h.buttons sc (List.mem_of_getElem? hsc)).mp henabled
    exact h.put k (ChatInput.buttonFollows_sendBtnPressed a b)
      (ChatInput.preenchido_sendBtnPressed htouch htext a b)
  | dadosUsuarioLogado k erro data =>
    obtain ⟨sc,hsc,rfl⟩ := Option.map_eq_some_iff.mp hstep
    exact h.put k (h.buttons sc (List.mem_of_getElem? hsc)) (List.forall_mem_nil _)
  | mensagensSnapshot k docs =>
    obtain ⟨sc,hsc,rfl⟩ := Option.map_eq_some_iff.mp hstep
    exact h.put k (h.buttons sc (List.mem_of_getElem? hsc)) (List.forall_mem_nil _)
  | commit i time =>
    obtain ⟨w,hw,hcommit⟩ := Option.bind_eq_some_iff.mp hstep
    obtain ⟨_,rfl⟩ := guarded hcommit
    exact ⟨h.buttons,fun w hw => h.inFlight w (List.mem_of_mem_eraseIdx hw),
      h.commit (h.inFlight w (List.mem_of_getElem? hw)) time⟩
  | reject i =>
    obtain ⟨_,rfl⟩ := guarded hstep
    exact ⟨h.buttons,fun w hw => h.inFlight w (List.mem_of_mem_eraseIdx hw),h.stored⟩

theorem noEmpty_start : start.NoEmpty where
  buttons := List.forall_mem_nil _
  inFlight := List.forall_mem_nil _
  stored p d h := by simp [start] at h

end ChatInputs

/-- In every reachable state each send button is enabled exactly when its field holds a text,
every stored message has a text and every stored conversation a last message, given that the
animation of the button leaves the text of the field. -/
theorem no_empty_message {touchAnimation : ChatView → ChatView}
    (htouch : ∀ v, (touchAnimation v).text = v.text) {s : ChatInputs}
    (hs : (chatInputs touchAnimation).Reachable s) :
    (∀ sc ∈ s.screens, sc.view.isEnabled = true ↔ sc.view.text ≠ "") ∧
      (∀ u v id d, s.store.lookup ⟨mensagens u v,id⟩ = some d →
        ∃ texto, Dict.string? d "texto" = some texto ∧ texto ≠ "") ∧
      ∀ u id d, s.store.lookup ⟨ultimasConversas u,id⟩ = some d →
        ∃ texto, Dict.string? d "ultimaMensagem" = some texto ∧ texto ≠ "" := by
  have h : s.NoEmpty := hs.invariant ChatInputs.noEmpty_start fun _ _ _ h hstep => h.step htouch hstep
  refine ⟨h.buttons,fun u v id d hd => ?_,fun u id d hd => ?_⟩
  · exact (h.stored _ d hd).1 u v rfl
  · exact (h.stored _ d hd).2 u rfl

theorem no_empty_message_ana :
    ∃ s, (chatInputs id).exec ChatInputs.start [.viewDidLoad ⟨some "u2",some "Bia",none⟩ (some "u1"),
        .editingChanged 0 "Oi",.sendBtnPressed 0 "m1" "m2",.commit 0 1] = some s ∧
      (s.store.lookup ⟨mensagens "u1" "u2","m1"⟩).isSome = true ∧
      ∀ sc ∈ s.screens, sc.view.isEnabled = true ↔ sc.view.text ≠ "" := by
  refine ⟨_,rfl,rfl,?_⟩
  exact (no_empty_message (fun _ => rfl) ⟨[.viewDidLoad ⟨some "u2",some "Bia",none⟩ (some "u1"),
    .editingChanged 0 "Oi",.sendBtnPressed 0 "m1" "m2",.commit 0 1],rfl⟩).1

end MessageApp
