import MessageApp.MessageListController
import MessageApp.Runs

/-! The rows the home list shows against the rows its data source answers for. The
collection view keeps the count of the last reload, so the two agree as long as the lists
change under it only when it shows nothing that could go stale. -/
namespace MessageApp

/-- The home screen with what its collection view last loaded. -/
structure HomeList where
  vc : MessageListViewController
  /-- The controller as it was at the last `reloadData`. -/
  shown : MessageListViewController
  currentUser : Option AuthUser
  /-- The `getContatos` calls that have not completed. -/
  pending : ℕ
  registrations : ℕ

inductive HomeListEvent
  | tab (type : TypeConversationOrContact)
  /-- A conversation snapshot; `none` is an error. -/
  | conversas (docs : Option Snapshot)
  /-- The completion of some `getContatos`; `none` is an error. -/
  | contatos (docs : Option Snapshot)
  | successDismissed

namespace HomeList

def perform (s : HomeList) (r : MessageListViewController × List HomeEffect) : HomeList where
  vc := r.1
  shown := if .reloadCollection ∈ r.2 then r.1 else s.shown
  currentUser := s.currentUser
  pending := s.pending + r.2.countP fun e => match e with | .getDocuments _ => true | _ => false
  registrations := s.registrations + 1

def start (currentUser : Option AuthUser) : HomeList :=
  let vc := (MessageListViewController.viewDidLoad currentUser 0).1
  ⟨vc,vc,currentUser,0,1⟩

def step (s : HomeList) : HomeListEvent → Option HomeList
  | .tab type => some (s.perform (s.vc.typeScreenMessage type s.currentUser s.registrations))
  | .conversas docs => some (s.perform (s.vc.conversasSnapshot docs.isNone docs))
  | .contatos docs =>
    if 0 < s.pending then
      some { s.perform (s.vc.contatosResultado docs) with pending := s.pending - 1 }
    else none
  | .successDismissed => some (s.perform s.vc.successContato)

def OnlyAddContact (s : HomeList) : Prop :=
  ∀ row < s.shown.numberOfItemsInSection, s.shown.cellForItemAt row = some .addContact

end HomeList

namespace HomeList

variable {s t : HomeList}

theorem OnlyAddContact.row_eq (h : s.OnlyAddContact) {row : ℕ}
    (hrow : row < s.shown.numberOfItemsInSection) : row = 0 := by
  have hzero := h 0 (by omega)
  unfold MessageListViewController.cellForItemAt at hzero
  unfold MessageListViewController.numberOfItemsInSection at hrow
  split_ifs at hzero hrow with hcontact hempty
  · omega
  · simp at hzero
  · simp at hzero

end HomeList

end MessageApp
