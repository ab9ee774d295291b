import MessageApp.HomeList

/-! The contact list under overlapping calls of `getContatos`. A call empties the list when
it is issued, its completion appends to whatever the list holds by then. -/
namespace MessageApp

/-- The home screen with what the last completed `getContatos` delivered: nothing before the
first one and after an error. The screen does not read it. -/
structure ContactList where
  home : HomeList
  ultima : Option Snapshot

namespace ContactList

def decoded (docs : Snapshot) : List Contact := docs.map fun d => Contact.ofDictionary (some d.2)

def ids (contatos : List Contact) : List (Option String) := contatos.map Contact.id

/-- The contact documents of one completion have distinct ids. -/
def Distinct : HomeListEvent → Prop
  | .contatos (some docs) => (ids (decoded docs)).Nodup
  | _ => True

instance (e : HomeListEvent) : Decidable (Distinct e) := by
  unfold Distinct
  split <;> infer_instance

def delivered (ultima : Option Snapshot) : HomeListEvent → Option Snapshot
  | .contatos docs => docs
  | _ => ultima

def start (currentUser : Option AuthUser) : ContactList := ⟨HomeList.start currentUser,none⟩

def step (s : ContactList) (e : HomeListEvent) : Option ContactList :=
  if Distinct e then (s.home.step e).map fun home => ⟨home,delivered s.ultima e⟩ else none

/-- No contact is listed twice, and when every call has completed, the last one with success,
the list is what that one delivered. -/
def OnceEach (s : ContactList) : Prop :=
  (ids s.home.vc.listContact).Nodup ∧
    (s.home.pending = 0 → ∀ docs ∈ s.ultima, s.home.vc.listContact = decoded docs)

def calls : HomeListEvent → Bool
  | .tab .contact => true
  | .successDismissed => true
  | _ => false

/-- What the successful completions have delivered since the last call of `getContatos`. -/
def entregues (es : List HomeListEvent) : Snapshot :=
  es.foldl (fun docs e =>
    if calls e then []
    else match e with
      | .contatos (some new) => docs ++ new
      | _ => docs) []

def pendentes (es : List HomeListEvent) : ℕ :=
  es.foldl (fun n e =>
    if calls e then n+1
    else match e with
      | .contatos _ => n-1
      | _ => n) 0

/-- A successful completion delivers none of the contacts that others have delivered since the
last call, and nothing has been delivered since then if it is the only one pending. -/
def Apart (past : List HomeListEvent) : HomeListEvent → Prop
  | .contatos (some docs) => (∀ c ∈ ids (decoded docs), c ∉ ids (decoded (entregues past))) ∧
      (pendentes past = 1 → entregues past = [])
  | _ => True

instance (past : List HomeListEvent) (e : HomeListEvent) : Decidable (Apart past e) := by
  unfold Apart
  split <;> infer_instance

structure Follows (past : List HomeListEvent) (s : ContactList) : Prop where
  list : s.home.vc.listContact = decoded (entregues past)
  pending : s.home.pending = pendentes past

end ContactList

def contactList (currentUser : Option AuthUser) : Machine ContactList HomeListEvent :=
  ⟨ContactList.start currentUser,ContactList.step⟩

namespace ContactList

variable {s t : ContactList} {e : HomeListEvent} {past : List HomeListEvent}

/-- A step calls `getContatos`, which empties the list, or completes a call, which appends to
it, or touches neither the list nor the calls. -/
theorem step_cases (hstep : s.step e = some t) :
    (calls e = true ∧ t.home.vc.listContact = [] ∧ t.home.pending = s.home.pending+1) ∨
    (∃ docs, e = .contatos docs ∧ Distinct e ∧ 0 < s.home.pending ∧
      t.home.vc.listContact = s.home.vc.listContact ++ decoded (docs.getD []) ∧
      t.home.pending = s.home.pending-1 ∧ t.ultima = docs) ∨
    (calls e = false ∧ (∀ docs, e ≠ .contatos docs) ∧
      t.home.vc.listContact = s.home.vc.listContact ∧ t.home.pending = s.home.pending ∧
      t.ultima = s.ultima) := by
  obtain ⟨hdistinct,hstep⟩ := Option.ite_none_right_eq_some.mp hstep
  obtain ⟨home,hhome,rfl⟩ := Option.map_eq_some_iff.mp hstep
  cases e with
  | tab type =>
    obtain rfl := Option.some.inj hhome
    cases type with
    | contact => exact .inl ⟨rfl,rfl,rfl⟩
    | conversation =>
      right; right
      refine ⟨rfl,by simp,?_,?_,rfl⟩ <;>
        cases huser : s.home.currentUser <;> simp [HomeList.perform,huser,
          MessageListViewController.typeScreenMessage,
          MessageListViewController.addListenerRecuperarConversa]
  | conversas docs =>
    obtain rfl := Option.some.inj hhome
    right; right
    cases docs <;> exact ⟨rfl,by simp,rfl,rfl,rfl⟩
  | contatos docs =>
    obtain ⟨hpos,rfl⟩ := guarded hhome
    refine .inr (.inl ⟨docs,rfl,hdistinct,hpos,?_,rfl,rfl⟩)
    cases docs with
    | none => exact (List.append_nil _).symm
    | some docs => rfl
  | successDismissed =>
    obtain rfl := Option.some.inj hhome
    exact .inl ⟨rfl,rfl,rfl⟩

theorem Follows.step (h : s.Follows past) (hstep : s.step e = some t) : t.Follows (past ++ [e]) := by
  rcases step_cases hstep with ⟨hcalls,hlist,hpending⟩ | ⟨docs,rfl,_,_,hlist,hpending,_⟩ |
    ⟨hcalls,hother,hlist,hpending,_⟩
  · exact ⟨by simp [entregues,hcalls,hlist,decoded],by simp [pendentes,hcalls,hpending,h.pending]⟩
  · refine ⟨?_,by simp [pendentes,calls,hpending,h.pending]⟩
    cases docs <;> simp [entregues,calls,hlist,h.list,decoded]
  · have hsame : entregues (past ++ [e]) = entregues past ∧ pendentes (past ++ [e]) = pendentes past := by
      cases e <;> simp_all [entregues,pendentes]
    exact ⟨by rw [hlist,h.list,hsame.1],by rw [hpending,h.pending,hsame.2]⟩

theorem onceEach_step (hfollows : s.Follows past) (h : s.OnceEach) (hstep : s.step e = some t) :
    t.OnceEach ↔ Apart past e := by
  rcases step_cases hstep with ⟨hcalls,hlist,hpending⟩ | ⟨docs,rfl,hdocs,hpos,hlist,hpending,hultima⟩ |
    ⟨_,hother,hlist,hpending,hultima⟩
  · refine iff_of_true ⟨by simp [hlist,ids],fun hzero => absurd hzero (by omega)⟩ ?_
    cases e <;> trivial
  · cases docs with
    | none =>
      refine iff_of_true ⟨?_,by simp [hultima]⟩ trivial
      simpa [hlist,decoded] using h.1
    | some docs =>
      have hnodup : (ids t.home.vc.listContact).Nodup ↔
          ∀ c ∈ ids (decoded docs), c ∉ ids (decoded (entregues past)) := by
        rw [hlist,← hfollows.list,ids,List.map_append,List.nodup_append']
        exact ⟨fun hall c hc hold => hall.2.2 hold hc,
          fun hnew => ⟨h.1,hdocs,fun c hold hc => hnew c hc hold⟩⟩
      have hlast : (t.home.pending = 0 → ∀ d ∈ t.ultima, t.home.vc.listContact = decoded d) ↔
          (pendentes past = 1 → entregues past = []) := by
        have hzero : t.home.pending = 0 ↔ pendentes past = 1 := by
          rw [← hfollows.pending]
          omega
        simp [hzero,hultima,hlist,hfollows.list,decoded]
      exact and_congr hnodup hlast
  · refine iff_of_true ?_ ?_
    · rw [OnceEach,hlist,hpending,hultima]
      exact h
    · cases e <;> first | trivial | exact absurd rfl (hother _)

theorem onceEach_start (currentUser : Option AuthUser) : (start currentUser).OnceEach := by
  refine ⟨?_,fun _ docs hdocs => absurd hdocs (Option.not_mem_none docs)⟩
  cases currentUser <;> exact List.nodup_nil

theorem follows_start (currentUser : Option AuthUser) : (start currentUser).Follows [] := by
  cases currentUser <;> exact ⟨rfl,rfl⟩

end ContactList

/-- In a run of the home screen no contact is ever listed twice, and the list is the one last
delivered once nothing is pending, exactly if every successful completion stands apart from
what the completions before it have delivered since the last call. -/
theorem contact_once_each (currentUser : Option AuthUser) {es : List HomeListEvent} {s : ContactList}
    (run : (contactList currentUser).exec (ContactList.start currentUser) es = some s) :
    (contactList currentUser).Throughout ContactList.OnceEach (ContactList.start currentUser) es ↔
      EachAfter ContactList.Apart [] es :=
  Machine.throughout_iff_each (I := fun past s => s.Follows past) (C := ContactList.Apart)
    (fun _ _ _ _ hfollows hstep => hfollows.step hstep)
    (fun _ _ _ _ hfollows h hstep => ContactList.onceEach_step hfollows h hstep)
    (ContactList.follows_start currentUser) (ContactList.onceEach_start currentUser) run

def biaContatos : Snapshot := [("u2",Dict.ofList [("id",.string "u2"),("nome",.string "Bia")])]

/-- Two taps on the contact tab before the first answer. -/
def overlappingTaps : List HomeListEvent :=
  [.tab .contact,.tab .contact,.contatos (some biaContatos),.contatos (some biaContatos)]

theorem contact_listed_twice :
    ∃ s, (contactList (some ⟨"u1",none⟩)).exec (ContactList.start (some ⟨"u1",none⟩)) overlappingTaps =
        some s ∧ s.home.pending = 0 ∧
      ContactList.ids s.home.vc.listContact = [some "u2",some "u2"] ∧ ¬ s.OnceEach := by
  refine ⟨_,rfl,rfl,by decide,fun h => ?_⟩
  exact absurd h.1 (by decide)

/-- Two calls one after the other, then two that overlap of which the first one fails. -/
def separateTaps : List HomeListEvent :=
  [.tab .contact,.contatos (some biaContatos),.tab .contact,.contatos (some biaContatos),
    .tab .contact,.successDismissed,.contatos none,.contatos (some biaContatos)]

theorem contact_once_each_bia :
    ∃ s, (contactList (some ⟨"u1",none⟩)).exec (ContactList.start (some ⟨"u1",none⟩)) separateTaps =
        some s ∧ ContactList.ids s.home.vc.listContact = [some "u2"] ∧
      (contactList (some ⟨"u1",none⟩)).Throughout ContactList.OnceEach
        (ContactList.start (some ⟨"u1",none⟩)) separateTaps :=
  ⟨_,rfl,by decide,(@contact_once_each (some ⟨"u1",none⟩) separateTaps _ rfl).mpr (by decide)⟩

end MessageApp
