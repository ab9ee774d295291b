import MessageApp.MessageListController
import MessageApp.Runs

/-! Snapshot registrations of the home screens. A screen keeps the handle of its last
registration only: the contact tab removes that one, a further conversation tap abandons it,
and a sign-out removes none. -/
namespace MessageApp

structure Registration where
  id : ℕ
  collection : List String
  deriving DecidableEq

structure HomeScreen where
  vc : MessageListViewController
  user : AuthUser
  signedOut : Bool
  active : List Registration

/-- All home screens created so far, and the user Auth reports. -/
structure Homes where
  currentUser : Option AuthUser
  screens : List HomeScreen
  registrations : ℕ

inductive HomesEvent
  | signIn (user : AuthUser)
  | tab (k : ℕ) (type : TypeConversationOrContact)
  /-- `actionSairConta`; `erro` when Auth throws. -/
  | signOut (erro : Bool)

def HomeEffect.applyTo (active : List Registration) : HomeEffect → List Registration
  | .addSnapshotListener i collection => active ++ [⟨i,collection⟩]
  | .remove (some i) => active.filter fun r => r.id ≠ i
  | _ => active

/-- The user Auth reports after `actionSairConta`, and the alert it shows. -/
def actionSairConta (currentUser : Option AuthUser) (erro : Bool) :
    Option AuthUser × Option String :=
  if erro then (currentUser,some "Erro ao tentar Deslogar, tente novamente!") else (none,none)

namespace HomeScreen

def perform (sc : HomeScreen) (r : MessageListViewController × List HomeEffect) : HomeScreen :=
  { sc with vc := r.1, active := r.2.foldl HomeEffect.applyTo sc.active }

def tap (sc : HomeScreen) (type : TypeConversationOrContact) (currentUser : Option AuthUser)
    (registration : ℕ) : HomeScreen :=
  sc.perform (sc.vc.typeScreenMessage type currentUser registration)

def contactMode (sc : HomeScreen) : Bool := sc.vc.screenContact.getD false

/-- The active registrations on the conversations of the screen's user. -/
def listening (sc : HomeScreen) : List Registration :=
  sc.active.filter fun r => r.collection = ultimasConversas sc.user.uid

/-- One registration in conversation mode while the user is signed in, otherwise none. -/
def Follows (sc : HomeScreen) : Prop :=
  sc.listening.length = if sc.contactMode = false ∧ sc.signedOut = false then 1 else 0

instance (sc : HomeScreen) : Decidable sc.Follows := inferInstanceAs (Decidable (_ = _))

end HomeScreen

namespace Homes

def start : Homes := ⟨none,[],0⟩

def step (s : Homes) : HomesEvent → Option Homes
  | .signIn user =>
    if s.currentUser = none then
      let blank : HomeScreen := ⟨{},user,false,[]⟩
      let screen := blank.perform (MessageListViewController.viewDidLoad (some user) s.registrations)
      some ⟨some user,s.screens ++ [screen],s.registrations+1⟩
    else none
  | .tab k type =>
    match s.screens[k]? with
    | none => none
    | some sc =>
      some { s with
        screens := s.screens.set k (sc.tap type s.currentUser s.registrations)
        registrations := s.registrations+1 }
  | .signOut erro =>
    if s.currentUser = none then none
    else if erro then some { s with currentUser := (actionSairConta s.currentUser erro).1 }
    else
      some { s with
        currentUser := (actionSairConta s.currentUser erro).1
        screens := s.screens.map fun sc => { sc with signedOut := true } }

def Follow (s : Homes) : Prop := ∀ sc ∈ s.screens, sc.Follows

/-- A conversation tap of a signed-in user comes from contact mode, an old screen is not
tapped by its own user again, and nobody signs out in conversation mode. -/
def InContactMode (s : Homes) : HomesEvent → Prop
  | .tab k .conversation => ∀ sc ∈ s.screens[k]?,
      if sc.signedOut then s.currentUser.map AuthUser.uid ≠ some sc.user.uid
      else sc.contactMode = true
  | .signOut false => ∀ sc ∈ s.screens, sc.signedOut = false → sc.contactMode = true
  | _ => True

end Homes

def homes : Machine Homes HomesEvent := ⟨Homes.start,Homes.step⟩

namespace HomeScreen

variable {sc : HomeScreen} {user : Option AuthUser} {i : ℕ}

/-- What a live screen keeps on every run: in conversation mode its handle is active. -/
structure Owned (currentUser : Option AuthUser) (sc : HomeScreen) : Prop where
  user_eq : sc.signedOut = false → currentUser = some sc.user
  handle : sc.signedOut = false → sc.contactMode = false → ∃ i, sc.vc.conversasListener = some i ∧
    ⟨i,ultimasConversas sc.user.uid⟩ ∈ sc.active

@[simp] theorem tap_user (type : TypeConversationOrContact) : (sc.tap type user i).user = sc.user := rfl
@[simp] theorem tap_signedOut (type : TypeConversationOrContact) :
    (sc.tap type user i).signedOut = sc.signedOut := rfl

@[simp] theorem tap_contact_mode : (sc.tap .contact user i).contactMode = true := rfl

@[simp] theorem tap_conversation_mode : (sc.tap .conversation user i).contactMode = false := by
  cases user <;> rfl

theorem tap_contact_active : (sc.tap .contact user i).active =
    HomeEffect.applyTo sc.active (.remove sc.vc.conversasListener) := rfl

theorem tap_conversation_active : (sc.tap .conversation user i).active =
    sc.active ++ (user.map fun u => ⟨i,ultimasConversas u.uid⟩).toList := by
  cases user <;> simp [tap,perform,MessageListViewController.typeScreenMessage,
    MessageListViewController.addListenerRecuperarConversa,HomeEffect.applyTo]

theorem tap_conversation_listening : (sc.tap .conversation user i).listening.length =
    sc.listening.length + if user.map AuthUser.uid = some sc.user.uid then 1 else 0 := by
  rw [listening,tap_conversation_active,List.filter_append,List.length_append]
  refine congrArg (sc.listening.length + ·) ?_
  cases user with
  | none => rfl
  | some u => by_cases h : u.uid = sc.user.uid <;> simp [h]

theorem applyTo_remove_sublist (active : List Registration) (handle : Option ℕ) :
    (HomeEffect.applyTo active (.remove handle)).Sublist active := by
  cases handle with
  | none => exact List.Sublist.refl _
  | some i => exact List.filter_sublist

theorem tap_contact_follows (howned : sc.Owned user) (h : sc.Follows) :
    (sc.tap .contact user i).Follows := by
  have hsub : ((sc.tap .contact user i).listening).Sublist sc.listening := by
    rw [listening,tap_contact_active]
    exact (applyTo_remove_sublist sc.active _).filter _
  have hle := hsub.length_le
  simp only [Follows,tap_contact_mode,Bool.true_eq_false,false_and,if_false]
  by_cases hlive : sc.contactMode = false ∧ sc.signedOut = false
  · -- the only registration is that of the handle
    obtain ⟨j,hj,hmem⟩ := howned.handle hlive.2 hlive.1
    rw [Follows,if_pos hlive] at h
    obtain ⟨r,hr⟩ := List.length_eq_one_iff.mp h
    have hr' : r = ⟨j,ultimasConversas sc.user.uid⟩ := by
      have hin : ⟨j,ultimasConversas sc.user.uid⟩ ∈ sc.listening := List.mem_filter.mpr ⟨hmem,by simp⟩
      rw [hr] at hin
      exact (List.mem_singleton.mp hin).symm
    have hremoved : (sc.tap .contact user i).listening = sc.listening.filter fun r => r.id ≠ j := by
      rw [listening,tap_contact_active,hj]
      exact List.filter_comm _ _ _
    rw [hremoved,hr,hr']
    simp
  · rw [Follows,if_neg hlive] at h
    omega

/-- After a conversation tap a screen follows its user exactly if that tap was its first
one since the contact tab, or was made for another user than its own. -/
theorem tap_conversation_follows (howned : sc.Owned user) (h : sc.Follows) :
    (sc.tap .conversation user i).Follows ↔
      if sc.signedOut then user.map AuthUser.uid ≠ some sc.user.uid else sc.contactMode = true := by
  rw [Follows,tap_conversation_listening,h]
  cases hout : sc.signedOut with
  | true => by_cases huid : user.map AuthUser.uid = some sc.user.uid <;> simp [huid,hout]
  | false =>
    have huid : user.map AuthUser.uid = some sc.user.uid := by simp [howned.user_eq hout]
    cases hmode : sc.contactMode <;> simp [huid,hout]

theorem tap_owned (type : TypeConversationOrContact) (howned : sc.Owned user) :
    (sc.tap type user i).Owned user where
  user_eq := howned.user_eq
  handle hlive hmode := by
    cases type with
    | contact => simp at hmode
    | conversation =>
      have huser := howned.user_eq hlive
      subst huser
      refine ⟨i,rfl,?_⟩
      rw [tap_conversation_active]
      simp

end HomeScreen

namespace Homes

variable {s t : Homes}

def Owned (s : Homes) : Prop := ∀ sc ∈ s.screens, sc.Owned s.currentUser

theorem forall_mem_set {l : List HomeScreen} {P : HomeScreen → Prop} {k : ℕ} {sc sc' : HomeScreen}
    (h : ∀ a ∈ l, P a) (hk : l[k]? = some sc) : (∀ a ∈ l.set k sc', P a) ↔ P sc' := by
  refine ⟨fun hset => hset sc' (List.mem_set (List.getElem?_eq_some_iff.mp hk).1 _),?_⟩
  intro hsc a ha
  rcases List.mem_or_eq_of_mem_set ha with ha | rfl
  · exact h a ha
  · exact hsc

theorem step_cases {e : HomesEvent} (h : s.step e = some t) :
    (∃ user, e = .signIn user ∧ s.currentUser = none ∧ t = ⟨some user,s.screens ++
      [(HomeScreen.mk {} user false []).perform
        (MessageListViewController.viewDidLoad (some user) s.registrations)],s.registrations+1⟩) ∨
    (∃ k type sc, e = .tab k type ∧ s.screens[k]? = some sc ∧ t = { s with
      screens := s.screens.set k (sc.tap type s.currentUser s.registrations)
      registrations := s.registrations+1 }) ∨
    (e = .signOut true ∧ t = s) ∨
    (e = .signOut false ∧ t = { s with
      currentUser := none
      screens := s.screens.map fun sc => { sc with signedOut := true } }) := by
  cases e with
  | signIn user =>
    obtain ⟨hnone,ht⟩ := guarded h
    exact Or.inl ⟨user,rfl,hnone,ht⟩
  | tab k type =>
    simp only [step] at h
    split at h
    · simp at h
    · rename_i sc hsc
      exact Or.inr (Or.inl ⟨k,type,sc,rfl,hsc,(Option.some.inj h).symm⟩)
  | signOut erro =>
    simp only [step] at h
    split at h
    · simp at h
    · cases erro with
      | true => exact Or.inr (Or.inr (Or.inl ⟨rfl,(Option.some.inj h).symm⟩))
      | false => exact Or.inr (Or.inr (Or.inr ⟨rfl,(Option.some.inj h).symm⟩))

theorem Owned.step {e : HomesEvent} (h : s.Owned) (hstep : s.step e = some t) : t.Owned := by
  rcases step_cases hstep with ⟨user,_,hnone,rfl⟩ | ⟨k,type,sc,_,hk,rfl⟩ | ⟨_,rfl⟩ | ⟨_,rfl⟩
  · intro sc hsc
    rcases List.mem_append.mp hsc with hsc | hsc
    · -- nobody was signed in, so every earlier screen is signed out
      have hout : sc.signedOut = true := by
        by_contra hlive
        have huser := (h sc hsc).user_eq (by simpa using hlive)
        simp [hnone] at huser
      exact ⟨by simp [hout],by simp [hout]⟩
    · obtain rfl := List.mem_singleton.mp hsc
      exact ⟨fun _ => rfl,fun _ _ => ⟨s.registrations,rfl,List.mem_singleton.mpr rfl⟩⟩
  · exact (forall_mem_set h hk).mpr (HomeScreen.tap_owned type (h sc (List.mem_of_getElem? hk)))
  · exact h
  · intro sc hsc
    obtain ⟨a,_,rfl⟩ := List.mem_map.mp hsc
    exact ⟨by simp,by simp⟩

theorem follow_step {e : HomesEvent} (howned : s.Owned) (h : s.Follow)
    (hstep : s.step e = some t) : t.Follow ↔ s.InContactMode e := by
  rcases step_cases hstep with ⟨user,rfl,hnone,rfl⟩ | ⟨k,type,sc,rfl,hk,rfl⟩ | ⟨rfl,rfl⟩ | ⟨rfl,rfl⟩
  · refine iff_of_true ?_ trivial
    intro sc hsc
    rcases List.mem_append.mp hsc with hsc | hsc
    · exact h sc hsc
    · obtain rfl := List.mem_singleton.mp hsc
      simp [HomeScreen.Follows,HomeScreen.listening,HomeScreen.perform,HomeScreen.contactMode,
        MessageListViewController.viewDidLoad,MessageListViewController.configAdentifierFirebase,
        MessageListViewController.addListenerRecuperarConversa,HomeEffect.applyTo]
  · have hmem := List.mem_of_getElem? hk
    have hset := @forall_mem_set _ _ _ _ (sc.tap type s.currentUser s.registrations) h hk
    cases type with
    | contact =>
      exact iff_of_true (hset.mpr (HomeScreen.tap_contact_follows (howned sc hmem) (h sc hmem))) trivial
    | conversation =>
      refine (hset.trans (HomeScreen.tap_conversation_follows (howned sc hmem) (h sc hmem))).trans ?_
      simp [InContactMode,hk]
  · exact iff_of_true h trivial
  · have hscreen : ∀ sc ∈ s.screens, ({ sc with signedOut := true } : HomeScreen).Follows ↔
        (sc.signedOut = false → sc.contactMode = true) := by
      intro sc hsc
      have hlistening : ({ sc with signedOut := true } : HomeScreen).listening = sc.listening := rfl
      have hf := h sc hsc
      rw [HomeScreen.Follows] at hf
      rw [HomeScreen.Follows,hlistening,hf]
      cases hmode : sc.contactMode <;> cases hout : sc.signedOut <;> simp
    constructor
    · intro hfollow sc hsc
      exact (hscreen sc hsc).mp (hfollow _ (List.mem_map_of_mem hsc))
    · intro hmode sc hsc
      obtain ⟨a,ha,rfl⟩ := List.mem_map.mp hsc
      exact (hscreen a ha).mpr (hmode a ha)

end Homes

/-- Registrations follow the tab and the session throughout a run exactly if its conversation
taps and its sign-outs are made in contact mode. -/
theorem listeners_follow {es : List HomesEvent} {s : Homes}
    (run : homes.exec Homes.start es = some s) :
    homes.Throughout Homes.Follow Homes.start es ↔ homes.Along Homes.InContactMode Homes.start es :=
  Machine.throughout_iff_along (fun _ _ _ h hstep => Homes.Owned.step h hstep)
    (fun _ _ _ hI h hstep => Homes.follow_step hI h hstep) (by simp [Homes.Owned,Homes.start])
    (by simp [Homes.Follow,Homes.start]) run

def leakedListeners : List HomesEvent :=
  [.signIn ⟨"u1",some "ana@x"⟩,.tab 0 .conversation,.signOut false]

theorem listeners_leak :
    ∃ s, homes.exec Homes.start leakedListeners = some s ∧ s.currentUser = none ∧
      s.screens.map (fun sc => sc.listening) =
        [[⟨0,ultimasConversas "u1"⟩,⟨1,ultimasConversas "u1"⟩]] ∧ ¬ s.Follow := by
  refine ⟨_,rfl,rfl,rfl,fun h => ?_⟩
  have hscreen := h _ (List.mem_singleton.mpr rfl)
  revert hscreen
  decide

theorem listeners_follow_contacts :
    homes.Throughout Homes.Follow Homes.start
      [.signIn ⟨"u1",some "ana@x"⟩,.tab 0 .contact,.signOut false] := by
  refine (@listeners_follow [.signIn ⟨"u1",some "ana@x"⟩,.tab 0 .contact,.signOut false] _ rfl).mpr ?_
  refine (Machine.along_cons rfl).mpr ⟨trivial,(Machine.along_cons rfl).mpr ⟨trivial,
    (Machine.along_cons rfl).mpr ⟨?_,Machine.along_nil _⟩⟩⟩
  intro sc hsc _
  obtain rfl := List.mem_singleton.mp hsc
  rfl

end MessageApp
