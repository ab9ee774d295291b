import MessageApp.Listeners

/-! Sign-ins and sign-outs as Auth reports them to the login screens. Every login screen
registers a state listener when it loads, none removes it, and every sign-out pushes one
more login screen, so a sign-in is answered by as many screens as there were sign-outs
before it, and by one more. -/
namespace MessageApp

namespace LoginViewController

/-- The state listener of a login screen: the screens it asks to present. -/
def stateDidChange (login : ℕ) (usuario : Option String) : List ℕ :=
  if usuario ≠ none then [login] else []

end LoginViewController

/-- `listeners` are the login screens whose `viewDidLoad` has run. `entradas` lists, newest
first, the presentation requests of each change from signed out to signed in; nothing reads it. -/
structure LoginFlow where
  currentUser : Option String
  listeners : List ℕ
  presented : List ℕ
  entradas : List (List ℕ)
  deriving DecidableEq

inductive LoginFlowEvent
  /-- A sign-in of Auth completes, by `actionLogin` or by a registration. -/
  | signIn (uid : String)
  /-- `actionSairConta`; `erro` when Auth throws. -/
  | signOut (erro : Bool)
  deriving DecidableEq

namespace LoginFlow

/-- Auth calls every registered listener when the signed-in user changes. -/
def notify (s : LoginFlow) (usuario : Option String) : List ℕ :=
  s.listeners.flatMap fun login => LoginViewController.stateDidChange login usuario

/-- `viewDidLoad` of a new login screen, whose listener is called at once. -/
def viewDidLoad (s : LoginFlow) : LoginFlow :=
  let login := s.listeners.length
  { s with
    listeners := s.listeners ++ [login]
    presented := s.presented ++ LoginViewController.stateDidChange login s.currentUser }

/-- `didFinishLaunchingWithOptions`, with the user of an earlier launch if there is one. -/
def launch (currentUser : Option String) : LoginFlow := viewDidLoad ⟨currentUser,[],[],[]⟩

def change (s : LoginFlow) (usuario : Option String) : LoginFlow :=
  if s.currentUser = usuario then s
  else
    { s with
      currentUser := usuario
      presented := s.presented ++ s.notify usuario
      entradas := if s.currentUser = none then s.notify usuario::s.entradas else s.entradas }

def step (s : LoginFlow) : LoginFlowEvent → LoginFlow
  | .signIn uid => s.change (some uid)
  | .signOut erro => if erro then s else (s.change none).viewDidLoad

def OneEach (s : LoginFlow) : Prop := ∀ r ∈ s.entradas, r.length = 1

/-- A sign-in from signed out finds a single login screen. -/
def OnlyLogin (s : LoginFlow) : LoginFlowEvent → Prop
  | .signIn _ => s.currentUser = none → s.listeners.length = 1
  | .signOut _ => True

end LoginFlow

def loginFlow (currentUser : Option String) : Machine LoginFlow LoginFlowEvent :=
  ⟨LoginFlow.launch currentUser,fun s e => some (s.step e)⟩

namespace LoginFlow

variable {s t : LoginFlow} {usuario : Option String} {e : LoginFlowEvent}

@[simp] theorem viewDidLoad_entradas : s.viewDidLoad.entradas = s.entradas := rfl

@[simp] theorem viewDidLoad_listeners : s.viewDidLoad.listeners.length = s.listeners.length+1 := by
  simp [viewDidLoad]

@[simp] theorem change_listeners : (s.change usuario).listeners = s.listeners := by
  unfold change
  split_ifs <;> rfl

@[simp] theorem notify_some (uid : String) : s.notify (some uid) = s.listeners := by
  simp [notify,LoginViewController.stateDidChange]

theorem change_none_entradas : (s.change none).entradas = s.entradas := by
  unfold change
  split_ifs with h
  · rfl
  · rfl

theorem change_some_entradas (uid : String) : (s.change (some uid)).entradas =
    if s.currentUser = none then s.listeners::s.entradas else s.entradas := by
  unfold change
  by_cases hnone : s.currentUser = none
  · simp [hnone]
  · by_cases hsame : s.currentUser = some uid <;> simp [hsame,hnone]

theorem oneEach_step (h : s.OneEach) : (s.step e).OneEach ↔ s.OnlyLogin e := by
  cases e with
  | signIn uid =>
    by_cases hnone : s.currentUser = none
    · simp only [OneEach,step,change_some_entradas,hnone,if_true,List.forall_mem_cons,OnlyLogin]
      exact ⟨fun hall _ => hall.1,fun hone => ⟨hone trivial,h⟩⟩
    · simp only [OneEach,step,change_some_entradas,hnone,if_false,OnlyLogin]
      exact iff_of_true h fun hn => hn.elim
  | signOut erro =>
    refine iff_of_true ?_ trivial
    cases erro with
    | true => exact h
    | false => simpa [OneEach,step,change_none_entradas] using h

theorem listeners_exec (currentUser : Option String) {es : List LoginFlowEvent}
    (h : (loginFlow currentUser).exec s es = some t) :
    t.listeners.length = s.listeners.length + es.count (.signOut false) := by
  induction es generalizing s with
  | nil =>
    obtain rfl := Option.some.inj h
    rfl
  | cons e es ih =>
    have htail := ih h
    cases e with
    | signIn uid => simpa [step] using htail
    | signOut erro =>
      cases erro with
      | true => simpa [step] using htail
      | false =>
        simp only [step,Bool.false_eq_true,if_false,viewDidLoad_listeners,change_listeners] at htail
        rw [htail,List.count_cons_self]
        omega

end LoginFlow

/-- Every change from signed out to signed in asks for exactly one home screen exactly in the
runs that have no such change after a sign-out. -/
theorem home_screen_per_sign_in (currentUser : Option String) {es : List LoginFlowEvent}
    {s : LoginFlow} (run : (loginFlow currentUser).exec (LoginFlow.launch currentUser) es = some s) :
    (loginFlow currentUser).Throughout LoginFlow.OneEach (LoginFlow.launch currentUser) es ↔
      ∀ before uid t, before ++ [.signIn uid] <+: es →
        (loginFlow currentUser).exec (LoginFlow.launch currentUser) before = some t →
        t.currentUser = none → .signOut false ∉ before := by
  have hlisteners : ∀ {before t}, (loginFlow currentUser).exec (LoginFlow.launch currentUser) before =
      some t → (t.listeners.length = 1 ↔ .signOut false ∉ before) := by
    intro before t ht
    have hcount := LoginFlow.listeners_exec currentUser ht
    have hone : (LoginFlow.launch currentUser).listeners.length = 1 := rfl
    rw [← List.count_eq_zero]
    omega
  have hiff := Machine.throughout_iff_along (m := loginFlow currentUser) (I := fun _ => True)
    (P := LoginFlow.OneEach) (G := LoginFlow.OnlyLogin) (fun _ _ _ _ _ => trivial) ?_ trivial ?_ run
  · rw [hiff]
    constructor
    · intro hall before uid t hpre ht hnone
      exact (hlisteners ht).mp (hall before (.signIn uid) t hpre ht hnone)
    · intro hall before e t hpre ht
      cases e with
      | signIn uid => exact fun hnone => (hlisteners ht).mpr (hall before uid t hpre ht hnone)
      | signOut erro => trivial
  · intro s e t _ h hstep
    obtain rfl := Option.some.inj hstep
    exact LoginFlow.oneEach_step h
  · intro r hr
    exact absurd hr List.not_mem_nil

def secondSignIn : List LoginFlowEvent := [.signIn "u1",.signOut false,.signIn "u1"]

theorem home_screen_twice :
    ∃ s, (loginFlow none).exec (LoginFlow.launch none) secondSignIn = some s ∧
      s.entradas = [[0,1],[0]] ∧ ¬ s.OneEach := by
  refine ⟨_,rfl,rfl,fun h => ?_⟩
  have htwo := h [0,1] (List.mem_cons_self ..)
  simp at htwo

theorem home_screen_first_sign_in :
    (loginFlow none).Throughout LoginFlow.OneEach (LoginFlow.launch none)
      [.signIn "u1",.signOut true] := by
  refine (@home_screen_per_sign_in none [.signIn "u1",.signOut true] _ rfl).mpr ?_
  intro before uid t hpre _ _ hmem
  have hlater := hpre.subset (List.mem_append_left _ hmem)
  simp at hlater

end MessageApp
