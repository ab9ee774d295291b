import MessageApp.Runs

/-! The login and registration forms. The submit button is recomputed when an edit ends, while
the text of the edited field changes during the edit. -/
namespace MessageApp

/-- The text fields of a form and the check on their texts, which asks for all of them. -/
structure FormScreen (F : Type) where
  validadeTextFields : (F → String) → Bool
  valid_iff : ∀ text, validadeTextFields text = true ↔ ∀ f, text f ≠ ""

inductive LoginField
  | emailTextField | passwordTextField
  deriving DecidableEq

inductive RegisterField
  | emailTextField | nameTextField | passwordTextField
  deriving DecidableEq

def LoginScreen.validadeTextFields (text : LoginField → String) : Bool :=
  if text .emailTextField ≠ "" ∧ text .passwordTextField ≠ "" then true else false

def RegisterScreen.validadeTextFields (text : RegisterField → String) : Bool :=
  if text .emailTextField ≠ "" ∧ text .nameTextField ≠ "" ∧ text .passwordTextField ≠ "" then true
  else false

def loginScreen : FormScreen LoginField where
  validadeTextFields := LoginScreen.validadeTextFields
  valid_iff text := by
    simp only [LoginScreen.validadeTextFields,Bool.if_false_right,Bool.and_true,decide_eq_true_eq]
    constructor
    · rintro ⟨hemail,hpassword⟩ f
      cases f with
      | emailTextField => exact hemail
      | passwordTextField => exact hpassword
    · intro h
      exact ⟨h .emailTextField,h .passwordTextField⟩

def registerScreen : FormScreen RegisterField where
  validadeTextFields := RegisterScreen.validadeTextFields
  valid_iff text := by
    simp only [RegisterScreen.validadeTextFields,Bool.if_false_right,Bool.and_true,decide_eq_true_eq]
    constructor
    · rintro ⟨hemail,hname,hpassword⟩ f
      cases f with
      | emailTextField => exact hemail
      | nameTextField => exact hname
      | passwordTextField => exact hpassword
    · intro h
      exact ⟨h .emailTextField,h .nameTextField,h .passwordTextField⟩

/-- A form on the screen: its texts, its submit button, the field being edited, and the texts
that each call of `actionLogin` or `actionRegisterUser` has found. -/
structure Form (F : Type) where
  text : F → String
  isEnabled : Bool
  editing : Option F
  submitted : List (F → String)

inductive FormEvent (F : Type)
  | beginEditing (f : F)
  /-- The user leaves `text` in the field being edited. -/
  | change (text : String)
  | endEditing
  | tap

namespace Form

variable {F : Type}

def start : Form F := ⟨fun _ => "",false,none,[]⟩

def textFieldDidEndEditing (screen : FormScreen F) (s : Form F) : Form F :=
  if screen.validadeTextFields s.text then { s with isEnabled := true }
  else { s with isEnabled := false }

def step [DecidableEq F] (screen : FormScreen F) (s : Form F) : FormEvent F → Option (Form F)
  | .beginEditing f => if s.editing = none then some { s with editing := some f } else none
  | .change text => s.editing.map fun f => { s with text := Function.update s.text f text }
  | .endEditing => s.editing.map fun _ => textFieldDidEndEditing screen { s with editing := none }
  | .tap => if s.isEnabled then some { s with submitted := s.submitted ++ [s.text] } else none

def SubmitsComplete (s : Form F) : Prop := ∀ text ∈ s.submitted, ∀ f, text f ≠ ""

/-- A tap during an edit finds the edited field filled. -/
def EditedFilled (s : Form F) : FormEvent F → Prop
  | .tap => ∀ f ∈ s.editing, s.text f ≠ ""
  | _ => True

instance (s : Form F) (e : FormEvent F) : Decidable (EditedFilled s e) := by
  cases e <;> unfold EditedFilled <;> infer_instance

/-- While the button is enabled, only the field being edited can be empty. -/
def OthersFilled (s : Form F) : Prop := s.isEnabled = true → ∀ f, s.editing ≠ some f → s.text f ≠ ""

end Form

def form {F : Type} [DecidableEq F] (screen : FormScreen F) : Machine (Form F) (FormEvent F) :=
  ⟨Form.start,Form.step screen⟩

namespace Form

variable {F : Type} {screen : FormScreen F} {s t : Form F}

theorem othersFilled_start : (start : Form F).OthersFilled := by
  intro henabled
  simp [start] at henabled

theorem othersFilled_textFieldDidEndEditing :
    (textFieldDidEndEditing screen { s with editing := none }).OthersFilled := by
  intro henabled f _
  by_cases hvalid : screen.validadeTextFields s.text = true
  · simp only [textFieldDidEndEditing,if_pos hvalid]
    exact (screen.valid_iff s.text).mp hvalid f
  · simp [textFieldDidEndEditing,hvalid] at henabled

variable [DecidableEq F]

theorem OthersFilled.step {e : FormEvent F} (h : s.OthersFilled)
    (hstep : s.step screen e = some t) : t.OthersFilled := by
  cases e with
  | beginEditing f =>
    obtain ⟨hnone,rfl⟩ := guarded hstep
    intro henabled g _
    exact h henabled g (by simp [hnone])
  | change text =>
    obtain ⟨f,hf,rfl⟩ := Option.map_eq_some_iff.mp hstep
    intro henabled g hg
    have hne : g ≠ f := by
      rintro rfl
      exact hg hf
    show Function.update s.text f text g ≠ ""
    rw [Function.update_of_ne hne]
    exact h henabled g hg
  | endEditing =>
    obtain ⟨f,_,rfl⟩ := Option.map_eq_some_iff.mp hstep
    exact othersFilled_textFieldDidEndEditing
  | tap =>
    obtain ⟨_,rfl⟩ := guarded hstep
    exact h

theorem step_submitted {e : FormEvent F} (h : s.step screen e = some t) :
    (e ≠ .tap ∧ t.submitted = s.submitted) ∨
      (e = .tap ∧ s.isEnabled = true ∧ t.submitted = s.submitted ++ [s.text]) := by
  cases e with
  | beginEditing f =>
    obtain ⟨_,rfl⟩ := guarded h
    exact .inl ⟨by simp,rfl⟩
  | change text =>
    obtain ⟨f,_,rfl⟩ := Option.map_eq_some_iff.mp h
    exact .inl ⟨by simp,rfl⟩
  | endEditing =>
    obtain ⟨f,_,rfl⟩ := Option.map_eq_some_iff.mp h
    refine .inl ⟨by simp,?_⟩
    unfold textFieldDidEndEditing
    split <;> rfl
  | tap =>
    obtain ⟨henabled,rfl⟩ := guarded h
    exact .inr ⟨rfl,henabled,rfl⟩

theorem submitsComplete_step {e : FormEvent F} (h : s.OthersFilled) (hs : s.SubmitsComplete)
    (hstep : s.step screen e = some t) : t.SubmitsComplete ↔ s.EditedFilled e := by
  rcases step_submitted hstep with ⟨hne,hsubmitted⟩ | ⟨rfl,henabled,hsubmitted⟩
  · rw [SubmitsComplete,hsubmitted]
    refine iff_of_true hs ?_
    cases e with
    | tap => exact absurd rfl hne
    | _ => trivial
  · have hall : t.SubmitsComplete ↔ ∀ f, s.text f ≠ "" := by
      rw [SubmitsComplete,hsubmitted]
      constructor
      · intro hall
        exact hall s.text (by simp)
      · intro hfilled text htext
        rcases List.mem_append.mp htext with htext | htext
        · exact hs text htext
        · rw [List.mem_singleton.mp htext]
          exact hfilled
    rw [hall]
    constructor
    · intro hfilled f _
      exact hfilled f
    · intro hedited f
      by_cases hf : s.editing = some f
      · exact hedited f hf
      · exact h henabled f hf

theorem submitsComplete_run (screen : FormScreen F) {es : List (FormEvent F)} {s : Form F}
    (run : (form screen).exec start es = some s) :
    (form screen).Throughout SubmitsComplete start es ↔
      (form screen).Along EditedFilled start es :=
  Machine.throughout_iff_along (I := OthersFilled) (fun _ _ _ h hstep => h.step hstep)
    (fun _ _ _ h hs hstep => submitsComplete_step h hs hstep) othersFilled_start
    (List.forall_mem_nil _) run

end Form

/-- On both forms every call of the action finds all fields filled exactly if every tap finds
the field being edited, if there is one, filled. -/
theorem forms_submit_complete {es : List (FormEvent LoginField)} {s : Form LoginField}
    (login : (form loginScreen).exec Form.start es = some s)
    {es' : List (FormEvent RegisterField)} {s' : Form RegisterField}
    (register : (form registerScreen).exec Form.start es' = some s') :
    ((form loginScreen).Throughout Form.SubmitsComplete Form.start es ↔
      (form loginScreen).Along Form.EditedFilled Form.start es) ∧
    ((form registerScreen).Throughout Form.SubmitsComplete Form.start es' ↔
      (form registerScreen).Along Form.EditedFilled Form.start es') :=
  ⟨Form.submitsComplete_run loginScreen login,Form.submitsComplete_run registerScreen register⟩

/-- The e-mail and the password that `actionLogin` gives to `signIn`. -/
def LoginViewController.actionLogin (text : LoginField → String) : String × String :=
  (text .emailTextField,text .passwordTextField)

def filledLogin : List (FormEvent LoginField) :=
  [.beginEditing .emailTextField,.change "ana@app.com",.endEditing,
    .beginEditing .passwordTextField,.change "segredo",.endEditing]

/-- The password is deleted again and the button tapped before that edit ends. -/
theorem login_without_password :
    ∃ s, (form loginScreen).exec Form.start
        (filledLogin ++ [.beginEditing .passwordTextField,.change "",.tap]) = some s ∧
      s.submitted.map LoginViewController.actionLogin = [("ana@app.com","")] ∧ ¬ s.SubmitsComplete := by
  refine ⟨_,rfl,by decide,fun h => ?_⟩
  exact h _ List.mem_cons_self .passwordTextField (by decide)

def filledRegister : List (FormEvent RegisterField) :=
  [.beginEditing .nameTextField,.change "Ana",.endEditing,
    .beginEditing .emailTextField,.change "ana@app.com",.endEditing,
    .beginEditing .passwordTextField,.change "segredo",.endEditing]

theorem forms_submit_complete_ana :
    (∃ s s', (form loginScreen).exec Form.start (filledLogin ++ [.tap]) = some s ∧
      (form registerScreen).exec Form.start (filledRegister ++ [.tap]) = some s' ∧
      s.submitted.length = 1 ∧ s'.submitted.length = 1) ∧
    (form loginScreen).Throughout Form.SubmitsComplete Form.start (filledLogin ++ [.tap]) ∧
      (form registerScreen).Throughout Form.SubmitsComplete Form.start (filledRegister ++ [.tap]) := by
  have h := @forms_submit_complete (filledLogin ++ [.tap]) _ rfl (filledRegister ++ [.tap]) _ rfl
  exact ⟨⟨_,_,rfl,rfl,rfl,rfl⟩,h.1.mpr (Machine.along_of_check (by decide)),
    h.2.mpr (Machine.along_of_check (by decide))⟩

end MessageApp
