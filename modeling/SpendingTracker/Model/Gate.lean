import SpendingTracker.Model.Login
import SpendingTracker.Model.Screens

/-!
# Logging in, signing up and logging out

The rest of `Controllers/LoginViewController.swift`, `Controllers/SignUpViewController.swift` and
`Controllers/SettingsViewController.swift`, around the checks of `Model/Login.lean`: the texts of
the forms, the requests that Firebase has not answered yet, and what an answer does.

A login screen is never freed, because its listener keeps it, and a sign-up screen is kept by the
callbacks it waits for.  So an answer reaches the screen that has asked, whatever the user has done
since then.  Which of the forms is in front is left open.  Firebase is not modelled: it answers
as it likes, and a user whom it signs in or creates is the signed-in user from then on.
-/

namespace SpendingTracker

open Lib

/-- The texts of a `LoginViewController`. -/
structure LoginForm where
  emailTextField : String
  passwordTextField : String
  errorMessage : String
deriving DecidableEq

/-- The texts of a `SignUpViewController`. -/
structure SignUpForm where
  emailTextField : String
  passwordTextField : String
  passwordConfirmTextField : String
  errorMessageLabel : String
deriving DecidableEq

/-- The texts in the storyboard. -/
def LoginForm.empty : LoginForm := ⟨"", "", ""⟩

/-- The texts in the storyboard. -/
def SignUpForm.empty : SignUpForm := ⟨"", "", "", ""⟩

/-- The controller that waits for an answer. -/
inductive Asker
  | login (form : ℕ)
  | signUp (form : ℕ)
deriving DecidableEq

/-- The message of a controller whose request has failed. -/
def Asker.failure : Asker → String
  | login _ => "Error while logging in!"
  | signUp _ => "Error while signing up!"

/-- A call of `signIn` or of `createUser` that has not been answered. -/
structure AuthRequest where
  asker : Asker
  email : String
  password : String
deriving DecidableEq

/-- The text of the message after a click: it is cleared first. -/
def Attempt.message : Attempt → String
  | errorMessage text => text
  | firebase _ _ => ""

/-- What Firebase is asked after a click. -/
def Attempt.request (asker : Asker) : Attempt → Option AuthRequest
  | errorMessage _ => none
  | firebase email password => some ⟨asker, email, password⟩

/-- The screens behind the login. -/
structure Gate where
  screens : Screens
  loginForms : List LoginForm
  signUpForms : List SignUpForm
  /-- What Firebase has been asked and has not answered. -/
  attempts : List AuthRequest
deriving DecidableEq

/-- What can happen next. -/
inductive GateEvent
  /-- An event of the screens that does not sign in a user. -/
  | screens (e : ScreenEvent)
  /-- The texts of a login form are edited. -/
  | editLogin (form : ℕ) (email password : String)
  /-- The texts of a sign-up form are edited. -/
  | editSignUp (form : ℕ) (email password passwordConfirm : String)
  /-- The segue from a login form to a new sign-up form. -/
  | prepare (form : ℕ)
  | loginButtonClicked (form : ℕ)
  | signUpButtonClicked (form : ℕ)
  /-- Firebase answers a request: it signs in a user, or reports an error. -/
  | answer (attempt : ℕ) (user : Option String)
deriving DecidableEq

/-- The event signs in a user. -/
def ScreenEvent.SignsIn : ScreenEvent → Bool
  | background (.signIn _) => true
  | _ => false

namespace Gate

variable {ch : Characters} (eq : ch.Equality)

/-- The app has been launched, and nobody is signed in. -/
def launch (c : Transactions) : Gate := ⟨.launch (.launch c), [.empty], [], []⟩

def setMessage (g : Gate) (text : String) : Asker → Gate
  | .login form =>
      { g with loginForms := g.loginForms.modify form fun f => { f with errorMessage := text } }
  | .signUp form =>
      { g with
        signUpForms := g.signUpForms.modify form fun f => { f with errorMessageLabel := text } }

/-- The controller whose button is clicked, and what the click leads to. -/
def clicked (g : Gate) : GateEvent → Option (Asker × Attempt)
  | .loginButtonClicked form =>
      g.loginForms[form]?.map fun f =>
        (.login form, SpendingTracker.loginButtonClicked ch f.emailTextField f.passwordTextField)
  | .signUpButtonClicked form =>
      g.signUpForms[form]?.map fun f =>
        (.signUp form, SpendingTracker.signUpButtonClicked eq f.emailTextField f.passwordTextField
          f.passwordConfirmTextField)
  | _ => none

/-- A click on a button. -/
def click (g : Gate) (e : GateEvent) : Option Gate :=
  (g.clicked eq e).map fun (asker, attempt) =>
    { g.setMessage attempt.message asker with
      attempts := g.attempts ++ (attempt.request asker).toList }

/-- The screens go on; after a logout, another login form is presented. -/
def afterScreens (g : Gate) (e : ScreenEvent) (screens : Screens) : Gate :=
  { g with
    screens := screens
    loginForms :=
      if e = .background .signOut then g.loginForms ++ [.empty] else g.loginForms }

/-- The effect of an event; `none` means that it cannot occur, or that the app traps.  The forms
can be reached only while no tabs are on the screen. -/
def step (showDate : Date → Date → Date) (g : Gate) (e : GateEvent) : Option Gate :=
  match e with
  | .screens e =>
      if e.SignsIn then none else (g.screens.step showDate e).map (g.afterScreens e)
  | .editLogin form email password =>
      if g.screens.top = .login ∧ form < g.loginForms.length then
        some { g with
          loginForms := g.loginForms.modify form fun f =>
            { f with emailTextField := email, passwordTextField := password } }
      else none
  | .editSignUp form email password passwordConfirm =>
      if g.screens.top = .login ∧ form < g.signUpForms.length then
        some { g with
          signUpForms := g.signUpForms.modify form fun f =>
            { f with
              emailTextField := email
              passwordTextField := password
              passwordConfirmTextField := passwordConfirm } }
      else none
  | .prepare form =>
      if g.screens.top = .login ∧ form < g.loginForms.length then
        some { g.setMessage "" (.login form) with signUpForms := g.signUpForms ++ [.empty] }
      else none
  | .loginButtonClicked _ | .signUpButtonClicked _ =>
      if g.screens.top = .login then g.click eq e else none
  | .answer attempt none =>
      g.attempts[attempt]?.map fun r =>
        { g with attempts := g.attempts.eraseIdx attempt }.setMessage r.asker.failure r.asker
  | .answer attempt (some user) =>
      g.attempts[attempt]?.bind fun _ =>
        (g.screens.step showDate (.background (.signIn user))).map fun screens =>
          { g with screens := screens, attempts := g.attempts.eraseIdx attempt }

end Gate

end SpendingTracker
