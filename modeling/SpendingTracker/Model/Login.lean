import SpendingTracker.Lib.Characters
import SpendingTracker.Lib.Pattern

/-!
# The checks before signing in and signing up

`isValidEmail` of `Models/Helper.swift`, and the checks in `loginButtonClicked` of
`Controllers/LoginViewController.swift` and in `signUpButtonClicked` of
`Controllers/SignUpViewController.swift`.  Firebase is asked only after all checks of the screen
have passed.

`NSPredicate` matches the whole string.  Swift compares two strings by their characters, and not
by the scalars that encode them; how it does so is a parameter.
-/

namespace SpendingTracker

open Lib RegularExpression

/-! ### Email addresses -/

/-- The part of `emailRegEx` before `@`. -/
def emailLocalPart : RegularExpression Char :=
  oneOrMore (charClass (charRange 'A' 'Z' ++ charRange '0' '9' ++ charRange 'a' 'z' ++
    "._%+-".toList))

/-- The part of `emailRegEx` between `@` and the literal dot. -/
def emailHost : RegularExpression Char :=
  oneOrMore (charClass (charRange 'A' 'Z' ++ charRange 'a' 'z' ++ charRange '0' '9' ++
    ".-".toList))

/-- The part of `emailRegEx` after the literal dot. -/
def emailTopLevelDomain : RegularExpression Char :=
  repetition (charClass (charRange 'A' 'Z' ++ charRange 'a' 'z')) 2 64

/-- `emailRegEx`. -/
def emailRegEx : RegularExpression Char :=
  emailLocalPart * char '@' * emailHost * char '.' * emailTopLevelDomain

/-- `isValidEmail(testStr:)`. -/
def isValidEmail (testStr : String) : Bool := emailRegEx.rmatch testStr.toList

/-! ### The buttons -/

/-- What a click on one of the two buttons leads to. -/
inductive Attempt
  /-- The text of the error message is set. -/
  | errorMessage (text : String)
  /-- Firebase is asked to sign in, or to create a user. -/
  | firebase (email password : String)
deriving DecidableEq

/-- `loginButtonClicked`, up to the call of `signIn`. -/
def loginButtonClicked (ch : Characters) (email password : String) : Attempt :=
  if !isValidEmail email then .errorMessage "Invalid Email!"
  else if ch.count password.toList < 6 then
    .errorMessage "Password must be at least 6 characters long!"
  else .firebase email password

/-- `signUpButtonClicked`, up to the call of `createUser`. -/
def signUpButtonClicked {ch : Characters} (eq : ch.Equality)
    (email password passwordConfirm : String) : Attempt :=
  if !isValidEmail email then .errorMessage "Invalid Email!"
  else if ch.count password.toList < 6 then
    .errorMessage "Password must be at least 6 characters long!"
  else if !eq.same passwordConfirm.toList password.toList then
    .errorMessage "Passwords don't match!"
  else .firebase email passwordConfirm

end SpendingTracker
