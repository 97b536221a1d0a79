import AgenticLocalApp.Library.Replace
import AgenticLocalApp.Transport.Templates

/-!
# Redacted URLs

The URL of an error is the URL of the call with every secret masked as it is.  Behind a placeholder
a secret stands in the URL percent-encoded, and is masked there only where its encoding repeats it:
it is hidden in a call whose URL does not come to have the encoded secret in it.
-/

namespace AgenticLocalApp

open Http

namespace Templates

/-! ## The secrets of a call -/

/-- `_ENV_RE.finditer`: the names of the variables that a text refers to. -/
def envNamesFrom : (skip : Nat) → Text → List Text
  | _, [] => []
  | skip + 1, _ :: cs => envNamesFrom skip cs
  | 0, c :: cs =>
    match envAt (c :: cs) with
    | some (name, rest) => name :: envNamesFrom (cs.length - rest.length) cs
    | none => envNamesFrom 0 cs

/-- `_config.token`. -/
def configToken (environ : Text → Option Text) (tokenEnv : String) : Option Text :=
  let value := stripChars isBlankChar ((environ tokenEnv.toList).getD [])
  if value = [] then none else some value

/-- A call of the templated provider. -/
structure TemplatedCall where
  options : TemplatedOptions
  /-- The texts of the options, those of the other operations with them. -/
  leaves : List Text
  url : Text
  url_mem : url ∈ leaves
  operation : String
  values : List (String × Json)
  tokenEnv : String
  environ : Text → Option Text

namespace TemplatedCall

variable (str : Json → Text) (call : TemplatedCall)

def token : Option Text := configToken call.environ call.tokenEnv

/-- `_env_names`. -/
def envNames : List String :=
  ((call.leaves.flatMap (envNamesFrom 0)).map String.ofList).dedup.mergeSort fun a b => a ≤ b

def secrets : Secrets where
  token := call.token.map String.ofList
  environment := call.envNames.filterMap fun name => (call.environ name.toList).map String.ofList

def renderer : Renderer :=
  ⟨call.operation, call.values, call.tokenEnv, call.token, call.environ⟩

/-- `_call`, of which only the URL is asked. -/
def render : Except Exc Text := call.renderer.text str true call.url

/-- The template of the URL with each of its references replaced by what it means. -/
def Replaced (url : Text) : Prop :=
  ∃ values, List.Forall₂ (call.renderer.Placed str true) (segments call.url) values ∧
    url = values.flatten

theorem render_iff {str : Json → Text} {call : TemplatedCall} {url : Text} :
    call.render str = .ok url ↔ call.Replaced str url := Renderer.text_iff

end TemplatedCall

/-- The name of a variable that a template can refer to. -/
structure EnvName where
  name : Text
  start : name.head?.any isNameStart = true
  chars : ∀ c ∈ name, isNameChar c = true

/-- Where a secret comes from. -/
inductive SecretPlace where
  | token
  | environment (name : EnvName)

/-- What can be a secret: a token is stripped, and an empty value is none. -/
def SecretPlace.IsSecret (secret : Text) : SecretPlace → Prop
  | .token => secret ≠ [] ∧ stripChars isBlankChar secret = secret
  | .environment _ => secret ≠ []

/-- The secret of the place in a call. -/
def SecretPlace.Holds (call : TemplatedCall) (secret : Text) : SecretPlace → Prop
  | .token => call.token = some secret
  | .environment name => .ofList name.name ∈ call.envNames ∧ call.environ name.name = some secret

theorem SecretPlace.IsSecret.ne_nil {place : SecretPlace} {secret : Text}
    (h : place.IsSecret secret) : secret ≠ [] := by
  cases place with
  | token => exact h.1
  | environment name => exact h

end Templates

end AgenticLocalApp
