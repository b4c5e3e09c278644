import Adehun.WalletRepository
import Mathlib.Data.List.Infix

/-!
# The payment provider's client

Every way a request to the provider can end, mapped to what the callers see:
the `data` of the answer, or a `PaystackError` of one of four classes. Reads
are retried; a transfer is sent once. The classes matter to a withdrawal,
which reverses its debit on some of them and leaves it alone on the others.
-/

namespace Adehun

open Sessions

def paystackError (message : String) : Exn := .app .paystack message

def paystackTimeout : Exn := .app .paystackTimeout "Payment provider timed out"

/-- `except PaystackError`, subclasses included. -/
def Exn.isPaystackError : Exn → Bool
  | .app c _ => c.isPaystack
  | _ => false

/-- `err.message` of an application error. -/
def Exn.message : Exn → String
  | .app _ m => m
  | _ => ""

/-! ## Sniffing a rejection -/

def validationHints : List String :=
  ["could not resolve", "cannot resolve", "invalid", "not found", "unknown bank",
    "no such", "is required", "must be"]

/-- Whether a hint occurs in a lower-cased message. -/
def mentions (lowered : List Char) (hint : String) : Bool :=
  decide (hint.toList <:+: lowered)

/-- `str.lower`, as far as ASCII letters come out of it: the Kelvin sign is the
one character outside ASCII that is lowered to one of them. -/
def lower (message : String) : List Char :=
  message.toList.map fun c => if c = '\u212a' then 'k' else c.toLower

def looksLikeValidation (message : String) : Bool :=
  validationHints.any (mentions (lower message))

def looksLikeDuplicateReference (message : String) : Bool :=
  mentions (lower message) "reference" &&
    (mentions (lower message) "duplicate" || mentions (lower message) "already" ||
      mentions (lower message) "has been used")

/-- `message or fallback` -/
def messageOr (message fallback : String) : String :=
  if message = "" then fallback else message

/-! ## Transport -/

/-- The `data` of an answer, or the exception the body stands for. A `data`
that is not an object is handed on; whoever reads a field of it raises. -/
def parse (statusCode : Nat) : HttpBody → Except Exn (Option ProviderData)
  | .notJson => .error (paystackError "Unexpected response from the payment provider")
  | .notAnObject => .error .attribute
  | .object false message _ =>
      if looksLikeDuplicateReference message then
        .error (.app .paystackDuplicateReference
          (messageOr message "This reference has already been used"))
      else if statusCode < 500 && looksLikeValidation message then
        .error (.app .paystackValidation (messageOr message "Request was rejected"))
      else .error (paystackError (messageOr message "Payment provider error"))
  | .object true _ data =>
      match data with
      | .missing => .error (paystackError "Payment provider returned no data")
      | .object d => .ok (some d)
      | .notAnObject => .ok none

/-- How one attempt at a request ends: for good, or so that another attempt
may follow, in which case with what exception if it does not. -/
def Transport.outcome : Transport → Except Exn (Option ProviderData) × Bool
  | .timeout | .connectError => (.error paystackTimeout, true)
  | .requestError => (.error (paystackError "Could not reach the payment provider"), false)
  | .response code body =>
      if code ≥ 500 then
        (.error (paystackError ("Payment provider returned " ++ toString code)), true)
      else (parse code body, false)

def ofExcept {α : Type} : Except Exn α → App α
  | .ok a => pure a
  | .error e => .raise e

/-- `_RETRY_BACKOFF_SECONDS`, in half seconds. -/
def retryBackoff : Nat → Nat
  | 0 => 1
  | _ => 3

/-- Perform a request, with some attempts left after this one. -/
def requestFrom (r : ProviderRequest) (attempt : Nat) :
    (left : Nat) → App (Option ProviderData)
  | 0 => do
      let t ← Prog.perform (Stmt.await (M := adehun) (.provider r))
      ofExcept t.outcome.1
  | left + 1 => do
      let t ← Prog.perform (Stmt.await (M := adehun) (.provider r))
      if t.outcome.2 then do
        let _ ← Prog.perform (Stmt.await (M := adehun) (.sleep (retryBackoff attempt)))
        requestFrom r (attempt + 1) left
      else ofExcept t.outcome.1

def request (r : ProviderRequest) (retries : Nat := 0) : App (Option ProviderData) :=
  requestFrom r 0 retries

/-- `data.get(...)` on an answer's `data`. -/
def fields (data : Option ProviderData) : App ProviderData :=
  match data with
  | some d => pure d
  | none => .raise .attribute

/-! ## Endpoints -/

def initializeTransaction (email : String) (amountKobo : Int)
    (reference : PaystackReference) (channel : String) : App (Option ProviderData) :=
  request (.initializeTransaction email amountKobo reference channel)

/-- Server-side truth for a charge. -/
def verifyTransaction (reference : PaystackReference) : App (Option ProviderData) :=
  request (.verifyTransaction reference) 2

/-- Send money out. Never retried. -/
def initiateTransfer (amountKobo : Int) (recipientCode : String)
    (reference : PaystackReference) (reason : String) : App (Option ProviderData) :=
  request (.initiateTransfer amountKobo recipientCode reference reason)

/-- Server-side truth for a transfer. -/
def verifyTransfer (reference : PaystackReference) : App (Option ProviderData) :=
  request (.verifyTransfer reference) 2

end Adehun
