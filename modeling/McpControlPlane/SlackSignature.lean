import McpControlPlane.GatewayOps
import McpControlPlane.PyInt

/-! # Signatures of Slack callbacks

`verify_signature` checks the age of the timestamp and the HMAC of the timestamp and the body.
The URL of the request is not part of what is signed. -/
namespace SlackSignature

open PyText Binary64 JsonText PyInt GatewayOps Interleaving

def replayToleranceSeconds : ℕ := 300

/-- `abs(now - request_ts) > 300` in double precision; `none` is an `OverflowError`. -/
def stale (now : Magnitude) (requestTs : ℤ) : Option Bool :=
  (roundMagnitude (requestTs.natAbs * 2 ^ scale) 1).map fun ts =>
    let signed : ℤ := if requestTs < 0 then -(ts.units : ℤ) else ts.units
    match roundMagnitude ((now.units : ℤ) - signed).natAbs 1 with
    | none => true
    | some age => decide (replayToleranceSeconds * 2 ^ scale < age.units)

/-- `mac` is the hex HMAC-SHA256 under the signing secret, `none` where no secret is configured. -/
structure Slack where
  mac : Option (Bytes → Str)

/-- `b"v0:" + timestamp.encode() + b":" + body`. -/
def signedBytes (timestamp : Str) (body : Bytes) : Option Bytes :=
  (utf8Encode (lit "v0:" ++ timestamp ++ lit ":")).map fun b => b ++ body

/-- `compare_digest` refuses texts outside of ASCII. -/
def signatureMatches (mac : Bytes → Str) (timestamp : Str) (body : Bytes) (signature : Str) :
    Except GwError Bool :=
  match signedBytes timestamp body with
  | none => .error .value
  | some b =>
    if signature.all ascii then .ok (decide (lit "v0=" ++ mac b = signature)) else .error .type

/-- `None` and the empty text. -/
def missing (s : Option Str) : Bool := (s.getD []).isEmpty

def verifySignature (S : Slack) (timestamp : Option Str) (body : Bytes) (signature : Option Str) :
    Prog gateway Bool :=
  match S.mac with
  | none => return false
  | some mac =>
    if missing timestamp || missing signature then return false
    else
      match readInt (timestamp.getD []) with
      | none => return false
      | some requestTs => do
        let now : Magnitude ← perform (S := gateway) .time
        match stale now requestTs with
        | none => .raise .overflow
        | some true => return false
        | some false =>
          match signatureMatches mac (timestamp.getD []) body (signature.getD []) with
          | .error e => .raise e
          | .ok valid => return valid

/-- The signature is the one of the timestamp and the body. -/
def Signed (S : Slack) (timestamp : Option Str) (body : Bytes) (signature : Option Str) : Prop :=
  ∃ mac, S.mac = some mac ∧
    signatureMatches mac (timestamp.getD []) body (signature.getD []) = .ok true

theorem verifySignature_sat {S : Slack} {timestamp signature : Option Str} {body : Bytes}
    {ok : Trace gateway → GwOp → Prop} {post : Except GwError Bool → Trace gateway → Prop}
    {tr : Trace gateway} (htime : ok tr .time) (hearly : post (.ok false) tr)
    (hrefused : ∀ now, post (.ok false) (⟨.time, some now⟩ :: tr))
    (hraised : ∀ now e, post (.error e) (⟨.time, some now⟩ :: tr))
    (hvalid : ∀ now, Signed S timestamp body signature →
      post (.ok true) (⟨.time, some now⟩ :: tr)) :
    Sat ok post (verifySignature S timestamp body signature) tr := by
  unfold verifySignature
  cases hmac : S.mac with
  | none => exact hearly
  | some mac =>
    by_cases hm : (missing timestamp || missing signature) = true
    · simp only [hm, if_true]
      exact hearly
    · simp only [hm, Bool.false_eq_true, if_false]
      cases readInt (timestamp.getD []) with
      | none => exact hearly
      | some requestTs =>
        refine sat_perform.mpr ⟨htime, fun now => ?_, nofun⟩
        cases stale now requestTs with
        | none => exact hraised now _
        | some old =>
          cases old with
          | true => exact hrefused now
          | false =>
            cases hs : signatureMatches mac (timestamp.getD []) body (signature.getD []) with
            | error e =>
              simp only
              exact hraised now e
            | ok valid =>
              simp only
              cases valid with
              | true => exact hvalid now ⟨mac, hmac, hs⟩
              | false => exact hrefused now

end SlackSignature
