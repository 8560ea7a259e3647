import Hailing.Http.Call

/-!
# The service

A request is answered with the value of its call, or with the refusal of it
under the status of its kind. A path without a route and a route without the
method are answered with nothing but a status, and a request to know the
options is always granted.
-/

namespace Hailing.Http

open Json (Value)

structure Response where
  status : Nat
  contentType : Option String
  content : Option Content
  deriving Repr

namespace Response

def jsonType : String := "application/json"

def bare (status : Nat) : Response := ⟨status, none, none⟩

def ofRejection (r : Rejection) : Response :=
  ⟨r.status, some "text/plain; charset=utf-8", none⟩

def ofContent : Content → Response
  | .value v => ⟨200, some jsonType, some (.value v)⟩
  | .lines lines =>
    ⟨200, some "text/plain; version=0.0.4; charset=utf-8", some (.lines lines)⟩

/-- The body of a refusal. -/
def refusalBody (message : String) : Value := .record [("error", .text message)]

def ofRefusal (r : Refusal) : Response :=
  ⟨r.kind.status, some jsonType, some (.value (refusalBody r.message))⟩

def ofAnswer : Answer Content → Except Breakdown Response
  | .done content => .ok (ofContent content)
  | .refused refusal => .ok (ofRefusal refusal)
  | .broken breakdown => .error breakdown

/-- The answer to one who asked for all but the body. -/
def withoutBody (r : Response) : Response := { r with content := none }

end Response

namespace Request

/-- Answers a request for a route that has its method. -/
def serve (r : Request) (route : Route) (desk : Desk) : Except Breakdown Response × Desk :=
  match r.call route with
  | .error rejection => (.ok (.ofRejection rejection), desk)
  | .ok call =>
    let (answer, desk) := call.run desk
    (Response.ofAnswer answer, desk)

def handle (r : Request) (desk : Desk) : Except Breakdown Response × Desk :=
  if r.method = "OPTIONS" then (.ok (.bare 200), desk)
  else
    match Route.ofPath? r.target.path with
    | none => (.ok (.bare 404), desk)
    | some route =>
      if route.allows r.method then
        let (response, desk) := r.serve route desk
        (if r.method = "HEAD" then Response.withoutBody <$> response else response, desk)
      else (.ok (.bare 405), desk)

end Request

end Hailing.Http
