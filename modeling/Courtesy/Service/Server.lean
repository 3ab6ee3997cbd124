import Courtesy.Project.Config
import Courtesy.Project.Example
import Courtesy.Service.Description
import Courtesy.Service.Json
import Courtesy.Service.Limiter
import Courtesy.Service.Listing
import Courtesy.Service.Metrics

/-!
# The service

The service translates programs. A translation request is put to the limiter of its host, whatever
it holds, and refused if the limiter does not let it through. The limiters are made of the rate and
the burst of the project; how they refill with time is left to the library. A request that is let
through has to be a post with a source in it. Every translation enters the metrics.
-/

namespace Courtesy.Service

open Courtesy.Text

/-- What a request to translate asks for. Without a namespace the one of the project is taken. -/
structure TranslateRequest where
  source : String := ""
  ns : Option String := none
  deriving DecidableEq, Repr, Inhabited

namespace TranslateRequest

/-- The longest body that is read, in bytes. -/
def maxBytes : Nat := Nat.pow 2 20

/-- The characters that fit in a number of bytes, the last first. -/
def fitting : Nat → List Char → List Char → List Char
  | _, acc, [] => acc
  | room, acc, c :: rest =>
    if c.utf8Size ≤ room then fitting (room - c.utf8Size) (c :: acc) rest else acc

/-- A character without its case. Two signs are variants of a letter. -/
def foldCase (c : Char) : Char :=
  if c.toNat == 0x17f then 's' else if c.toNat == 0x212a then 'k' else c.toLower

/-- Whether a key names a field. Case does not matter. -/
def names (key field : String) : Bool := key.toList.map foldCase == field.toList

/-- The request with one more field. Fields that mean nothing are ignored, and an empty value leaves
the source as it is but takes the namespace back. -/
def set (r : TranslateRequest) (key : String) (value : Json) : Option TranslateRequest :=
  if names key "source" then
    match value with
    | .text s => some { r with source := s }
    | .null => some r
    | _ => none
  else if names key "namespace" then
    match value with
    | .text s => some { r with ns := some s }
    | .null => some { r with ns := none }
    | _ => none
  else some r

/-- The request that a value holds. -/
def ofJson? : Json → Option TranslateRequest
  | .null => some {}
  | .object fields => fields.foldlM (fun r (key, value) => r.set key value) {}
  | _ => none

/-- The request that a body holds. What stands behind the first value is ignored, and what is too
long is not read. -/
def ofBody? (body : String) : Option TranslateRequest := do
  let cs := (fitting maxBytes [] body.toList).reverse
  let (value, rest) ← Json.read? cs
  let whole := body.utf8ByteSize ≤ maxBytes
  if whole || value.isBracketed || !rest.isEmpty then ofJson? value else none

end TranslateRequest

/-- The service of a project. -/
structure Server (L : Library := .still) where
  config : Config
  limiters : HostLimiters L := { rate := config.server.rateLimit, burst := config.server.burst }
  metrics : Metrics := {}

namespace Server

variable {L : Library}

/-- An answer that holds a value. -/
def reply (status : Nat) (value : Json) : Response :=
  { status := status, body := value.render ++ "\n", contentType := "application/json" }

def refusal (status : Nat) (message : String) : Response :=
  reply status (.object [("error", .text message)])

def diagnosticJson (d : Diagnostic) : Json :=
  .object (
    [("category", .text d.category.name), ("message", .text d.message)]
    ++ (if d.line = 0 then [] else [("line", .int d.line)])
    ++ (if d.column = 0 then [] else [("column", .int d.column)])
    ++ (if d.terminal then [("terminal", .flag true)] else []))

/-- A translation as a value. -/
def translationJson (id : String) (options : Target.Options) (run : Run) : Json :=
  .object [("id", .text id), ("ok", .flag run.succeeded), ("code", .text (run.code options)),
    ("diagnostics", .list (run.diagnostics.map diagnosticJson))]

/-- The options for a translation. -/
def options (s : Server L) (r : TranslateRequest) : Target.Options :=
  match r.ns with
  | some ns => { s.config.options with ns := ns }
  | none => s.config.options

/-- What is said about a body that holds no request. -/
def bodyRefusal (L : Library) (body : String) : String :=
  "invalid request body" ++ ((L.wording body).map (": " ++ ·)).getD ""

/-- Answers a request to translate that is let through. -/
def translated (s : Server L) (id : String) (r : Request) : Server L × Response :=
  if r.method != "POST" then (s, { refusal 405 "use POST" with allow := "POST" })
  else match TranslateRequest.ofBody? r.body with
    | none => (s, refusal 400 (bodyRefusal L r.body))
    | some asked =>
      if trim asked.source == "" then (s, refusal 400 "source is empty")
      else
        let run := translate asked.source
        ({ s with metrics := s.metrics.observe run },
         reply 200 (translationJson id (s.options asked) run))

/-- Answers a request to translate. The limiter is asked before anything else. -/
def translation (s : Server L) (now : Moment) (r : Request) : Server L × Response :=
  let (allowed, limiters) := s.limiters.allow now r.client
  let s := { s with limiters := limiters }
  if allowed then s.translated now.id r else (s, refusal 429 "rate limit exceeded")

/-- What a path leads to. -/
inductive Route where
  | health
  | translate
  | examples
  | description
  | metrics
  | generated (path : String)
  | nothing
  deriving DecidableEq, Repr

/-- Where the files of the project start. -/
def filesPath : String := "/generated/"

def Route.ofPath (path : String) : Route :=
  if path == "/api/health" then .health
  else if path == "/api/translate" then .translate
  else if path == "/api/templates" then .examples
  else if path == "/api/openapi.yaml" then .description
  else if path == "/metrics" then .metrics
  else if startsWith filesPath path then
    .generated (String.ofList (path.toList.drop filesPath.length))
  else .nothing

/-- Where a path is redirected to: the directory of the files needs its slash, and other paths their
shortest form. -/
def redirect? (path : String) : Option String :=
  let clean := Request.cleanPath path
  if clean ++ "/" == filesPath then some filesPath
  else if clean != path then some clean
  else none

/-- The answer that sends a client to another path. -/
def redirection (r : Request) (path : String) : Response :=
  let target := Percent.encode path ++ (if r.query == "" then "" else "?" ++ r.query)
  let shown := r.method == "GET" || r.method == "HEAD"
  { status := 301
    body := if r.method == "GET" then
        s!"<a href=\"{Listing.pageText target}\">Moved Permanently</a>.\n\n"
      else ""
    contentType := if shown then "text/html; charset=utf-8" else "" }

/-- The examples as a value. -/
def examplesJson : Json :=
  .list (Example.all.map fun e => .object [("name", .text e.name), ("source", .text e.source)])

/-- The description of the service as an answer. -/
def described : Response :=
  match description? version with
  | some text => { status := 200, body := text, contentType := "application/yaml" }
  | none => refusal 500 versionRefusal

/-- Answers a request for a route. -/
def answer (s : Server L) (d : Disk) (now : Moment) (r : Request) : Route → Server L × Response
  | .health => (s, reply 200 (.object [("status", .text "ok"), ("timestamp", .text now.time)]))
  | .translate => s.translation now r
  | .examples => (s, reply 200 examplesJson)
  | .description => (s, described)
  | .metrics => (s, { status := 200, body := s.metrics.render })
  | .generated path =>
    (s, if startsWith filesPath r.rawPath then
        Listing.answer d (s.config.outputPath ".") r.method path
      else Listing.missing)
  | .nothing => (s, Listing.missing)

/-- Answers a request. -/
def handle (s : Server L) (d : Disk) (now : Moment) (r : Request) : Server L × Response :=
  match redirect? r.path with
  | some path => (s, redirection r path)
  | none => s.answer d now r (Route.ofPath r.path)

end Server

end Courtesy.Service
