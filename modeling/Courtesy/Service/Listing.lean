import Courtesy.Files.Disk
import Courtesy.Service.Request

/-!
# Files of a project

The service shows the files in the output directory of its project. A directory is shown as a list
of links, unless it holds an index page. A path leads to a directory exactly if it ends in a slash;
one that is written the other way is redirected.
-/

namespace Courtesy.Service.Listing

open Courtesy.Text

/-- A text as part of a page. -/
def pageText (s : String) : String :=
  String.join (s.toList.map fun c =>
    if c == '&' then "&amp;" else if c == '<' then "&lt;" else if c == '>' then "&gt;"
    else if c == '"' then "&#34;" else if c == '\'' then "&#39;" else String.singleton c)

def missing : Response :=
  { status := 404, body := "404 page not found\n", contentType := "text/plain; charset=utf-8" }

def broken : Response :=
  { status := 500, body := "500 Internal Server Error\n"
    contentType := "text/plain; charset=utf-8" }

/-- A redirection without a page. -/
def moved : Response := { status := 301, body := "" }

/-- The link to an entry of a directory. A colon in a name must not look like the end of
a scheme. -/
def link (name : String) : String :=
  let target := (if name.toList.contains ':' then "./" else "") ++ Percent.encode name
  s!"<a href=\"{target}\">{pageText name}</a>"

/-- A directory as a page. -/
def page (t : Tree) (p : Place) : Response :=
  let names := (t.below p).filterMap fun (q, e) => match q with
    | [name] => some (if e = .folder then name ++ "/" else name)
    | _ => none
  { status := 200
    body := unlines (["<!doctype html>",
      "<meta name=\"viewport\" content=\"width=device-width\">", "<pre>"]
      ++ names.map link ++ ["</pre>"])
    contentType := "text/html; charset=utf-8" }

/-- A file as an answer; the answer to a question about its head is empty. -/
def content (method text : String) : Response :=
  { status := 200, body := if method == "HEAD" then "" else text }

/-- The answer for a path below a directory of the disk. -/
def answer (d : Disk) (root method path : String) : Response :=
  let asked := "/" ++ path
  if endsWith "/index.html" asked then moved
  else
    match d.lookup (Path.join root (Path.clean asked)) with
    | .error .missing | .error .notFolder => missing
    | .error _ => broken
    | .ok (_, .file text) => if endsWith "/" asked then moved else content method text
    | .ok (p, .folder) =>
      if !endsWith "/" asked then moved
      else match d.tree.get? (p ++ ["index.html"]) with
        | some (.file text) => content method text
        | _ => page d.tree p

end Courtesy.Service.Listing
