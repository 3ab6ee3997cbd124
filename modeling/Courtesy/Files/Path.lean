import Courtesy.Text.Pieces

/-!
# Paths

A path is written with slashes. `clean` shortens it by its text alone: empty elements and `.` are
dropped and `..` takes back the element in front of it, as far as there is one.
-/

namespace Courtesy.Path

open Courtesy.Text

/-- The elements between the slashes, empty ones included. -/
def elements (p : String) : List String :=
  (split (· == '/') p.toList).map String.ofList

/-- Whether a path starts at the root. -/
def isRooted (p : String) : Bool := startsWith "/" p

/-- The kept elements, the last first, with one more element. Above the root there is nothing, above
any other start there are further `..` elements. -/
def keep (rooted : Bool) (kept : List String) (element : String) : List String :=
  if element == "" || element == "." then kept
  else if element == ".." then
    match kept with
    | [] => if rooted then [] else [".."]
    | ".." :: _ => ".." :: kept
    | _ :: rest => rest
  else element :: kept

/-- The elements that remain when a path is shortened. -/
def cleanElements (p : String) : List String :=
  ((elements p).foldl (keep (isRooted p)) []).reverse

/-- The shortest path with the same meaning. -/
def clean (p : String) : String :=
  let kept := "/".intercalate (cleanElements p)
  if isRooted p then "/" ++ kept else if kept == "" then "." else kept

/-- The shortened path of `q` below `p`. -/
def join (p q : String) : String :=
  if p == "" then (if q == "" then "" else clean q)
  else if q == "" then clean p
  else clean (p ++ "/" ++ q)

/-- A path without the slashes it ends in. -/
def dropSlashes (p : String) : String :=
  String.ofList (p.toList.reverse.dropWhile (· == '/')).reverse

/-- The last element of a path. -/
def base (p : String) : String :=
  if p == "" then "."
  else
    let bare := dropSlashes p
    if bare == "" then "/" else (elements bare).getLast?.getD ""

/-- Everything in front of the last slash. -/
def front (p : String) : String :=
  String.ofList (p.toList.reverse.dropWhile (· != '/')).reverse

/-- The shortened path of the directory that a path names an element of. -/
def dir (p : String) : String := clean (front p)

end Courtesy.Path
