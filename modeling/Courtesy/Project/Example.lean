import Courtesy.Text.Pieces
import Courtesy.Text.Quoted

/-!
# Bundled examples

Small programs that come with the library, in the order of their names.
-/

namespace Courtesy

open Courtesy.Text

structure Example where
  name : String
  source : String
  deriving DecidableEq, Repr, Inhabited

namespace Example

def average : Example where
  name := "average"
  source := unlines [
    "please define function decimal average(integer a, integer b, integer c) \x7b",
    "    please create decimal total equals a add b add c",
    "    thank you for returning total div 3",
    "\x7d",
    "",
    "please define function void main() \x7b",
    "    please create integer first equals 10",
    "    please create integer second equals 20",
    "    please create integer third equals 30",
    "    please create decimal result equals please call average(first, second, third)",
    "    thank you for printing \"The average is: \" add result",
    "\x7d"]

def countdown : Example where
  name := "countdown"
  source := unlines [
    "please define function void main() \x7b",
    "    please create integer countdown equals 10",
    "    thank you for looping while countdown greater then 0 \x7b",
    "        thank you for printing countdown",
    "        countdown equals countdown sub 1",
    "    \x7d",
    "    thank you for printing \"Blastoff!\"",
    "\x7d"]

def factorial : Example where
  name := "factorial"
  source := unlines [
    "please define function integer factorial(integer n) \x7b",
    "    please create integer result equals 1",
    "    thank you for checking if n greater then 1 \x7b",
    "        please create integer previous equals please call factorial(n sub 1)",
    "        result equals n mul previous",
    "    \x7d",
    "    thank you for returning result",
    "\x7d",
    "",
    "please define function void main() \x7b",
    "    please create integer number equals 5",
    "    please create integer answer equals please call factorial(number)",
    "    thank you for printing number add \"! = \" add answer",
    "\x7d"]

def greeting : Example where
  name := "greeting"
  source := unlines [
    "please define function text greet(text name) \x7b",
    "    thank you for returning \"Hello, \" add name",
    "\x7d",
    "",
    "please define function void main() \x7b",
    "    please create text message equals please call greet(\"World\")",
    "    thank you for printing message",
    "\x7d"]

def hello : Example where
  name := "hello"
  source := unlines [
    "please define function void main() \x7b",
    "    thank you for printing \"Hello, World!\"",
    "\x7d"]

def loop : Example where
  name := "loop"
  source := unlines [
    "please define function void main() \x7b",
    "    thank you for looping from 1 to 5 \x7b",
    "        thank you for printing \"Loop iteration: \" add i",
    "    \x7d",
    "\x7d"]

def positive : Example where
  name := "positive"
  source := unlines [
    "please define function boolean positive(integer num) \x7b",
    "    thank you for checking if num greater then 0 \x7b",
    "        thank you for returning true",
    "    \x7d",
    "    thank you for returning false",
    "\x7d",
    "",
    "please define function void main() \x7b",
    "    please create integer number equals 42",
    "    please create boolean result equals please call positive(number)",
    "    thank you for printing result",
    "\x7d"]

def temperature : Example where
  name := "temperature"
  source := unlines [
    "please define function decimal fahrenheit(decimal celsius) \x7b",
    "    thank you for returning celsius mul 9 div 5 add 32",
    "\x7d",
    "",
    "please define function void main() \x7b",
    "    please create decimal temperature equals 25",
    "    please create decimal converted equals please call fahrenheit(temperature)",
    "    thank you for printing temperature add \" C = \" add converted add \" F\"",
    "\x7d"]

/-- All examples. -/
def all : List Example :=
  [average, countdown, factorial, greeting, hello, loop, positive, temperature]

/-- The example with a given name. -/
def find? (name : String) : Option Example := all.find? (·.name == name)

/-- The wording with which an unknown name is refused. -/
def refusal (name : String) : String := s!"no template named {quote name}"

end Example

end Courtesy
