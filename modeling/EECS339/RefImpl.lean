import EECS339.Lib.Tokens
import EECS339.Block

/-!
# The reference implementation

`ref_impl.pl` without debugging output and with bug probability 0: a map from keys
to values, driven by request lines. A line is given with its newline.
-/
namespace BTreeLab
open Tokens

abbrev Line := List ByteT

/-- White space, as `isspace` and `\s` have it for bytes. -/
def isSpace (b : ByteT) : Bool := b = 32 || (9 ≤ b && b ≤ 13)

inductive Action where
  | init
  | insert
  | update
  | delete
  | lookup
  | display
  | deinit
  | unknown
  deriving DecidableEq

def Action.ofWord (w : List ByteT) : Action :=
  if w = text "INIT" then .init
  else if w = text "INSERT" then .insert
  else if w = text "UPDATE" then .update
  else if w = text "DELETE" then .delete
  else if w = text "LOOKUP" then .lookup
  else if w = text "DISPLAY" then .display
  else if w = text "DEINIT" then .deinit
  else .unknown

/-- A value is undefined when the request that stored it had none. -/
abbrev Content := List (List ByteT × Option (List ByteT))

inductive RefImpl where
  | start
  | running (content : Content) (groups : Line × Line)
  | stopped

namespace RefImpl

/-- `$content{$key}`; none when it is not defined. -/
def get (content : Content) (key : List ByteT) : Option (List ByteT) := (content.lookup key).join

def put (content : Content) (key : List ByteT) (value : Option (List ByteT)) : Content :=
  (key, value) :: content.filter fun e => e.1 ≠ key

/-- `$1` and `$2` behind `/^(\S+)\s+(.*)$/`; without a match they keep the values they
have from an earlier line. -/
def matchLine (groups : Line × Line) (line : Line) : Line × Line :=
  let op := line.takeWhile fun b => !isSpace b
  let behind := line.dropWhile fun b => !isSpace b
  if op = [] ∨ behind = [] then groups
  else (op, (behind.dropWhile isSpace).takeWhile fun b => b ≠ 10)

/-- The first two of `split(/\s+/, $rest)`; `$rest` does not start with white space. The split is
limited to the variables and one more field, so white space at the end has an empty field behind it. -/
def splitRest (rest : List ByteT) : List ByteT × Option (List ByteT) :=
  let (key, behind) := token isSpace rest
  (key, if behind = [] then none else some (token isSpace behind).1)

def displayLines (content : Content) : List ByteT :=
  (content.mergeSort fun a b => a.1 ≤ b.1).flatMap fun e =>
    text "(" ++ e.1 ++ text ", " ++ e.2.getD [] ++ text ")\n"

/-- What one line prints and leaves; a second `INIT` is unknown. -/
def refLine : RefImpl → Line → List ByteT × RefImpl
  | .start, line =>
      if Action.ofWord (line.takeWhile fun b => !isSpace b) = .init then
        (text "OK\n", .running [] ([], []))
      else ([], .stopped)
  | .running content groups, line =>
      let groups := matchLine groups line
      let (key, value) := splitRest groups.2
      match Action.ofWord groups.1 with
      | .insert =>
          if (get content key).isSome then (text "FAIL\n", .running content groups)
          else (text "OK\n", .running (put content key value) groups)
      | .update =>
          if (get content key).isNone then (text "FAIL\n", .running content groups)
          else (text "OK\n", .running (put content key value) groups)
      | .delete =>
          if (get content key).isNone then (text "FAIL\n", .running content groups)
          else (text "OK\n", .running (content.filter fun e => e.1 ≠ key) groups)
      | .lookup =>
          match get content key with
          | none => (text "FAIL\n", .running content groups)
          | some value => (text "OK " ++ value ++ text "\n", .running content groups)
      | .display =>
          (text "OK BEGIN DISPLAY\n" ++ displayLines content ++ text "OK END DISPLAY\n",
            .running content groups)
      | .deinit => (text "OK\n", .stopped)
      | .init | .unknown => (text "FAIL\n", .running content groups)
  | .stopped, _ => ([], .stopped)

end RefImpl
end BTreeLab
