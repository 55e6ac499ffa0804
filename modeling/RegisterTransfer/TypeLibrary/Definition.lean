import RegisterTransfer.Text.Blank
import RegisterTransfer.Text.Case
import RegisterTransfer.Text.Numeral
import RegisterTransfer.Text.Utf8
import RegisterTransfer.TypeLibrary.Library

/-!
Module-definition files. A LIBRARY line names the module, and an EXPORTS line starts a section that
lists one exported name to a line, with its ordinal after an at sign. A semicolon starts a comment.
A carriage return before the end of a line is a blank, and goes when the line is trimmed.
-/
namespace RegisterTransfer.TypeLibrary.Definition

inductive Fault
  | notUtf8 (fault : Text.Utf8.Fault)
  | unnamedLibrary
  | badOrdinal (token : String)
deriving DecidableEq, Repr

def Fault.message : Fault → String
  | .notUtf8 fault => fault.message
  | .unnamedLibrary => "LIBRARY without a name"
  | .badOrdinal token => "bad ordinal '" ++ token ++ "'"

structure Draft where
  moduleName : Option String
  exporting : Bool
  exported : List Service

def withoutComment (line : List Char) : List Char := Text.trim (line.takeWhile (· != ';'))

def isWord (w : List Char) (keyword : String) : Bool := Text.sameIgnoringCase w keyword.toList

/-- Tokens without an at sign have no meaning here; of several ordinals the last one counts. -/
def readOrdinal (sofar : Option Int) : List (List Char) → Except Fault (Option Int)
  | [] => .ok sofar
  | ('@' :: numeral) :: rest =>
    match Text.int32? numeral with
    | some n => readOrdinal (some n) rest
    | none => .error (.badOrdinal (String.ofList ('@' :: numeral)))
  | _ :: rest => readOrdinal sofar rest

def exportedName (w : List Char) : String := String.ofList (w.takeWhile (· != '='))

def readExport (first : List Char) (rest : List (List Char)) : Except Fault Service :=
  (readOrdinal none rest).map fun ordinal => ⟨exportedName first, ordinal, none⟩

def libraryName (line first : List Char) : List Char :=
  Text.trimChar '"' (Text.trim (line.drop first.length))

def Draft.addLine (d : Draft) (line : List Char) : Except Fault Draft :=
  let line := withoutComment line
  match Text.words line with
  | [] => .ok d
  | first :: rest =>
    if isWord first "LIBRARY" then
      match libraryName line first with
      | [] => .error .unnamedLibrary
      | name => .ok { d with moduleName := some (String.ofList name), exporting := false }
    else if isWord first "EXPORTS" then .ok { d with exporting := true }
    else if d.exporting then
      (readExport first rest).map fun s => { d with exported := s :: d.exported }
    else .ok d

def Draft.addLines (n : Nat) (d : Draft) : List (List Char) → Except (Nat × Fault) Draft
  | [] => .ok d
  | line :: rest =>
    match d.addLine line with
    | .ok d => d.addLines (n + 1) rest
    | .error fault => .error (n, fault)

/-- Lines count from 1; text that cannot be decoded counts as line 0. -/
def read (stem : String) (bytes : List UInt8) : Except (Nat × Fault) Library :=
  match Text.Utf8.decode bytes with
  | .error fault => .error (0, .notUtf8 fault)
  | .ok text =>
    (Draft.addLines 1 ⟨none, false, []⟩ (Text.cutAt '\n' text)).map fun d =>
      .ofServices (d.moduleName.getD stem) d.exported.reverse

end RegisterTransfer.TypeLibrary.Definition
