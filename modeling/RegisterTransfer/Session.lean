import RegisterTransfer.Architecture

/-!
Sessions over an image, pulled one instruction at a time: one that decodes, and one that lifts. A
session is over at the end of the image, and after a failure to decode, which it reports once.
-/
namespace RegisterTransfer

structure Decoding where
  architecture : Architecture
  cursor : Cursor
  failed : Bool
deriving DecidableEq

namespace Decoding

def start (a : Architecture) (c : Cursor) : Decoding := ⟨a, c, false⟩

def next (s : Decoding) : Option (Except DecodeError Instruction × Decoding) :=
  if s.failed || s.cursor.isAtEnd then none
  else
    match s.architecture.step s.cursor with
    | (.ok i, cursor) => some (.ok i, { s with cursor })
    | (.error e, cursor) => some (.error e, { s with cursor, failed := true })

def take : Nat → Decoding → List (Except DecodeError Instruction) × Decoding
  | 0, s => ([], s)
  | n + 1, s =>
    match s.next with
    | none => ([], s)
    | some (item, s) =>
      let (items, s) := take n s
      (item :: items, s)

/-- Every item takes at least one byte, so there are no more than bytes remain. -/
def run (s : Decoding) : List (Except DecodeError Instruction) × Decoding :=
  take s.cursor.remaining s

end Decoding

structure Session where
  architecture : Architecture
  cursor : Cursor
  workspace : Workspace
  failed : Bool
deriving DecidableEq

namespace Session

def start (a : Architecture) (c : Cursor) (knowledge : Knowledge) (frame : Frame) : Session :=
  ⟨a, c, ⟨knowledge, frame, []⟩, false⟩

def fresh (a : Architecture) (c : Cursor) : Session := start a c .empty a.emptyFrame

def next (host : Host) (s : Session) : Option (Except DecodeError Cluster × Session) :=
  if s.failed || s.cursor.isAtEnd then none
  else
    match s.architecture.step s.cursor with
    | (.ok i, cursor) =>
      let (transfers, workspace) := i.lift host s.workspace
      some (.ok ⟨i.address, i.length, transfers⟩, { s with cursor, workspace })
    | (.error e, cursor) => some (.error e, { s with cursor, failed := true })

def take (host : Host) : Nat → Session → List (Except DecodeError Cluster) × Session
  | 0, s => ([], s)
  | n + 1, s =>
    match s.next host with
    | none => ([], s)
    | some (item, s) =>
      let (items, s) := take host n s
      (item :: items, s)

def run (host : Host) (s : Session) : List (Except DecodeError Cluster) × Session :=
  take host s.cursor.remaining s

end Session

end RegisterTransfer
