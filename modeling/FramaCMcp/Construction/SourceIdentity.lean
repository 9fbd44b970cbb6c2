/-
This file samples the identity of a loaded file set from a disk that others write to, and hashes a
source in chunks.
-/

import FramaCMcp.Foundation.Json
import FramaCMcp.Foundation.Accumulation
import FramaCMcp.Foundation.Text

namespace FramaCMcp.MainProcess

abbrev Bytes := List UInt8

/-- This write replaces the bytes of one file under all of its names. -/
structure Write where
  names : List String
  bytes : Bytes

/-- The disk is the list of its writes, the oldest one first. -/
abbrev Disk := List Write

/-- The place of the last write to a file comes with the bytes of that write. -/
def Disk.file (disk : Disk) (name : String) : Option (Nat × Bytes) :=
  (History.last (fun write => write.names.contains name) disk).map fun found =>
    (found.1, found.2.bytes)

/-- The writes of others come in batches, one batch before each access to the disk. The texts whose
digest was taken are kept. -/
structure World where
  disk : Disk
  pending : List (List Write)
  hashed : List String := []

/-- The next batch lands. -/
def World.advance (world : World) : World :=
  { world with
    disk := world.disk ++ world.pending.headD []
    pending := world.pending.tail }

/-- No file has a name with this character. -/
def hasNul (name : String) : Bool := name.toList.contains '\x00'

/-- The result is the file behind a name or the text of the error. -/
def Disk.openFile (disk : Disk) (name : String) : Except String (Nat × Bytes) :=
  if hasNul name then .error "file name contained an unexpected NUL byte"
  else
    match disk.file name with
    | some file => .ok file
    | none => .error "No such file or directory (os error 2)"

/-- The recorded modification time of a file depends on its last write. It is absent where the file
system keeps none. -/
abbrev Clock := String → Nat → Option Nat

/-- The two bytes before the scanned one are carried along. -/
def startsADirective : Bytes → UInt8 × UInt8 → Bool
  | [], _ => false
  | byte :: rest, (first, second) =>
      if byte = 35 ∨ (byte = 58 ∧ second = 37) ∨ (byte = 61 ∧ second = 63 ∧ first = 63) then true
      else startsADirective rest (second, byte)

/-- Some spelling of the character that opens a directive stands in the bytes. -/
def hasDirective (bytes : Bytes) : Bool := startsADirective bytes (0, 0)

/-- This is the text of a recorded time. -/
def debugTime : Option Nat → String
  | none => "None"
  | some written => "Some(" ++ toString written ++ ")"

variable [Sha256]

def digestOf (bytes : Bytes) : String := Sha256.hex ⟨bytes.toArray⟩

/-- The time is read when the file is opened, and the bytes are read later. -/
def hashNamedFile (clock : Clock) (name : String) (world : World) : (String × Bool) × World :=
  let opened := world.advance
  match opened.disk.openFile name with
  | .error error => ((name ++ error ++ "\x00", true), opened)
  | .ok (written, _) =>
      let read := opened.advance
      let bytes := ((read.disk.file name).map Prod.snd).getD []
      ((name ++ debugTime (clock name written) ++ digestOf bytes ++ "\x00", hasDirective bytes),
        read)

def hashNamedFiles (clock : Clock) : List String → World → (String × Bool) × World
  | [], world => (("", false), world)
  | name :: names, world =>
      let first := hashNamedFile clock name world
      let others := hashNamedFiles clock names first.2
      ((first.1.1 ++ others.1.1, first.1.2 || others.1.2), others.2)

/-- The machine description takes part in the text and not in the scan for directives. -/
def loadedSourceText (clock : Clock) (files : List String) (machdep : Option String)
    (world : World) : (String × Bool) × World :=
  let sources := hashNamedFiles clock files world
  match machdep with
  | none => sources
  | some machdep =>
      let machine := hashNamedFile clock machdep sources.2
      ((sources.1.1 ++ machine.1.1, sources.1.2), machine.2)

def loadedSourceState (clock : Clock) (files : List String) (machdep : Option String)
    (world : World) : (String × Bool) × World :=
  let text := loadedSourceText clock files machdep world
  ((Sha256.hexText text.1.1, text.1.2), { text.2 with hashed := text.1.1 :: text.2.hashed })

/-- A task that does not finish gives an identity that matches nothing. -/
def sourceIdentity (clock : Clock) (finished : Bool) (files : List String)
    (machdep : Option String) (world : World) : (String × Bool) × World :=
  if finished then loadedSourceState clock files machdep world else (("", true), world)

end FramaCMcp.MainProcess

namespace FramaCMcp.MainProcess

/-- The scan stops at a spelling, and else it carries the last two bytes to the next chunk. -/
def scanChunk : Bytes → UInt8 × UInt8 → Bool × (UInt8 × UInt8)
  | [], previous => (false, previous)
  | byte :: rest, (first, second) =>
      if byte = 35 ∨ (byte = 58 ∧ second = 37) ∨ (byte = 61 ∧ second = 63 ∧ first = 63) then
        (true, (first, second))
      else scanChunk rest (second, byte)

structure Hashing where
  hashed : Bytes := []
  mayBeADirective : Bool := false
  previous : UInt8 × UInt8 := (0, 0)

/-- The bytes are not scanned any more after the first spelling. -/
def Hashing.chunk (hashing : Hashing) (chunk : Bytes) : Hashing :=
  let scanned := if hashing.mayBeADirective then (true, hashing.previous)
    else scanChunk chunk hashing.previous
  { hashed := hashing.hashed ++ chunk
    mayBeADirective := scanned.1
    previous := scanned.2 }

section Reader

variable [Sha256]

/-- An empty read is the end, and a failed read ends the digest. -/
def hashReads (hashing : Hashing) : List (Except String Bytes) → Except String (String × Bool)
  | [] => .ok (digestOf hashing.hashed, hashing.mayBeADirective)
  | .error error :: _ => .error error
  | .ok read :: rest =>
      if read = [] then .ok (digestOf hashing.hashed, hashing.mayBeADirective)
      else hashReads (hashing.chunk read) rest

def sha256HexOfReader (reads : List (Except String Bytes)) : Except String (String × Bool) :=
  hashReads {} reads

end Reader

end FramaCMcp.MainProcess
