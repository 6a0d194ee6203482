import Cs564.PageFile.File

/-!
# The table of open files

`File` of `p2`: the static maps `open_counts_` and `open_streams_`, and the objects that share a stream.  Objects are
told apart by their addresses, streams by numbers.  `File` of `p3` has the same constructor and the same `openIfNeeded`.

The file system keeps the files that can be opened for reading and writing, which are those that `exists` finds.  A stream
that is opened with `trunc` makes the file if the disk allows it (`creatable`), and is a stream all the same if not.
-/

namespace Cs564.OpenFiles

/-- A `File` object. -/
structure File where
  filename_ : String
  stream_ : Option Nat
  valid_ : Bool
deriving DecidableEq, Repr

/-- `File()`. -/
def File.default : File := { filename_ := "", stream_ := none, valid_ := false }

/-- The exceptions of `File`. -/
inductive OpenError where
  | fileExists (name : String)
  | fileNotFound (name : String)
  | fileOpen (name : String)
deriving DecidableEq, Repr

/-- The static maps, the live objects, the number of the next stream, and the files on disk. -/
structure Process where
  open_counts_ : String → Option Int
  open_streams_ : String → Option (Option Nat)
  objects : Nat → Option File
  nextStream : Nat
  files : String → Option PageFile

/-- A file that has been truncated. -/
def truncated : PageFile :=
  { header := { num_pages := 0, first_used_page := 0, num_free_pages := 0, first_free_page := 0 }
    pages := fun _ => none
    failed := false }

namespace Process

/-- A process without `File` objects. -/
def start (files : String → Option PageFile) : Process :=
  { open_counts_ := fun _ => none, open_streams_ := fun _ => none, objects := fun _ => none, nextStream := 0,
    files := files }

variable (creatable : String → Bool) (proc : Process)

/-- `exists`: the file can be opened for reading and writing.  One that is there but cannot be is none to `File`. -/
def fileExists (filename : String) : Bool := (proc.files filename).isSome

/-- `isOpen`. -/
def isOpen (filename : String) : Bool := proc.fileExists filename && (proc.open_counts_ filename).isSome

/-- The value of `open_streams_[filename]`. -/
def streamOf (filename : String) : Option Nat := (proc.open_streams_ filename).getD none

/-- `open_counts_[filename] = count`, with `open_streams_[filename] = stream`. -/
def setEntry (filename : String) (count : Int) (stream : Option Nat) : Process :=
  { proc with
    open_counts_ := Function.update proc.open_counts_ filename (some count)
    open_streams_ := Function.update proc.open_streams_ filename (some stream) }

/-- The object at this address. -/
def setObject (obj : Nat) (file : Option File) : Process :=
  { proc with objects := Function.update proc.objects obj file }

/-- `stream_.reset(new std::fstream(filename_, mode))`: an existing file is opened anew, and with `trunc` it is empty. -/
def openStream (filename : String) (create_new : Bool) : Process :=
  { proc with
    nextStream := proc.nextStream + 1
    files := Function.update proc.files filename
      (if create_new then (if creatable filename then some truncated else none)
        else (proc.files filename).map fun file => { file with failed := false }) }

/-- `openIfNeeded`: what it throws, and the object and the process then. -/
def openIfNeeded (create_new : Bool) (file : File) : Option OpenError × File × Process :=
  match proc.open_counts_ file.filename_ with
  -- exists an entry already
  | some count =>
    (none, { file with stream_ := proc.streamOf file.filename_ },
      proc.setEntry file.filename_ (count + 1) (proc.streamOf file.filename_))
  | none =>
    if create_new && proc.fileExists file.filename_ then (some (.fileExists file.filename_), file, proc)
    else if !create_new && !proc.fileExists file.filename_ then
      (some (.fileNotFound file.filename_), { file with valid_ := false }, proc)
    else
      (none, { file with stream_ := some proc.nextStream },
        (proc.openStream creatable file.filename_ create_new).setEntry file.filename_ 1 (some proc.nextStream))

/-- `writeHeader` on the stream of this file. -/
def writeHeader (filename : String) (header : FileHeader) : Process :=
  { proc with
    files := Function.update proc.files filename ((proc.files filename).map fun file =>
      if file.failed then file else { file with header := header }) }

/-- `File(name, create_new)` at a free address; `none` where the header goes through a null pointer. -/
def construct (obj : Nat) (name : String) (create_new : Bool) : Option (Option OpenError × Process) :=
  match proc.openIfNeeded creatable create_new { filename_ := name, stream_ := none, valid_ := true } with
  | (some error, _, proc') => some (some error, proc')
  | (none, file, proc') =>
    if create_new then
      if file.stream_.isNone then none
      else some (none, (proc'.writeHeader name PageFile.create.header).setObject obj (some file))
    else some (none, proc'.setObject obj (some file))

/-- `close`. -/
def close (file : File) : File × Process :=
  let count := (proc.open_counts_ file.filename_).getD 0 - 1
  ({ file with stream_ := none },
    if count = 0 then
      { proc with
        open_counts_ := Function.update proc.open_counts_ file.filename_ none
        open_streams_ := Function.update proc.open_streams_ file.filename_ none }
    else { proc with open_counts_ := Function.update proc.open_counts_ file.filename_ (some count) })

/-- `File(other)`. -/
def copy (obj : Nat) (other : File) : Process :=
  (proc.setEntry other.filename_ ((proc.open_counts_ other.filename_).getD 0 + 1) (proc.streamOf other.filename_)).setObject
    obj (some { other with stream_ := proc.streamOf other.filename_ })

/-- `operator=`, from the object at the address `src`, which may be the object itself. -/
def assign (obj : Nat) (file : File) (src : Nat) (rhs : File) : Option OpenError × Process :=
  let closed := proc.close file
  let rhs := if src = obj then closed.1 else rhs
  let result := closed.2.openIfNeeded creatable false
    { closed.1 with filename_ := rhs.filename_, valid_ := rhs.valid_ }
  (result.1, result.2.2.setObject obj (some result.2.1))

/-- `~File`. -/
def destroy (obj : Nat) (file : File) : Process := (proc.close file).2.setObject obj none

/-- `remove`. -/
def remove (filename : String) : Option OpenError × Process :=
  if !proc.fileExists filename then (some (.fileNotFound filename), proc)
  else if proc.isOpen filename then (some (.fileOpen filename), proc)
  else (none, { proc with files := Function.update proc.files filename none })

end Process

/-- What a program does with `File` objects. -/
inductive FileCall where
  | create (obj : Nat) (filename : String)
  | open (obj : Nat) (filename : String)
  | default (obj : Nat)
  | copy (obj other : Nat)
  | assign (obj rhs : Nat)
  | destroy (obj : Nat)
  | remove (filename : String)
deriving DecidableEq, Repr

/-- One call, with what it throws; `none` for a call on an address without an object, or for a new object at an address
with one, and where the process ends. -/
def Process.call (creatable : String → Bool) (proc : Process) : FileCall → Option (Option OpenError × Process)
  | .create obj filename => if (proc.objects obj).isSome then none else proc.construct creatable obj filename true
  | .open obj filename => if (proc.objects obj).isSome then none else proc.construct creatable obj filename false
  | .default obj => if (proc.objects obj).isSome then none else some (none, proc.setObject obj (some File.default))
  | .copy obj other =>
    if (proc.objects obj).isSome then none
    else (proc.objects other).map fun file => (none, proc.copy obj file)
  | .assign obj rhs =>
    (proc.objects obj).bind fun file => (proc.objects rhs).map fun rhsFile => proc.assign creatable obj file rhs rhsFile
  | .destroy obj => (proc.objects obj).map fun file => (none, proc.destroy obj file)
  | .remove filename => some (proc.remove filename)

/-- A sequence of calls; a program goes on after an exception. -/
def Process.run (creatable : String → Bool) (proc : Process) : List FileCall → Option Process
  | [] => some proc
  | c :: calls => (proc.call creatable c).bind fun result => run creatable result.2 calls

/-- An assignment of an object to itself can open the file again: another object keeps the entry of the name, or the file
exists. -/
def FileCall.Reopens (proc : Process) : FileCall → Prop
  | .assign obj rhs => rhs = obj → ∀ file, proc.objects obj = some file → file.filename_ ≠ "" →
      (∃ other same, other ≠ obj ∧ proc.objects other = some same ∧ same.filename_ = file.filename_) ∨
        proc.fileExists file.filename_ = true
  | _ => True

/-- All self-assignments of the calls can open their files again. -/
def Process.Orderly (creatable : String → Bool) (proc : Process) : List FileCall → Prop
  | [] => True
  | c :: calls => c.Reopens proc ∧ ∀ result, proc.call creatable c = some result → Orderly creatable result.2 calls

/-- `BufDesc()`, which calls `clear`: its member `file` is assigned from a temporary. -/
def bufDesc (file temporary : Nat) : List FileCall :=
  [.default file, .default temporary, .assign file temporary, .destroy temporary]

end Cs564.OpenFiles
