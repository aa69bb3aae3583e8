import Kconfig.CommandLine.Job

/-!
# A directory as a value

A directory of regular files, without directories in it, as much of a file system as a job needs.
Around it lies what every system has: the directories above it, of which only the nearest can take
files, the directory for temporary files, and the device that takes everything and holds nothing.

A path is followed part by part (`Directory.resolve`). A part that is empty or `.` leads nowhere
else, nothing lies below a regular file, and neither a part nor a whole path may be too long.

It is a limit of the model that the directory has no directories and no links in it, and that
nothing else uses its files. So no two names lead to one file, and a path that leads through a name
of the directory leads nowhere.
-/

namespace Kconfig.CommandLine

/-- A directory that a path leads through. -/
inductive Folder where
  /-- The directory of the job. -/
  | own
  /-- The directory above it. -/
  | parent
  /-- A directory further above. -/
  | beyond
  /-- The top of the file system. -/
  | top
  /-- The directory of devices. -/
  | devices
  /-- The directory for temporary files. -/
  | temporary
deriving DecidableEq

/-- Where a path leads. -/
inductive Place where
  | folder (folder : Folder)
  /-- A regular file, which is there or may be created. -/
  | file (name : String)
  /-- The device that takes everything and holds nothing. -/
  | nullDevice
  /-- Where nothing is and nothing can be created. -/
  | nowhere
deriving DecidableEq

namespace Folder

/-- The directory above. -/
def up : Folder → Folder
  | own => parent
  | parent | beyond => beyond
  | top | devices | temporary => top

/-- What has the given name in a directory. Files are known by the path to them. -/
def entry (f : Folder) (name : String) : Place :=
  match f with
  | own => .file name
  | parent => .file ("../" ++ name)
  | temporary => .file ("/tmp/" ++ name)
  | devices => if name = "null" then .nullDevice else .nowhere
  | top =>
    if name = "dev" then .folder devices
    else if name = "tmp" then .folder temporary
    else .nowhere
  | beyond => .nowhere

end Folder

/-- The most bytes that the name of a file may have. -/
def nameLimit : Nat := 255

/-- The most bytes that a path may have. -/
def pathLimit : Nat := 4095

/-- A directory of regular files. Where a name occurs twice, the first counts. -/
structure Directory where
  files : List (String × List UInt8) := []

namespace Directory

/-- The cause of failure where a name is not there. -/
def notFound : String := "No such file or directory (os error 2)"

/-- The cause of failure where a path goes through a regular file. -/
def notDirectory : String := "Not a directory (os error 20)"

/-- The cause of failure where a path or a part of it is too long. -/
def nameTooLong : String := "File name too long (os error 36)"

/-- The cause of failure where a path holds the character that ends paths. -/
def nulInPath : String := "file name contained an unexpected NUL byte"

/-- The content of a file by its name. -/
def lookup (d : Directory) (name : String) : Option (List UInt8) :=
  d.files.lookup name

/-- Gives a file a content. -/
def insert (d : Directory) (name : String) (content : List UInt8) : Directory :=
  ⟨(name, content) :: d.files⟩

/-- Whether something that is no directory is at a place. -/
def holds (d : Directory) : Place → Bool
  | .file name => (d.lookup name).isSome
  | .nullDevice => true
  | .folder _ | .nowhere => false

/-- Where the parts of a path lead from a directory, or the cause of failure. -/
def follow (d : Directory) : Folder → List String → Except String Place
  | f, [] => .ok (.folder f)
  | f, part :: rest =>
    if part = "" ∨ part = "." then d.follow f rest
    else if part = ".." then d.follow f.up rest
    else if nameLimit < part.utf8ByteSize then .error nameTooLong
    else
      match f.entry part, rest with
      | .folder inner, rest => d.follow inner rest
      | place, [] => .ok place
      | place, _ :: _ => .error (if d.holds place then notDirectory else notFound)

/-- Where a path leads, or the cause of failure. -/
def resolve (d : Directory) (path : String) : Except String Place :=
  if path.toList.contains '\x00' then .error nulInPath
  else if path = "" then .error notFound
  else if pathLimit < path.utf8ByteSize then .error nameTooLong
  else
    d.follow (if path.startsWith "/" then .top else .own)
      ((Text.splitAt '/' path.toList).map String.ofList)

/-- The content of the file that a path leads to. -/
def read (d : Directory) (path : String) : Except ReadFault (List UInt8) :=
  match d.resolve path with
  | .error cause => .error (.cannotOpen cause)
  | .ok (.folder _) => .error .unreadable
  | .ok .nullDevice => .ok []
  | .ok .nowhere => .error (.cannotOpen notFound)
  | .ok (.file name) =>
    match d.lookup name with
    | some content => .ok content
    | none => .error (.cannotOpen notFound)

/-- Gives the file that a path leads to a content, if there is or can be one: whether that was
possible, and the directory afterwards. -/
def write (d : Directory) (path : String) (content : List UInt8) : Bool × Directory :=
  match d.resolve path with
  | .ok (.file name) => (true, d.insert name content)
  | .ok .nullDevice => (true, d)
  | .ok (.folder _) | .ok .nowhere | .error _ => (false, d)

/-- The operations of a job on a directory. -/
def access : FileAccess (StateM Directory) where
  read path := fun d => (d.read path, d)
  write path content := fun d => d.write path content

/-- Runs a command line on a directory: the outcome and the directory afterwards. -/
def runJob (d : Directory) (args : List String) : Outcome × Directory :=
  CommandLine.run access args d

end Directory

end Kconfig.CommandLine
