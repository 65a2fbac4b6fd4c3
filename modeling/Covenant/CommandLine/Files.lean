import Covenant.Text.Quoted
/-!
Files by path: paths as messages show them, the ways in which reading and writing fail, and a
directory held in memory.
-/

namespace Covenant.CommandLine

inductive FileFault
  | missing
  | isDirectory
  | notDirectory
  | longName
  /-- a name with a zero character is not a name -/
  | badName
deriving DecidableEq, Repr

def FileFault.message (path : String) : FileFault → String
  | .missing => "[Errno 2] No such file or directory: " ++ Text.Quoted.text path
  | .isDirectory => "[Errno 21] Is a directory: " ++ Text.Quoted.text path
  | .notDirectory => "[Errno 20] Not a directory: " ++ Text.Quoted.text path
  | .longName => "[Errno 36] File name too long: " ++ Text.Quoted.text path
  | .badName => ""

/-- The parts of a path that name something. -/
def parts (path : List Char) : List String :=
  ((path.splitOn '/').filter fun part => part != [] && part != ['.']).map String.ofList

/-- The slashes that an absolute path begins with: exactly two are kept. -/
def rootOf : List Char → String
  | ['/', '/'] => "//"
  | '/' :: '/' :: '/' :: _ => "/"
  | '/' :: '/' :: _ => "//"
  | '/' :: _ => "/"
  | _ => ""

def tidy (path : String) : String :=
  let s := rootOf path.toList ++ "/".intercalate (parts path.toList)
  if s = "" then "." else s

/-- Files by where they are: the parts of their paths, after a slash where they are absolute. -/
abbrev Directory := List (List String × String)

namespace Directory

/-- The file that is empty whatever is written to it. -/
def nullDevice : List String := ["/", "dev", "null"]

/-- The directories that are always there. That above the directory is not known otherwise. -/
def standing : List (List String) := [[], [".."], ["/"], ["/", "dev"], ["/", "tmp"]]

def isDirectory (d : Directory) (place : List String) : Bool :=
  standing.contains place ||
    d.any fun f => place.isPrefixOf f.1 && place.length < f.1.length

def isFile (d : Directory) (place : List String) : Bool :=
  place == nullDevice || (d.lookup place).isSome

def parent (place : List String) : List String :=
  if place = ["/"] then place
  else if place = [] ∨ place = [".."] then [".."]
  else place.dropLast

/-- Follows the parts of a path; what is gone through must be a directory. -/
def follow (d : Directory) (place : List String) : List String → Except FileFault (List String)
  | [] => .ok place
  | part :: rest =>
    if d.isFile place then .error .notDirectory
    else if !d.isDirectory place then .error .missing
    else if part = ".." then follow d (parent place) rest
    else if 255 < part.utf8ByteSize then .error .longName
    else follow d (place ++ [part]) rest

def pathLimit : Nat := 4095

def find (d : Directory) (path : String) : Except FileFault (List String) :=
  if path.toList.contains (Char.ofNat 0) then .error .badName
  else if pathLimit < path.utf8ByteSize then .error .longName
  else follow d (if path.toList.head? = some '/' then ["/"] else []) (parts path.toList)

def read (d : Directory) (path : String) : Except FileFault String := do
  let place ← d.find path
  if place = nullDevice then return ""
  else match d.lookup place with
    | some text => return text
    | none => .error (if d.isDirectory place then .isDirectory else .missing)

def write (d : Directory) (path text : String) : Except FileFault Directory := do
  let place ← d.find path
  if d.isDirectory place then .error .isDirectory
  else if place = nullDevice then return d
  else return (place, text) :: d.filter fun f => f.1 != place

def writeAll (d : Directory) : List (String × String) → Except FileFault Directory
  | [] => .ok d
  | (path, text) :: rest => do (← d.write path text).writeAll rest

end Directory

end Covenant.CommandLine
