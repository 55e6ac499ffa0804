import RegisterTransfer.Text.Blank

namespace RegisterTransfer.Text.Path

def isAbsolute (path : String) : Bool := path.toList.head? == some '/'

def join (directory name : String) : String :=
  if isAbsolute name then name
  else if directory.isEmpty || directory.toList.getLast? == some '/' then directory ++ name
  else directory ++ "/" ++ name

def parent (path : String) : String :=
  match path.toList.reverse.dropWhile (· != '/') with
  | [] => ""
  | slashes =>
    match slashes.dropWhile (· == '/') with
    | [] => "/"
    | directory => String.ofList directory.reverse

def components (path : String) : List (List Char) :=
  (cutAt '/' path.toList).filter fun c => !c.isEmpty && c != ['.']

def fileName? (path : String) : Option (List Char) :=
  (components path).getLast?.filter (· != ['.', '.'])

def beforeExtension (name : List Char) : List Char :=
  match (name.reverse.dropWhile (· != '.')).drop 1 with
  | [] => name
  | before => before.reverse

def stem (path : String) : String :=
  match fileName? path with
  | none => ""
  | some name => String.ofList (beforeExtension name)

end RegisterTransfer.Text.Path
