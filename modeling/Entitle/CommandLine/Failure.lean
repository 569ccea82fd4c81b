import Entitle.Client.Basic
import Entitle.Config.Fault

/-!
Why a command failed, as its user is told: what was tried, and under that what lies behind it.
-/

namespace Entitle.CommandLine

/-- A failure with its causes, each one behind the one before. -/
structure Failure where
  message : String
  causes : List String := []
  deriving DecidableEq, Repr

namespace Failure

/-- A cause behind a mark; the lines after its first are as deep as the mark. -/
def indented (mark : String) (cause : String) : String :=
  mark ++ ("\n" ++ String.ofList (mark.toList.map fun _ => ' ')).intercalate (cause.splitOn "\n")

/-- The number of a cause, in five columns. -/
def ordinal (k : Nat) : String :=
  String.ofList (List.replicate (5 - (toString k).length) ' ') ++ toString k ++ ": "

/-- The causes, each on lines of its own; several are numbered. -/
def causeLines : List String → List String
  | [cause] => [indented "    " cause]
  | causes => causes.zipIdx.map fun (cause, k) => indented (ordinal k) cause

/-- The failure as its user is told. -/
def render (f : Failure) : String :=
  "Error: " ++ f.message
    ++ (if f.causes.isEmpty then "" else "\n\nCaused by:\n" ++ "\n".intercalate (causeLines f.causes))

/-- The failure to load a configuration. -/
def ofLoadFault (message : String) (fault : Config.LoadFault) : Failure :=
  ⟨message, fault.message :: fault.cause?.toList⟩

/-- The failure of a request, with the failed exchange behind it. -/
def ofRequestError (what : String) (error : RequestError) : Failure :=
  ⟨what ++ " request failed", error.message :: match error with
    | .network fault => [fault.message]
    | _ => []⟩

/-- The failure to reach a file. -/
def ofFileFault (message : String) (fault : FileFault) : Failure :=
  ⟨message, [fault.message]⟩

/-- The failure to open the directory of the state, which the store calls by its path. -/
def ofDirectoryFault (path : String) (fault : FileFault) : Failure :=
  ⟨"Failed to open state directory " ++ path,
    ["i/o failure for key '" ++ path ++ "': " ++ fault.message, fault.message]⟩

/-- The failure of a store, with what the system says behind it. -/
def ofStoreError (message : String) (error : StoreError) : Failure :=
  ⟨message, error.message :: match error with
    | .io _ cause => [cause.message]
    | .unreadable .. => []⟩

end Failure

end Entitle.CommandLine
