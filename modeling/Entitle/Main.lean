import Entitle.CommandLine.Run
import Std.Async.DNS
import Std.Async.TCP
import Std.Async.Timer
import Std.Time.DateTime.Timestamp

/-!
The program: the command line on files, environment, clock and network of the system it runs on.

Requests go over plain connections; a server that asks for secure ones cannot be reached.
-/

namespace Entitle.Main

open Std.Async Std.Net
open Entitle.CommandLine

/-- What the system says about a file. -/
def faultOf : IO.Error → FileFault
  | .noFileOrDirectory .. => .notFound
  | .alreadyExists _ 17 _ => .alreadyExists
  | .inappropriateType _ 20 _ => .notDirectory
  | .inappropriateType _ 21 _ => .isDirectory
  | .invalidArgument _ 36 _ => .nameTooLong
  | .permissionDenied _ 13 _ => .other "Permission denied (os error 13)"
  | e => .other (toString e)

/-- Does something with files. -/
def attempt {α : Type} (action : IO α) : IO (Except FileFault α) := do
  try return .ok (← action) catch e => return .error (faultOf e)

/-- The content of a file. A path that cannot be followed is told from a file that cannot be read. -/
def readFile (path : String) : IO (Except FileFault Bytes) := do
  match ← attempt do return (← IO.FS.readBinFile path).toList with
  | .error (.other message) =>
    match ← attempt (IO.FS.realPath path) with
    | .ok _ => return .error (.other message)
    | .error _ => return .error (.unreachable message)
  | result => return result

/-- The entries that lie right in a directory. -/
def entriesIn (path : String) : IO (KeyMap Node) := do
  let mut nodes : KeyMap Node := []
  for item in ← (← IO.FS.realPath path).readDir do
    if fileExtension? item.fileName = some FileStore.entryExtension then
      let node ← if ← item.path.isDir then pure Node.directory
        else pure (Node.file (← IO.FS.readBinFile item.path).toList)
      nodes := nodes.put item.fileName node
  return nodes

/-- Opens a directory, making it if there is none. -/
def openDirectory (path : String) : IO (Except FileFault (KeyMap Node)) :=
  attempt do
    IO.FS.createDirAll path
    entriesIn path

/-- Writes a file; it takes its name when it is complete. -/
def writeFile (directory name : String) (content : Bytes) : IO Unit := do
  let staging := directory ++ "/." ++ name ++ ".tmp"
  IO.FS.writeBinFile staging ⟨content.toArray⟩
  IO.FS.rename staging (directory ++ "/" ++ name)

/-- Replaces the entries of a directory. What cannot be written stays as it was. -/
def saveDirectory (path : String) (nodes : KeyMap Node) : IO Unit := do
  let before ← try entriesIn path catch _ => pure []
  for (name, node) in before do
    if (nodes.get? name).isNone && node ≠ .directory then
      discard <| attempt (IO.FS.removeFile (path ++ "/" ++ name))
  for (name, node) in nodes do
    match node with
    | .file content =>
      if before.get? name ≠ some node then discard <| attempt (writeFile path name content)
    | .directory => pure ()

/-- An address with a port. -/
def socketAddress (port : Nat) : IPAddr → SocketAddress
  | .v4 addr => .v4 ⟨addr, port.toUInt16⟩
  | .v6 addr => .v6 ⟨addr, port.toUInt16⟩

/-- Connects to the first address that answers. -/
def connect (port : Nat) : List IPAddr → Async (Option TCP.Socket.Client)
  | [] => return none
  | addr :: rest => do
    let socket ← TCP.Socket.Client.mk
    try
      socket.connect (socketAddress port addr)
      return some socket
    catch _ => connect port rest

/-- Receives until a response is complete, or nothing more can come of it. -/
partial def receive (socket : TCP.Socket.Client) (received : Bytes) : Async (Option WireResponse) := do
  let chunk ← socket.recv? 65536
  let received := received ++ (chunk.map (·.toList)).getD []
  match WireResponse.read chunk.isNone received with
  | .complete response => return some response
  | .broken => return none
  | .more => receive socket received

/-- Sends a request and receives its response. -/
def converse (url : Url) (request : WireRequest) : Async (Except TransportError WireResponse) := do
  let failed := "error sending request for url (" ++ url.render ++ ")"
  if url.secure then return .error (.connect failed)
  let addresses ← try DNS.getAddrInfo url.host (toString url.port) catch _ => pure #[]
  match ← connect url.port addresses.toList with
  | none => return .error (.connect failed)
  | some socket =>
    try
      socket.send ⟨(request.render url.authority).toArray⟩
      match ← receive socket [] with
      | some response => return .ok response
      | none => return .error (.other failed)
    catch _ => return .error (.other failed)

/-- Waits, and then says that a request took too long. -/
def expire (milliseconds : Nat) (url : Url) : Async (Except TransportError WireResponse) := do
  sleep (.ofNat milliseconds)
  return .error (.timeout ("error sending request for url (" ++ url.render ++ ")"))

instance : Inhabited (Except TransportError WireResponse) := ⟨.error .abandoned⟩

/-- The system that the program runs on. -/
def system : Host IO where
  readFile := readFile
  openDirectory := openDirectory
  saveDirectory := saveDirectory
  carry timeout url request := Async.block (Async.race (converse url request) (expire timeout url))
  sleep milliseconds := IO.sleep milliseconds.toUInt32
  draw := IO.rand 0 (Nat.pow 2 64 - 1)
  now := do
    let t ← Std.Time.Timestamp.now
    return ⟨t.val.second.val, t.val.nano.val.toNat⟩

/-- The variables of the environment that the program reads. -/
def environment : IO Config.Environment := do
  let names := ["CONFIG", "CONFIG_CONTENT"] ++ Config.overrides.map Config.Variable.name
  let found ← names.filterMapM fun name => do
    return (← IO.getEnv (Config.variablePrefix ++ name)).map fun value => (name, value)
  return fun name => found.lookup name

/-- Tells the user how a run ended. -/
def report : Ending → IO Unit
  | .success output => IO.print output
  | .failure failure => IO.eprintln failure.render
  | .misuse => IO.eprint usage
  | .overload => IO.eprintln "more exchanges at once than can be counted"

end Entitle.Main

/-- Runs the command line. -/
def main (words : List String) : IO UInt32 := do
  let ending ← Entitle.CommandLine.run Entitle.Main.system (← Entitle.Main.environment) words
  Entitle.Main.report ending
  return ending.exitCode.toUInt32
