import Dispatch.Store

/-!
# Standalone start

A controller that starts on its own reads its configuration, opens its store and seeds two
actions to try out; what remains is to listen on its port.
-/

set_option autoImplicit false

namespace Dispatch

/-- What a path leads to. -/
inductive FileState where
  | missing
  | directory
  | file (content : Bytes)
deriving DecidableEq, Repr

def FileState.isFile : FileState → Bool
  | .file _ => true
  | _ => false

/-- Why a file was not read, or a port not opened. -/
inductive IoFault where
  | notFound
  | isDirectory
  | notText
  | notDirectory
  | portInUse
deriving DecidableEq, Repr

/-- Why the start failed. -/
inductive StartFault where
  | io (cause : IoFault)
  | config (cause : Config.Fault)
  | store (cause : StoreFault)
deriving DecidableEq

namespace Config

/-- Reads a configuration from what is in a file. -/
def ofFile : FileState → Except StartFault Config
  | .missing => .error (.io .notFound)
  | .directory => .error (.io .isDirectory)
  | .file content =>
    match Utf8.decode? content with
    | none => .error (.io .notText)
    | some text => (ofText text).mapError .config

end Config

namespace Standalone

/-- The actions that are there from the start, one for each pool. -/
def demoActions : List Action :=
  [⟨"guest", "sleep", .managed "nodejs:20", .standard, 0⟩,
    ⟨"guest", "sleep-image", .blackbox "whisk/sleep:latest", .standard, 0⟩]

/-- Stores an action unless its key is taken. -/
def seed (s : Store) (a : Action) : Except StoreFault Store := do
  match ← s.find a.key with
  | some _ => return s
  | none => s.put a

/-- Stores actions one after the other; what was stored before a fault stays. -/
def seedAll : List Action → Store → Store × Option StoreFault
  | [], s => (s, none)
  | a :: rest, s =>
    match seed s a with
    | .ok s => seedAll rest s
    | .error f => (s, some f)

/-- Starts on top of the records of a data directory, up to the listener, whose port is in use:
the store afterwards, if it was opened, and why the start failed. -/
def start (config : Except StartFault Config) (records : Table String Bytes) :
    Option Store × StartFault :=
  match config with
  | .error f => (none, f)
  | .ok c =>
    match seedAll demoActions { Store.new c.limits with records } with
    | (s, none) => (some s, .io .portInUse)
    | (s, some f) => (some s, .store f)

end Standalone

end Dispatch
