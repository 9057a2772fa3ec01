import Dispatch.Standalone

/-!
# Command line

`Command.ofArgs` reads the arguments, from left to right; `Command.run` says what the program
prints and how it exits. Files come in as a function from paths, so that nothing here reads any.
-/

set_option autoImplicit false

namespace Dispatch.Cli

/-- The options of a standalone start. -/
structure Options where
  port : Option Nat
  dataDir : Option String
  config : Option String
  invokers : Option Nat
  memory : Option Nat
  slots : Option Nat
deriving DecidableEq, Repr

def Options.none : Options := ⟨.none, .none, .none, .none, .none, .none⟩

/-- What the arguments ask for. -/
inductive Command where
  | help
  | defaultConfig
  | standalone (options : Options)
deriving DecidableEq, Repr

/-- The arguments make no sense. -/
structure UsageFault where
deriving DecidableEq, Repr

/-- The value of an option that is a number. -/
def number (largest : Nat) (old : Option Nat) (value : String) : Except UsageFault (Option Nat) :=
  match old, Numeral.read largest value.toList with
  | .none, .ok n => .ok (some n)
  | _, _ => .error {}

/-- The value of an option that is a number below the range of 64 bits: it may be minus zero. -/
def signedNumber (largest : Nat) (old : Option Nat) (value : String) :
    Except UsageFault (Option Nat) :=
  match value.toList with
  | '-' :: digit :: rest =>
    match old, Numeral.readDigits 0 0 (digit :: rest) with
    | .none, .ok n => .ok (some n)
    | _, _ => .error {}
  | _ => number largest old value

/-- The value of an option that is a path. -/
def path (old : Option String) (value : String) : Except UsageFault (Option String) :=
  match old with
  | .none => if value.isEmpty then .error {} else .ok (some value)
  | some _ => .error {}

/-- Sets an option of a standalone start, which must not be set yet. -/
def Options.set (o : Options) (name value : String) : Except UsageFault Options :=
  if name = "--port" then return { o with port := ← signedNumber 65_535 o.port value }
  else if name = "--data-dir" then return { o with dataDir := ← path o.dataDir value }
  else if name = "--config" then return { o with config := ← path o.config value }
  else if name = "--invokers" then
    return { o with invokers := ← number Numeral.maxWord64 o.invokers value }
  else if name = "--invoker-memory-mb" then
    return { o with memory := ← number Numeral.maxWord64 o.memory value }
  else if name = "--invoker-slots" then
    return { o with slots := ← signedNumber Numeral.maxWord32 o.slots value }
  else throw {}

/-- A name and the value behind its equals sign, if it has one. -/
def splitValue (arg : String) : String × Option String :=
  let name := arg.toList.takeWhile (· ≠ '=')
  match arg.toList.drop name.length with
  | [] => (arg, none)
  | _ :: value => (String.ofList name, some (String.ofList value))

/-- An argument that is no value of the option before it. -/
def looksLikeOption (arg : String) : Bool :=
  match arg.toList with
  | '-' :: _ :: _ => true
  | _ => false

def isHelp (arg : String) : Bool := arg = "--help" || arg = "-h"

/-- Reads the arguments of a standalone start. -/
def readStandalone (logJson : Bool) (o : Options) : List String → Except UsageFault Command
  | [] => .ok (.standalone o)
  | arg :: rest =>
    if isHelp arg then .ok .help
    else if arg = "--" then if rest.isEmpty then .ok (.standalone o) else .error {}
    else if arg = "--log-json" then
      if logJson then .error {} else readStandalone true o rest
    else
      match splitValue arg with
      | (name, some value) =>
        match o.set name value with
        | .ok o => readStandalone logJson o rest
        | .error f => .error f
      | (name, none) =>
        match rest with
        | [] => .error {}
        | value :: rest =>
          if looksLikeOption value then .error {}
          else
            match o.set name value with
            | .ok o => readStandalone logJson o rest
            | .error f => .error f

/-- Reads the arguments behind the command that prints the defaults. -/
def readDefaultConfig (logJson : Bool) : List String → Except UsageFault Command
  | [] => .ok .defaultConfig
  | arg :: rest =>
    if isHelp arg then .ok .help
    else if arg = "--" then if rest.isEmpty then .ok .defaultConfig else .error {}
    else if arg = "--log-json" ∧ !logJson then readDefaultConfig true rest
    else .error {}

/-- Reads what help is wanted on. -/
def readHelp : List String → Except UsageFault Command
  | [] => .ok .help
  | [topic] =>
    if topic = "standalone" || topic = "default-config" || topic = "help" then .ok .help
    else .error {}
  | _ => .error {}

/-- Reads all arguments. The switch for the form of the log may stand before and behind the
command. -/
def Command.read (logJson : Bool) : List String → Except UsageFault Command
  | [] => .error {}
  | arg :: rest =>
    if isHelp arg then .ok .help
    else if arg = "--log-json" then
      if logJson then .error {} else Command.read true rest
    else if arg = "standalone" then readStandalone false .none rest
    else if arg = "default-config" then readDefaultConfig false rest
    else if arg = "help" then readHelp rest
    else .error {}

/-- What the program prints and how it exits. -/
structure Exit where
  code : Nat
  out : String
  err : String
deriving DecidableEq, Repr

/-- The wording of a failed start. -/
def wording : StartFault → String
  | .config (.violation v) => v.message
  | .config .malformed => "TOML parse error"
  | .config (.mismatch m) => "TOML parse error: " ++ m.message Toml.messageFloats
  | .store f => f.message
  | .io .notFound => "No such file or directory"
  | .io .isDirectory => "Is a directory"
  | .io .notText => "stream did not contain valid UTF-8"
  | .io .notDirectory => "Not a directory"
  | .io .portInUse => "Address already in use"

/-- The configuration of a standalone start. -/
def configOf (files : String → FileState) (o : Options) : Except StartFault Config :=
  match o.config with
  | .none => .ok .standard
  | some path => Config.ofFile (files path)

/-- What a path leads through, and the path itself, given what stands before `cs` in reverse. -/
def leadingPathsFrom (before : List Char) : List Char → List String
  | [] => [String.ofList before.reverse]
  | c :: rest =>
    (if c = '/' then [String.ofList before.reverse] else []) ++ leadingPathsFrom (c :: before) rest

/-- The beginnings of a path that end before a slash, and the path itself. -/
def leadingPaths (path : String) : List String := leadingPathsFrom [] path.toList

/-- The configuration, provided that the data directory can be one: no file stands in its way. -/
def checkDataDir (files : String → FileState) (o : Options) (c : Config) :
    Except StartFault Config :=
  match o.dataDir with
  | .none => .ok c
  | some path =>
    if (leadingPaths path).any fun p => (files p).isFile then .error (.io .notDirectory) else .ok c

/-- What a command does, up to the point where a listener would be needed. -/
def Command.run (files : String → FileState) : Command → Exit
  | .help => ⟨0, "", ""⟩
  | .defaultConfig =>
    ⟨0, String.ofList ((Config.standard.text?).getD []), ""⟩
  | .standalone o =>
    let config := configOf files o >>= checkDataDir files o
    ⟨1, "", "Error: " ++ wording (Standalone.start config []).2⟩

/-- What the program does with its arguments. -/
def run (files : String → FileState) (args : List String) : Exit :=
  match Command.read false args with
  | .ok c => c.run files
  | .error _ => ⟨2, "", ""⟩

end Dispatch.Cli
