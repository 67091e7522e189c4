import ForeignCall.Abi

/-! # Commands

The program has two commands: `abi` prints an ABI, and `plan` shows how the function of a signature
file is called. Both take the ABI from a preset (`--arch`), from a file (`--config`) or from the
host.

Arguments are read in order (`Command.ofArguments`), and the first that is wrong or asks for help
decides. An option may have its value behind an equals sign or as the next argument, which then
must not look like an option. After `--` there are no options. What is missing, and options that
exclude each other, are only noticed at the end. -/

namespace ForeignCall

/-- Where the ABI comes from. -/
inductive AbiSource where
  | host
  | preset (arch : Arch)
  | file (path : String)
deriving DecidableEq

inductive Command where
  | abi (source : AbiSource)
  | plan (signature : String) (source : AbiSource) (json : Bool)
deriving DecidableEq

/-- What there is help on. -/
inductive Topic where
  | program
  | abi
  | plan
  | help
deriving DecidableEq

/-- Why arguments give no command. -/
inductive Stop where
  | misused
  | asked (t : Topic)
deriving DecidableEq

/-! ### Arguments after the name of a command -/

/-- What the arguments have given so far. -/
structure Given where
  arch : Option Arch
  config : Option String
  json : Bool
  signature : Option String
deriving DecidableEq

namespace Given

def nothing : Given := ⟨none, none, false, none⟩

/-- An architecture is given at most once, by its name. -/
def setArch (g : Given) (value : String) : Except Stop Given :=
  match g.arch, Arch.ofName? value with
  | none, some arch => .ok { g with arch := some arch }
  | _, _ => .error .misused

/-- A configuration is given at most once, and paths are not empty. -/
def setConfig (g : Given) (value : String) : Except Stop Given :=
  if g.config = none ∧ value ≠ "" then .ok { g with config := some value } else .error .misused

/-- What the option of the given name does with its value, if it takes one. -/
def setter? (name : List Char) : Option (Given → String → Except Stop Given) :=
  if name = "arch".toList then some setArch
  else if name = "config".toList then some setConfig
  else none

/-- An argument that is no option: the signature file of `plan`. -/
def setPath (topic : Topic) (g : Given) (value : String) : Except Stop Given :=
  if topic = .plan ∧ g.signature = none ∧ value ≠ "" then
    .ok { g with signature := some value }
  else .error .misused

/-- An option without value. -/
def setFlag (topic : Topic) (g : Given) (name : List Char) : Except Stop Given :=
  if name = "help".toList then .error (.asked topic)
  else if name = "json".toList ∧ topic = .plan ∧ g.json = false then .ok { g with json := true }
  else .error .misused

/-- Whether an argument can not be the value of an option before it. -/
def looksLikeOption (a : String) : Bool := a.startsWith "-" && a ≠ "-"

def ofArguments (topic : Topic) (g : Given) : List String → Except Stop Given
  | [] => .ok g
  | a :: rest =>
      match a.toList with
      | ['-', '-'] => rest.foldlM (setPath topic) g
      | '-' :: '-' :: cs =>
          let name := cs.takeWhile (· ≠ '=')
          match setter? name, cs.dropWhile (· ≠ '=') with
          | some set, _ :: value => do ofArguments topic (← set g (String.ofList value)) rest
          | some set, [] =>
              match rest with
              | [] => .error .misused
              | value :: rest =>
                  if looksLikeOption value then .error .misused
                  else do ofArguments topic (← set g value) rest
          | none, [] => do ofArguments topic (← setFlag topic g name) rest
          | none, _ :: _ => .error .misused
      | '-' :: c :: _ => .error (if c = 'h' then .asked topic else .misused)
      | _ => do ofArguments topic (← setPath topic g a) rest

def source (g : Given) : Except Stop AbiSource :=
  match g.arch, g.config with
  | none, none => .ok .host
  | some arch, none => .ok (.preset arch)
  | none, some path => .ok (.file path)
  | some _, some _ => .error .misused

end Given

/-! ### All arguments -/

namespace Command

/-- The topic that the arguments of `help` name. -/
def topic? : List String → Option Topic
  | [] => some .program
  | ["abi"] => some .abi
  | ["plan"] => some .plan
  | ["help"] => some .help
  | _ => none

/-- The command that the arguments of the program give. -/
def ofArguments : List String → Except Stop Command
  | [] => .error .misused
  | "abi" :: rest => do return .abi (← (← Given.nothing.ofArguments .abi rest).source)
  | "plan" :: rest => do
      let g ← Given.nothing.ofArguments .plan rest
      let source ← g.source
      match g.signature with
      | some path => return .plan path source g.json
      | none => .error .misused
  | "help" :: names =>
      match topic? names with
      | some topic => .error (.asked topic)
      | none => .error .misused
  | a :: _ => .error (if a = "--help" ∨ a.startsWith "-h" then .asked .program else .misused)

/-- The files that a command may read. -/
def paths : Command → List String
  | abi (.file path) => [path]
  | abi _ => []
  | plan signature (.file path) _ => [path, signature]
  | plan signature _ _ => [signature]

end Command

end ForeignCall
