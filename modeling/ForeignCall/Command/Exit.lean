import ForeignCall.Abi.Text
import ForeignCall.Command.Help
import ForeignCall.Form.Json
import ForeignCall.Report
import ForeignCall.Signature.Text

/-! # Running commands

A command reads files and ends with an `Exit`: a status, and what it prints. `Command.run` takes the
files as a function from paths to text. The ABI is loaded before the signature, and the first
failure is printed. Status 0 is success or help, 1 a failure, 2 wrong arguments, and 101 a broken
promise inside the library. -/

namespace ForeignCall

/-- Texts of files, or why there is none. -/
abbrev Files := String → Except ReadFault String

structure Exit where
  status : UInt32
  stdout : String
  stderr : String
deriving DecidableEq

namespace Exit

def printed (s : String) : Exit := ⟨0, s, ""⟩

def failed (message : String) : Exit := ⟨1, "", s!"error: {message}\n"⟩

def broken (b : Breach) : Exit := ⟨101, "", (b.text?.getD "") ++ "\n"⟩

def ofStop : Stop → Exit
  | .asked topic => printed topic.text
  | .misused => ⟨2, "", "error: invalid arguments\n\nFor more information, try '--help'.\n"⟩

def ofPlanFailure : PlanFailure → Exit
  | .signature e => failed e.message
  | .call (.refused e) => failed e.message
  | .call (.broken b) => broken b

end Exit

def AbiSource.load (files : Files) : AbiSource → Except ConfigError Abi
  | host => .ok .host
  | preset arch => .ok (.preset arch)
  | file path =>
      match files path with
      | .ok s => Abi.ofText s
      | .error why => .error (.unreadable path why)

def Signature.load (files : Files) (path : String) : Except SignatureError Signature :=
  match files path with
  | .ok s => Signature.ofText s
  | .error why => .error (.unreadable path why)

/-- A report as text, or as JSON. -/
def Report.print (r : Report) (json : Bool) : Except Breach String :=
  if json then .ok (r.toForm.pretty 0 ++ "\n") else r.render

namespace Command

def run (files : Files) : Command → Exit
  | abi source =>
      match source.load files with
      | .error e => .failed e.message
      | .ok a => .printed a.text
  | plan path source json =>
      match source.load files with
      | .error e => .failed e.message
      | .ok a =>
          match Signature.load files path with
          | .error e => .failed e.message
          | .ok s =>
              match s.plan a with
              | .error e => .ofPlanFailure e
              | .ok p =>
                  match (Report.ofPlan s.name p).print json with
                  | .error b => .broken b
                  | .ok text => .printed text

end Command

/-- How the program ends for its arguments. -/
def Exit.ofArguments (files : Files) (args : List String) : Exit :=
  match Command.ofArguments args with
  | .ok c => c.run files
  | .error stop => .ofStop stop

end ForeignCall
