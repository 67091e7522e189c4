import ForeignCall.Caller
import ForeignCall.Signature

/-! # Sessions

A session is one caller at work: plans are prepared and numbered, memory is written, and prepared
plans are called. Every preparation takes the next number, also one that fails. A call sees the
memory as it is at that moment. -/

namespace ForeignCall

structure Session where
  caller : Caller
  memory : Memory
  plans : List (Option Plan)

inductive Step where
  /-- Plan a signature, for the caller's ABI or for another one. -/
  | prepare (s : Signature) (abi : Option Abi)
  | store (address : UInt64) (bytes : List UInt8)
  | call (plan : Nat) (args : Arguments) (destination : UInt64) (run : Behaviour)

inductive Answer where
  | prepared (index : Nat) (plan : Plan)
  | unplanned (e : PlanFailure)
  | stored
  | called (o : Outcome)
  /-- The plan was never made. -/
  | noPlan

namespace Session

def start (c : Caller) (m : Memory) : Session := ⟨c, m, []⟩

/-- The plan with a number, where preparing it succeeded. -/
def plan? (s : Session) (index : Nat) : Option Plan := (s.plans[index]?).join

def step (s : Session) : Step → Session × Answer
  | .prepare signature abi =>
      match signature.plan (abi.getD s.caller.abi) with
      | .ok p => ({ s with plans := s.plans ++ [some p] }, .prepared s.plans.length p)
      | .error e => ({ s with plans := s.plans ++ [none] }, .unplanned e)
  | .store address bytes => ({ s with memory := s.memory.store address bytes }, .stored)
  | .call index args destination run =>
      match s.plan? index with
      | none => (s, .noPlan)
      | some p =>
          let o := s.caller.call p args destination run s.memory
          ({ s with memory := o.memory }, .called o)

/-- A run of steps with the answers in order. -/
def run (s : Session) : List Step → Session × List Answer
  | [] => (s, [])
  | t :: ts =>
      let (s, a) := s.step t
      let (s, answers) := s.run ts
      (s, a :: answers)

end Session

/-- The events that an answer brings. -/
def Answer.events : Answer → List Event
  | .prepared _ p => [.ofPlan p]
  | .called o => o.events
  | .unplanned _ | .stored | .noPlan => []

end ForeignCall
