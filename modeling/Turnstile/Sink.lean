import Turnstile.Log

/-!
Destinations of decisions. A receiver is any way to answer one decision, with a
state of its own; `Sink` holds the ones that come with the library.
-/

namespace Turnstile

inductive SinkError
  | unavailable (text : String)
  | rejected (text : String)
  deriving DecidableEq, Repr

def SinkError.message : SinkError → String
  | .unavailable text => "monitoring sink unavailable: " ++ text
  | .rejected text => "monitoring sink rejected event: " ++ text

/-- As with `Pool.Ending`, to drop the value that was thrown by a panic is taken not to panic. -/
inductive Reply
  | delivered
  | refused (error : SinkError)
  | panicked (text : String)
  deriving DecidableEq, Repr

structure Receipt where
  reply : Reply := .delivered
  records : List LogRecord := []

abbrev Receiver (σ : Type) := σ → String → Decision → Receipt × σ

def opaquePanic : String := "non-string panic payload"

inductive RuleScope
  | always
  | allowed
  | denied
  | oddTime
  deriving DecidableEq, Repr

def RuleScope.covers (scope : RuleScope) (decision : Decision) : Bool :=
  match scope with
  | .always => true
  | .allowed => decision.allowed
  | .denied => !decision.allowed
  | .oddTime => decision.time % 2 == 1

inductive RuleAction
  | accept
  | unavailable (text : String)
  | reject (text : String)
  | panic (text : String)
  deriving DecidableEq, Repr

/-- The answer to some decisions of one client, or of all. -/
structure Rule where
  client? : Option String := none
  scope : RuleScope := .always
  action : RuleAction := .accept
  deriving DecidableEq, Repr

namespace Rule

def appliesTo (rule : Rule) (client : String) (decision : Decision) : Bool :=
  rule.client?.all (· == client) && rule.scope.covers decision

/-- Texts name the time of the decision wherever they hold the letters ts in braces. -/
def fillIn (text : String) (decision : Decision) : String :=
  text.replace "\x7bts\x7d" (toString decision.time)

def reply (rule : Rule) (decision : Decision) : Reply :=
  match rule.action with
  | .accept => .delivered
  | .unavailable text => .refused (.unavailable (fillIn text decision))
  | .reject text => .refused (.rejected (fillIn text decision))
  | .panic text => .panicked (fillIn text decision)

/-- The first rule that applies decides; without one the decision is accepted. -/
def answer (rules : List Rule) (client : String) (decision : Decision) : Reply :=
  match rules.find? fun rule => rule.appliesTo client decision with
  | some rule => rule.reply decision
  | none => .delivered

end Rule

abbrev Received := Array (String × Decision)

def Received.of (received : Received) (client : String) : List Decision :=
  (received.toList.filter fun entry => entry.1 == client).map Prod.snd

inductive Sink
  | null
  | log
  | memory (rules : List Rule) (received : Received)

namespace Sink

def send : Receiver Sink
  | .null, _, _ => ({}, .null)
  | .log, client, decision => ({ records := [.decisionMade client decision] }, .log)
  | .memory rules received, client, decision =>
      match Rule.answer rules client decision with
      | .delivered => ({}, .memory rules (received.push (client, decision)))
      | reply => ({ reply }, .memory rules received)

def received? : Sink → Option Received
  | .memory _ received => some received
  | .null | .log => none

def emptied : Sink → Sink
  | .memory rules _ => .memory rules #[]
  | sink => sink

end Sink

end Turnstile
