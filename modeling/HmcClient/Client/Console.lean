import HmcClient.Client.Alone
import HmcClient.Client.World
import HmcClient.Client.Identity
import HmcClient.Text.Blank

/-!
# A scripted console

A console that answers by rules. A message takes the first rule that fits it and is not used up; if
there is none, the console says that it does not know how. A rule tells the answer and may let it
go wrong: no answer, half an answer, silence. Its answers can be held back until a number of
messages have taken it.

A message reaches the console if there is a way to it and if its sender accepts the console's
certificate, which is for one host and signed by one authority. The console writes down every
message that reaches it.
-/

namespace HmcClient.Client

/-- How an answer goes. -/
inductive Manner where
  | whole
  /-- The connection is closed without an answer. -/
  | dropped
  /-- The body ends early. -/
  | truncated
  /-- Nothing ever comes. -/
  | silent
  deriving DecidableEq, Repr

/-- A header value as it arrives. -/
def arriving (value : String) : String := String.ofList (Blank.trim value.toList)

/-- When a rule fits, and what is answered. -/
structure Rule where
  method : Option String
  path : Option String
  /-- The session that a message must belong to; the inner `none` is no session. -/
  session : Option (Option String)
  /-- How often the rule can be taken. -/
  times : Option Nat
  status : Nat
  headers : Headers
  body : List UInt8
  manner : Manner
  /-- How many messages must have taken the rule before it is answered. -/
  barrier : Nat
  deriving DecidableEq, Repr

/-- A message as the console has got it. -/
structure Received where
  method : String
  target : String
  session : Option String
  contentType : String
  userAgent : String
  body : List UInt8
  deriving DecidableEq, Repr

/-- A scripted console. -/
structure Console where
  /-- The rules, and how often each has been taken. -/
  rules : List (Rule × Nat)
  /-- The messages, the last one first. -/
  received : List Received
  /-- Whether there is a way to the console. -/
  reachable : Bool
  /-- The host that the certificate is for. -/
  host : String
  /-- The certificate of the authority that signed it. -/
  authority : List UInt8
  deriving Repr

namespace Rule

/-- Whether a rule fits a message and is not used up. -/
def fits (r : Rule) (taken : Nat) (m : Message) : Bool :=
  r.times.all (taken < ·) && r.method.all (· == m.request.method) &&
    r.path.all (· == m.request.url.pathText) && r.session.all (· == m.token.map arriving)

/-- The answer of a rule. -/
def delivery (r : Rule) : Option Delivery :=
  match r.manner with
  | .whole =>
    let closing := [Header.ofText "content-length" (toString r.body.length),
      Header.ofText "connection" "close"]
    some (.answered r.status (r.headers ++ closing) r.body)
  | .dropped => some .lost
  | .truncated => some (.brokenOff r.status)
  | .silent => none

/-- The rule for messages that no other fits. -/
def fallback : Rule := ⟨none, none, none, none, 501, [], [], .whole, 0⟩

/-- The rule that a message has taken. -/
def chosen (found : Option (Nat × Rule)) : Rule :=
  match found with
  | some (_, rule) => rule
  | none => fallback

end Rule

namespace Received

/-- A message as it arrives. -/
def ofMessage (m : Message) : Received where
  method := m.request.method
  target := m.request.url.target
  session := m.token.map arriving
  contentType := arriving m.request.effectiveContentType
  userAgent := Identity.userAgent
  body := m.request.body.bytes

end Received

namespace Console

/-- Whether a message reaches the console. -/
def isReachedBy (c : Console) (m : Message) : Bool :=
  c.reachable &&
    match m.verification with
    | .off => true
    | .anchors roots => roots.contains c.authority && m.request.url.hostText? == some c.host
    | .standard => false

/-- Takes the first rule that fits; the number tells which one it was. -/
def take (m : Message) : Nat → List (Rule × Nat) → Option (Nat × Rule) × List (Rule × Nat)
  | _, [] => (none, [])
  | n, (rule, taken) :: rest =>
    if rule.fits taken m then (some (n, rule), (rule, taken + 1) :: rest)
    else
      let (found, rest) := take m (n + 1) rest
      (found, (rule, taken) :: rest)

/-- What a message that reaches the console takes. -/
def receive (c : Console) (m : Message) : Option (Nat × Rule) × Console :=
  let (found, rules) := take m 0 c.rules
  (found, { c with rules := rules, received := .ofMessage m :: c.received })

/-- Answers one message at a time. -/
def answering : Answering Console := fun m c =>
  if c.isReachedBy m then
    let (found, c) := c.receive m
    (Rule.delivery (Rule.chosen found), c)
  else (some .lost, c)

/-! ## Many messages at once -/

/-- The answer that waits for an operation: the number of the rule, if one was taken. -/
structure Ticket where
  thread : Nat
  rule : Option Nat
  delivery : Option Delivery
  deriving Repr

/-- Whether the answer can be given. -/
def isDue (c : Console) (ticket : Ticket) : Bool :=
  match ticket.rule.bind (c.rules[·]?) with
  | some (rule, taken) => rule.barrier ≤ taken
  | none => true

/-- A world and a console that owes answers. -/
structure Scene (α : Type) where
  world : World α
  console : Console
  tickets : List Ticket

namespace Scene

variable {α : Type}

/-- The console gets the message that an operation has just sent. -/
def send (s : Scene α) (t : Nat) (m : Message) : Scene α :=
  if s.console.isReachedBy m then
    let (found, console) := s.console.receive m
    let ticket := ⟨t, found.map (·.1), (Rule.chosen found).delivery⟩
    { s with console := console, tickets := s.tickets ++ [ticket] }
  else { s with tickets := s.tickets ++ [⟨t, none, some .lost⟩] }

/-- An operation goes on if it can; if it waits for an answer that is due, it gets it. -/
def poke (s : Scene α) (t : Nat) : Scene α :=
  match s.world.advance t with
  | some world =>
    let s := { s with world := world }
    match (world.threads[t]?).bind Thread.message? with
    | some m => s.send t m
    | none => s
  | none =>
    match s.tickets.find? fun ticket => ticket.thread == t && s.console.isDue ticket with
    | none => s
    | some ticket =>
      match ticket.delivery.bind (s.world.deliver t) with
      | some world =>
        { s with world := world, tickets := s.tickets.filter fun ticket => ticket.thread != t }
      | none => s

/-- Whether every operation is over. -/
def isOver (s : Scene α) : Bool := s.world.threads.all Thread.isOver

/-- Pokes the operations in turn, for at most a number of rounds. -/
def play : Nat → Scene α → Scene α
  | 0, s => s
  | rounds + 1, s =>
    if s.isOver then s else play rounds ((List.range s.world.threads.length).foldl poke s)

end Scene

/-- Runs operations at the same time. Each has a result unless the rounds did not suffice. -/
def runTogether {α : Type} (rounds : Nat) (operations : List (Action α)) (s : Alone Console) :
    List (Option α) × Alone Console :=
  let ending := Scene.play rounds ⟨World.start s.shared operations, s.console, []⟩
  (ending.world.threads.map Thread.result?,
    { s with shared := ending.world.shared, console := ending.console })

end Console

end HmcClient.Client
