import Trusty.Storage.RpmbProtocol

/-!
Attackers of the RPMB client that can be run.

A reply says what the non-secure side asks the device while the client waits and
what it hands to the client.  `RpmbReply.respond` checks that the device and the
codes allow it, so that a played call is a run in `rpmbNetwork`.
-/

namespace Trusty.Storage

open Lib Session

/-- What the non-secure side does with a command. -/
structure RpmbReply where
  requests : RpmbCommand → List (List RpmbPacket × Nat)
  answer : RpmbWorld → RpmbAnswer

section Attacker

variable (hmac : Hmac) (key : RpmbKey)

def RpmbWorld.isFresh (world : RpmbWorld) (nonce : RpmbNonce) : Bool :=
  world.authentic.all fun message => message.all fun body => body.nonce != nonce

/-- The non-secure side passes a request to the device. -/
def RpmbWorld.serve (world : RpmbWorld) (request : List RpmbPacket × Nat) : Option RpmbWorld :=
  if Unforged hmac key world request.1 then
    (world.device.handle hmac key request.1 request.2).map fun (device, event) =>
      { world with device := device, log := world.log ++ [event] }
  else none

def RpmbWorld.serveAll (world : RpmbWorld) : List (List RpmbPacket × Nat) → Option RpmbWorld
  | [] => some world
  | request :: rest =>
    match world.serve hmac key request with
    | none => none
    | some next => next.serveAll rest

def RpmbAnswer.possible (world : RpmbWorld) (readCount : Nat) : RpmbAnswer → Bool
  | .error code => code < 0
  | .packets res => res.length == readCount && decide (Unforged hmac key world res)

def RpmbReply.respond (world : RpmbWorld) (command : RpmbCommand) (reply : RpmbReply) :
    Option (RpmbAnswer × RpmbWorld) :=
  match (world.learn command).serveAll hmac key (reply.requests command) with
  | none => none
  | some final =>
    if (reply.answer final).possible hmac key final command.readCount then
      some (reply.answer final, final)
    else none

/-- The packets of a message with its code. -/
def authenticate (message : List RpmbBody) : List RpmbPacket :=
  message.map fun body => ⟨hmac key (RpmbBody.allBytes message), body⟩

/-- The response that belongs to an event of the device. -/
def RpmbWorld.responseTo (world : RpmbWorld) (index : Nat) : RpmbAnswer :=
  .packets (authenticate hmac key ((world.log.map RpmbEvent.response).getD index []))

/-- The non-secure side as it should be: every command goes to the device, and
the response to the last one comes back. -/
def RpmbReply.honest : RpmbReply where
  requests command :=
    if command.reliableWrite = [] then [(command.write, command.readCount)]
    else [(command.reliableWrite, command.readCount)]
  answer world := world.responseTo hmac key (world.log.length - 1)

def RpmbReply.withheld (answer : RpmbWorld → RpmbAnswer) : RpmbReply := ⟨fun _ => [], answer⟩

/-- A call of the client against scripted replies. -/
def rpmbPlay {α : Type} (session : RpmbSession α) (nonces : List RpmbNonce)
    (replies : List RpmbReply) (world : RpmbWorld) : Option (α × List RpmbNote × RpmbWorld) :=
  play RpmbWorld.isFresh (RpmbReply.respond hmac key) session nonces replies world

end Attacker

section Soundness

variable {hmac : Hmac} {key : RpmbKey}

variable {world final : RpmbWorld}

theorem RpmbWorld.attack_of_serve {next : RpmbWorld} {request : List RpmbPacket × Nat}
    (served : world.serve hmac key request = some next) : RpmbAttack hmac key world next := by
  unfold serve at served
  split at served
  case isTrue unforged =>
    obtain ⟨⟨device, event⟩, handled, rfl⟩ := Option.map_eq_some_iff.mp served
    exact .request unforged handled
  case isFalse => cases served

theorem RpmbWorld.attacks_of_serveAll {requests : List (List RpmbPacket × Nat)}
    (served : world.serveAll hmac key requests = some final) :
    Relation.ReflTransGen (RpmbAttack hmac key) world final := by
  induction requests generalizing world with
  | nil =>
    cases served
    exact .refl
  | cons request rest ih =>
    rw [serveAll] at served
    split at served
    next => cases served
    next next first => exact .head (attack_of_serve first) (ih served)

theorem RpmbReply.exchange_of_respond {command : RpmbCommand} {reply : RpmbReply}
    {answer : RpmbAnswer}
    (responded : reply.respond hmac key world command = some (answer, final)) :
    (rpmbNetwork hmac key).exchange world command answer final := by
  unfold respond at responded
  split at responded
  next => cases responded
  next reached served =>
    split at responded
    case isFalse => cases responded
    case isTrue possible =>
      cases responded
      refine ⟨RpmbWorld.attacks_of_serveAll served, ?_⟩
      revert possible
      cases reply.answer final with
      | error code => simp [RpmbAnswer.possible]
      | packets res => simp [RpmbAnswer.possible]

/-- A call that can be played is a run of the client. -/
theorem exec_of_rpmbPlay {α : Type} {session : RpmbSession α} {nonces : List RpmbNonce}
    {replies : List RpmbReply} {value : α} {notes : List RpmbNote}
    (played : rpmbPlay hmac key session nonces replies world = some (value, notes, final)) :
    Exec (rpmbNetwork hmac key) world session value notes final := by
  refine exec_of_play _ _ ?_ ?_ played
  · intro state nonce isFresh message known body mem
    simp only [RpmbWorld.isFresh, List.all_eq_true, bne_iff_ne] at isFresh
    exact isFresh message known body mem
  · intro state command reply answer middle responded
    exact RpmbReply.exchange_of_respond responded

end Soundness

end Trusty.Storage
