import Mathlib.Tactic.Common

/-!
A place for one call.

A call is accepted into the free slot, a server finishes it, and its reply is
delivered, which frees the slot.  The history of such a slot shows every reply
delivered once and in order.
-/

namespace Trusty.Lib

open List

inductive CallSlot (Request Reply : Type) where
  | free
  | busy (request : Request)
  | ready (reply : Reply)
deriving DecidableEq

namespace CallSlot

variable {Request Reply : Type}

inductive Action (Request Reply : Type) where
  | accept (request : Request)
  | finish (reply : Reply)
  | deliver (reply : Reply)

inductive Step : CallSlot Request Reply → Action Request Reply → CallSlot Request Reply → Prop
  | accept (request : Request) : Step .free (.accept request) (.busy request)
  | finish (request : Request) (reply : Reply) : Step (.busy request) (.finish reply) (.ready reply)
  | deliver (reply : Reply) : Step (.ready reply) (.deliver reply) .free

structure History (Request Reply : Type) where
  accepted : List Request
  finished : List Reply
  delivered : List Reply

def History.empty : History Request Reply := ⟨[], [], []⟩

def History.record (history : History Request Reply) : Action Request Reply → History Request Reply
  | .accept request => { history with accepted := history.accepted ++ [request] }
  | .finish reply => { history with finished := history.finished ++ [reply] }
  | .deliver reply => { history with delivered := history.delivered ++ [reply] }

def Fits : CallSlot Request Reply → History Request Reply → Prop
  | .free, history =>
    history.finished = history.delivered ∧ history.accepted.length = history.delivered.length
  | .busy request, history =>
    history.finished = history.delivered ∧
      ∃ before, history.accepted = before ++ [request] ∧ before.length = history.delivered.length
  | .ready reply, history =>
    history.finished = history.delivered ++ [reply] ∧
    history.accepted.length = history.delivered.length + 1

theorem fits_empty : Fits (.free : CallSlot Request Reply) .empty :=
  ⟨rfl, rfl⟩

variable {slot : CallSlot Request Reply} {history : History Request Reply}

theorem Fits.step {next : CallSlot Request Reply} {action : Action Request Reply}
    (fits : slot.Fits history) (stepped : Step slot action next) :
    next.Fits (history.record action) := by
  cases stepped with
  | accept request =>
    obtain ⟨same, count⟩ := fits
    exact ⟨same, history.accepted, rfl, count⟩
  | finish request reply =>
    obtain ⟨same, before, accepted, count⟩ := fits
    refine ⟨congrArg (· ++ [reply]) same, ?_⟩
    change history.accepted.length = _
    rw [accepted, length_append, count]
    rfl
  | deliver reply =>
    obtain ⟨same, count⟩ := fits
    refine ⟨same, ?_⟩
    change history.accepted.length = (history.delivered ++ [reply]).length
    rw [count, length_append]
    rfl

section

variable (fits : slot.Fits history)

include fits

/-- Replies are delivered in the order in which they are made, and at most one call is
not delivered yet. -/
theorem Fits.delivered :
    history.delivered <+: history.finished ∧ history.finished.length ≤ history.accepted.length ∧
      history.accepted.length ≤ history.delivered.length + 1 := by
  cases slot with
  | free =>
    obtain ⟨same, count⟩ := fits
    rw [same, count]
    exact ⟨prefix_rfl, Nat.le_refl _, Nat.le_succ _⟩
  | busy request =>
    obtain ⟨same, before, accepted, count⟩ := fits
    rw [same, accepted, length_append, count]
    exact ⟨prefix_rfl, Nat.le_succ _, Nat.le_refl _⟩
  | ready reply =>
    obtain ⟨same, count⟩ := fits
    rw [same, count, length_append]
    exact ⟨prefix_append _ _, Nat.le_refl _, Nat.le_refl _⟩

theorem Fits.free_iff : slot = .free ↔ history.accepted.length = history.delivered.length := by
  cases slot with
  | free => exact ⟨fun _ => fits.2, fun _ => rfl⟩
  | busy request =>
    obtain ⟨-, before, accepted, count⟩ := fits
    rw [accepted, length_append, count]
    simp
  | ready reply =>
    rw [fits.2]
    simp

theorem Fits.busy_iff :
    (∃ request, slot = .busy request) ↔ history.finished.length < history.accepted.length := by
  cases slot with
  | free =>
    rw [fits.1, fits.2]
    simp
  | busy request =>
    obtain ⟨same, before, accepted, count⟩ := fits
    rw [same, accepted, length_append, count]
    simp
  | ready reply =>
    rw [fits.1, fits.2, length_append]
    simp

theorem Fits.ready_iff (reply : Reply) :
    slot = .ready reply ↔ history.finished = history.delivered ++ [reply] := by
  cases slot with
  | free =>
    rw [fits.1]
    simp
  | busy request =>
    rw [fits.1]
    simp
  | ready other =>
    rw [fits.1]
    simp

end

end CallSlot

end Trusty.Lib
