/-
This file orders the atoms by an activity that grows with their part in recent conflicts.
-/

import ParitySat.Decision.Queue

namespace ParitySat

/-- The increment grows by the reciprocal of the decay after every conflict. -/
structure DecisionOrder where
  queue : Queue
  activity : Array Float
  increment : Float
  decayFactor : Float
  deriving Inhabited

namespace DecisionOrder

def empty (decayFactor : Float) : DecisionOrder :=
  ⟨.empty, #[], 1.0, decayFactor⟩

/-- The greater activity ranks higher, and the lower atom among equals. -/
def higher (activity : Array Float) (first second : Nat) : Bool :=
  let firstActivity := activity.getD first 0.0
  let secondActivity := activity.getD second 0.0
  firstActivity > secondActivity || (firstActivity == secondActivity && first < second)

/-- This function makes room for one more atom of activity zero, which is not yet queued. -/
def grow (order : DecisionOrder) : DecisionOrder :=
  { order with queue := order.queue.grow, activity := order.activity.push 0.0 }

def isEmpty (order : DecisionOrder) : Bool :=
  order.queue.entries.isEmpty

def contains (order : DecisionOrder) (atom : Nat) : Bool :=
  order.queue.contains atom

def insert (order : DecisionOrder) (atom : Nat) : DecisionOrder :=
  { order with queue := order.queue.insert (higher order.activity) atom }

/-- This function takes the highest atom out of the queue, if there is any. -/
def pop (order : DecisionOrder) : Option Nat × DecisionOrder :=
  let taken := order.queue.pop (higher order.activity)
  (taken.1, { order with queue := taken.2 })

def decay (order : DecisionOrder) : DecisionOrder :=
  { order with increment := order.increment / order.decayFactor }

/-- No activity may exceed this bound before all of them are scaled down. -/
def activityBound : Float := 1e100

def rescaleFactor : Float := 1e-100

def rescale (order : DecisionOrder) : DecisionOrder :=
  { order with
    activity := (order.activity.toList.map (· * rescaleFactor)).toArray
    increment := order.increment * rescaleFactor }

/-- This function adds the increment to the activity before the queue is repaired. -/
def credit (order : DecisionOrder) (atom : Nat) : DecisionOrder :=
  let raised := order.activity.getD atom 0.0 + order.increment
  let credited := { order with activity := order.activity.setIfInBounds atom raised }
  if raised > activityBound then credited.rescale else credited

def bump (order : DecisionOrder) (atom : Nat) : DecisionOrder :=
  let credited := order.credit atom
  { credited with queue := credited.queue.raise (higher credited.activity) atom }

end DecisionOrder

end ParitySat
