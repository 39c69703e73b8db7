import Breadboard.Foundations.StableSelect

/-!
# bb_filter - selection

`bb_filter_select` picks, in one loop over indices, the gated elements of an array in
ascending priority, drops the last deferrable ones under pressure, and stops at the limit.
The width of `size_t` is a parameter: the shed count is a product in it.
-/

namespace Breadboard
namespace Filter

open Foundations

/-- `size_t` of the target. -/
structure Target where
  sizeMax : Nat
  sizeMax_ge : 65535 ≤ sizeMax

/-- `bb_attrs_t`. -/
structure Attrs where
  priority : UInt8
  kind : UInt16
  tagMask : UInt32
  deliveryClass : UInt8
  deriving Repr, DecidableEq

/-- `bb_filter_elem_t`: `attrs` may be NULL, `item` is an address. -/
structure Elem where
  attrs : Option Attrs
  item : Nat
  deriving Repr, DecidableEq

/-- `bb_filter_selector_t`. -/
structure Selector where
  maxCount : UInt16
  priorityMax : UInt8
  kindMask : UInt16
  tagMask : UInt32
  pressure : UInt8
  minDelivery : UInt8
  deriving Repr, DecidableEq

/-- `BB_ATTRS_DELIVERY_DEFERRABLE`. -/
def deliveryDeferrable : UInt8 :=
  1

/-- `bb_filter_gate_pass`. -/
def gatePass (a : Attrs) (sel : Selector) : Bool :=
  if sel.priorityMax < a.priority then false
  else if sel.kindMask ≠ 0 ∧ 16 ≤ a.kind then false
  else if sel.kindMask ≠ 0 ∧ sel.kindMask.toNat.testBit a.kind.toNat = false then false
  else if sel.tagMask ≠ 0 ∧ a.tagMask &&& sel.tagMask = 0 then false
  else if a.deliveryClass < sel.minDelivery then false
  else true

/-- `attrs` is not NULL and passes every gate. -/
def Elem.passes (sel : Selector) (e : Elem) : Bool :=
  match e.attrs with
  | none => false
  | some a => gatePass a sel

def Elem.priority (e : Elem) : Nat :=
  match e.attrs with
  | none => 0
  | some a => a.priority.toNat

def Elem.deferrable (e : Elem) : Bool :=
  match e.attrs with
  | none => false
  | some a => a.deliveryClass = deliveryDeferrable

/-- An element and its index. -/
abbrev Entry := Elem × Nat

section Select

variable (sel : Selector)

/-- `after_last` for the candidate `x`. -/
def afterLast (last : Option Entry) (x : Entry) : Bool :=
  match last with
  | none => true
  | some (e, i) =>
    if e.priority < x.1.priority then true
    else if x.1.priority = e.priority ∧ i < x.2 then true
    else false

/-- One iteration of the loop of `bb_filter_find_next`. -/
def nextStep (last best : Option Entry) (x : Entry) : Option Entry :=
  if x.1.passes sel = false then best
  else if afterLast last x = false then best
  else
    match best with
    | none => some x
    | some b => if x.1.priority < b.1.priority then some x else best

/-- `bb_filter_find_next`; `none` is the index `n`. -/
def findNext (input : List Elem) (last : Option Entry) : Option Entry :=
  input.zipIdx.foldl (nextStep sel last) none

/-- Pass 1: the number of gated deferrable elements. -/
def deferrableTotal (input : List Elem) : Nat :=
  input.foldl (fun n e => if e.passes sel = false then n else if e.deferrable then n + 1 else n) 0

/-- `shed_count`. -/
def shedCount (tgt : Target) (total : Nat) : Nat :=
  if 0 < sel.pressure ∧ 0 < total then
    total * sel.pressure.toNat % (tgt.sizeMax + 1) / 255
  else 0

/-- `target_count`. -/
def targetCount (n : Nat) : Nat :=
  if sel.maxCount = 0 then n else sel.maxCount.toNat

/--
Pass 2, with what has been written so far.  Each iteration takes the next gated element, so
that the fuel is the number of elements.
-/
def selectLoop (input : List Elem) (total shed limit : Nat) :
    Nat → Option Entry → Nat → List Elem → List Elem
  | 0, _, _, out => out
  | fuel + 1, last, seen, out =>
    if limit ≤ out.length then out
    else
      match findNext sel input last with
      | none => out
      | some (e, i) =>
        if e.deferrable then
          if total - (seen + 1) < shed then
            selectLoop input total shed limit fuel (some (e, i)) (seen + 1) out
          else selectLoop input total shed limit fuel (some (e, i)) (seen + 1) (out ++ [e])
        else selectLoop input total shed limit fuel (some (e, i)) seen (out ++ [e])

/-- `bb_filter_select`: what it has written to `out`. -/
def select (tgt : Target) (input : List Elem) (outCap : Nat) : List Elem :=
  if outCap = 0 ∨ input = [] then []
  else
    let total := deferrableTotal sel input
    selectLoop sel input total (shedCount sel tgt total)
      (min (targetCount sel input.length) outCap) input.length none 0 []

end Select

end Filter
end Breadboard
