import Breadboard.Foundations.JsonText

/-!
# JSON texts from inside their containers

A text that is written piece by piece is read from the inside: while some containers are open,
what is still to come closes them one after the other.  `ReadsOpen N fs s evs` says this of
the containers `fs`, the innermost first.  A piece in front of such a rest is one more
child, the begin of one more container, or the end of the innermost.

Whole texts may stand in place of a value: a reading may be followed by anything, and its value
may go under another key.

Main results:

- Theorem `ReadsOpen.child`, `ReadsOpen.opens`, `ReadsOpen.closes`: one piece more.
- Theorem `ReadsOpen.isText`: the rest of an object behind its brace is a text.
-/

namespace Breadboard
namespace Foundations
namespace JsonText

/-! ## Readings in another place -/

theorem StringBody.append_right {s v rest : Text} (h : StringBody s v rest) (t : Text) :
    StringBody (s ++ t) v (rest ++ t) := by
  induction h with
  | close rest => exact .close _
  | plain hb _ ih => exact .plain hb ih
  | short hb _ ih => exact .short hb ih
  | unit hu hhigh hlow _ ih => exact .unit hu hhigh hlow ih
  | pair hu hhigh hu' hlow _ ih => exact .pair hu hhigh hu' hlow ih

section

variable {N : Text → Prop} {kind : Kind} {s rest : Text} {evs : List Event}

theorem Reads.append_right (h : Reads N kind s evs rest) (t : Text) :
    Reads N kind (s ++ t) evs (rest ++ t) := by
  induction h with
  | ws hkind hb _ ih => exact .ws hkind hb ih
  | str h => exact .str (h.append_right t)
  | num rest h =>
    rw [List.append_assoc]
    exact .num (rest ++ t) h
  | litTrue key rest => exact .litTrue key _
  | litFalse key rest => exact .litFalse key _
  | litNull key rest => exact .litNull key _
  | obj _ ih => exact .obj ih
  | arr _ ih => exact .arr ih
  | objEmpty rest => exact .objEmpty _
  | objFirst hkey _ ih => exact .objFirst (hkey.append_right t) ih
  | key hkey _ ih => exact .key (hkey.append_right t) ih
  | colon _ ih => exact .colon ih
  | memberValue _ _ ihv ih => exact .memberValue ihv ih
  | objEnd rest => exact .objEnd _
  | objNext _ ih => exact .objNext ih
  | arrEmpty rest => exact .arrEmpty _
  | arrFirst _ _ ihv ih => exact .arrFirst ihv ih
  | element _ _ ihv ih => exact .element ihv ih
  | arrEnd rest => exact .arrEnd _
  | arrNext _ ih => exact .arrNext ih

/-- White space may be put in front. -/
theorem Reads.skip {w : Text} (hkind : kind.skipsWs = true) (hw : ∀ b ∈ w, isWs b = true)
    (h : Reads N kind s evs rest) : Reads N kind (w ++ s) evs rest := by
  induction w with
  | nil => exact h
  | cons b w ih =>
    apply Reads.ws hkind (hw b List.mem_cons_self)
    apply ih
    intro b' hb'
    exact hw b' (List.mem_cons_of_mem b hb')

/-- An event under another key. -/
def Event.withKey (key : Text) : Event → Event
  | .beginObj _ => .beginObj key
  | .endObj => .endObj
  | .beginArr _ => .beginArr key
  | .endArr => .endArr
  | .num _ text => .num key text
  | .bool _ v => .bool key v
  | .null _ => .null key
  | .str _ value => .str key value

/-- The events of a value under another key. -/
def rekey (key : Text) : List Event → List Event
  | [] => []
  | e :: evs => e.withKey key :: evs

/-- A value means the same under any key. -/
theorem Reads.rekey {key' : Text} (key : Text) (h : Reads N (.value key') s evs rest) :
    Reads N (.value key) s (rekey key evs) rest := by
  cases h with
  | ws hkind _ _ => cases hkind
  | str h => exact .str h
  | num rest h => exact .num rest h
  | litTrue _ rest => exact .litTrue key rest
  | litFalse _ rest => exact .litFalse key rest
  | litNull _ rest => exact .litNull key rest
  | obj h => exact .obj h
  | arr h => exact .arr h

end

/-! ## Open containers -/

/-- An open container: an array or an object, with a child before or not. -/
structure Frame where
  isArray : Bool
  haveChild : Bool
  deriving Repr, DecidableEq

namespace Frame

/-- What comes next in the container. -/
def kind (f : Frame) : Kind :=
  if f.isArray then if f.haveChild then .arrTail else .arrBody
  else if f.haveChild then .objTail else .objBody

def withChild (f : Frame) : Frame :=
  { f with haveChild := true }

/-- What stands between two children. -/
def comma (f : Frame) : Text :=
  if f.haveChild then [44] else []

/-- The bracket that closes the container, and its event. -/
def closing (f : Frame) : UInt8 :=
  if f.isArray then 93 else 125

def endEvent (f : Frame) : Event :=
  if f.isArray then .endArr else .endObj

/-- The bracket that opens a container, and its event. -/
def opening (f : Frame) : UInt8 :=
  if f.isArray then 91 else 123

def beginEvent (f : Frame) (key : Text) : Event :=
  if f.isArray then .beginArr key else .beginObj key

/-- A child stands behind its key in an object, behind nothing in an array. -/
inductive Labels : Frame → Text → Text → Prop where
  | element {f : Frame} (hf : f.isArray = true) : Labels f [] []
  | member {f : Frame} {key body : Text} (hf : f.isArray = false)
      (hbody : ∀ rest, StringBody (body ++ rest) key rest) : Labels f key (34 :: (body ++ [58]))

end Frame

/-- What is still to come closes the open containers, from the innermost out, and then ends. -/
def ReadsOpen (N : Text → Prop) : List Frame → Text → List Event → Prop
  | [], s, evs => s = [] ∧ evs = []
  | f :: fs, s, evs =>
    ∃ own s' evs', evs = own ++ evs' ∧ Reads N f.kind s own s' ∧ ReadsOpen N fs s' evs'

section

variable {N : Text → Prop} {f : Frame} {fs : List Frame} {key label rest : Text}
  {evs : List Event}

/-- One more child in front, perhaps with white space around its value. -/
theorem Reads.child {w v w' tail : Text} {own evs' : List Event} (hlabel : f.Labels key label)
    (hw : ∀ b ∈ w, isWs b = true) (hvalue : Reads N (.value key) v own (w' ++ rest))
    (hw' : ∀ b ∈ w', isWs b = true) (h : Reads N f.withChild.kind rest evs' tail) :
    Reads N f.kind (f.comma ++ (label ++ (w ++ v))) (own ++ evs') tail := by
  rcases f with ⟨isArray, haveChild⟩
  cases hlabel with
  | element hf =>
    dsimp only at hf
    subst hf
    have hafter : Reads N .arrTail (w' ++ rest) evs' tail := h.skip rfl hw'
    cases haveChild with
    | true =>
      have helement : Reads N .element (w ++ v) (own ++ evs') tail :=
        (Reads.element hvalue hafter).skip rfl hw
      exact .arrNext helement
    | false =>
      have hfirst : Reads N .arrBody (w ++ v) (own ++ evs') tail :=
        (Reads.arrFirst hvalue hafter).skip rfl hw
      exact hfirst
  | @member _ body hf hbody =>
    dsimp only at hf
    subst hf
    have hafter : Reads N .objTail (w' ++ rest) evs' tail := h.skip rfl hw'
    have hmember : Reads N (.colon key) (58 :: (w ++ v)) (own ++ evs') tail :=
      .colon ((Reads.memberValue hvalue hafter).skip rfl hw)
    have hkey := hbody (58 :: (w ++ v))
    have htext : 34 :: (body ++ [58]) ++ (w ++ v) = 34 :: (body ++ 58 :: (w ++ v)) := by
      rw [List.cons_append, List.append_assoc]
      rfl
    rw [htext]
    cases haveChild with
    | true => exact .objNext (.key hkey hmember)
    | false => exact .objFirst hkey hmember

namespace ReadsOpen

theorem child {w v w' : Text} {own : List Event} (hlabel : f.Labels key label)
    (hw : ∀ b ∈ w, isWs b = true) (hvalue : Reads N (.value key) v own (w' ++ rest))
    (hw' : ∀ b ∈ w', isWs b = true) (h : ReadsOpen N (f.withChild :: fs) rest evs) :
    ReadsOpen N (f :: fs) (f.comma ++ (label ++ (w ++ v))) (own ++ evs) := by
  rcases h with ⟨tail, s', evs', hevs, htail, hbelow⟩
  refine ⟨own ++ tail, s', evs', ?_, ?_, hbelow⟩
  · rw [hevs, List.append_assoc]
  · exact Reads.child hlabel hw hvalue hw' htail

/-- The begin of one more container in front. -/
theorem opens {f' : Frame} (hlabel : f.Labels key label) (hnew : f'.haveChild = false)
    (h : ReadsOpen N (f' :: f.withChild :: fs) rest evs) :
    ReadsOpen N (f :: fs) (f.comma ++ (label ++ f'.opening :: rest)) (f'.beginEvent key :: evs) := by
  rcases h with ⟨own, s', evs', hevs, hbody, hrest⟩
  have hvalue : Reads N (.value key) (f'.opening :: rest) (f'.beginEvent key :: own) s' := by
    rcases f' with ⟨isArray, haveChild⟩
    dsimp only at hnew
    subst hnew
    cases isArray with
    | true => exact .arr hbody
    | false => exact .obj hbody
  have hchild := @child N f fs key label s' evs' [] (f'.opening :: rest) []
    (f'.beginEvent key :: own) hlabel (fun b hb => absurd hb List.not_mem_nil) hvalue
    (fun b hb => absurd hb List.not_mem_nil) hrest
  rw [hevs]
  exact hchild

/-- The end of the innermost container in front. -/
theorem closes (h : ReadsOpen N fs rest evs) :
    ReadsOpen N (f :: fs) (f.closing :: rest) (f.endEvent :: evs) := by
  refine ⟨[f.endEvent], rest, evs, rfl, ?_, h⟩
  rcases f with ⟨isArray, haveChild⟩
  cases isArray with
  | true =>
    cases haveChild with
    | true => exact .arrEnd rest
    | false => exact .arrEmpty rest
  | false =>
    cases haveChild with
    | true => exact .objEnd rest
    | false => exact .objEmpty rest

/-- The rest of an object behind its brace. -/
theorem isText {s : Text} (h : ReadsOpen N [⟨false, false⟩] s evs) :
    IsText N (123 :: s) (.beginObj [] :: evs) := by
  rcases h with ⟨own, s', evs', hevs, hbody, hend, hnone⟩
  subst hend hnone
  rw [hevs, List.append_nil]
  exact ⟨[], 123 :: s, [], rfl, fun b hb => absurd hb List.not_mem_nil, .obj hbody,
    fun b hb => absurd hb List.not_mem_nil⟩

end ReadsOpen

end

end JsonText
end Foundations
end Breadboard
