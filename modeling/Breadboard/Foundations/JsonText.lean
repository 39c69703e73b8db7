import Breadboard.Foundations.Decimal

/-!
# JSON texts as byte strings

The grammar of RFC 8259 over bytes, read from left to right: `Reads N kind s evs rest`
says that `s` starts with a piece of the given kind, that the piece means the
events `evs`, and that `rest` is what follows it.  Bytes from 128 on are not
validated.  The number grammar is a parameter, so a grammar with other numbers is an
instance of the same relation.

Limits on nesting and on lengths are conditions on the events, not on the text.

Main results:

- Theorem `Reads.change`: a reading whose numbers are all in another grammar is a
  reading under that grammar.
- Theorem `nests_append`: nesting is checked piece by piece.
-/

namespace Breadboard
namespace Foundations
namespace JsonText

abbrev Text := List UInt8

/-! ## Tokens -/

/-- Insignificant white space: space, tab, line feed, carriage return. -/
def isWs (b : UInt8) : Bool :=
  b = 32 ∨ b = 9 ∨ b = 10 ∨ b = 13

/-- A byte that stands for itself in a string: no quote, backslash or control character. -/
def isPlain (b : UInt8) : Bool :=
  b ≠ 34 ∧ b ≠ 92 ∧ 32 ≤ b

/-- The value of a hexadecimal digit. -/
def hexDigit? (b : UInt8) : Option Nat :=
  if 48 ≤ b ∧ b ≤ 57 then some (b.toNat - 48)
  else if 97 ≤ b ∧ b ≤ 102 then some (b.toNat - 87)
  else if 65 ≤ b ∧ b ≤ 70 then some (b.toNat - 55)
  else none

/-- The code unit of four hexadecimal digits. -/
def codeUnit? (a b c d : UInt8) : Option Nat := do
  let a ← hexDigit? a
  let b ← hexDigit? b
  let c ← hexDigit? c
  let d ← hexDigit? d
  some (((a * 16 + b) * 16 + c) * 16 + d)

/-- A high surrogate. -/
def IsHigh (u : Nat) : Prop := 55296 ≤ u ∧ u ≤ 56319

/-- A low surrogate. -/
def IsLow (u : Nat) : Prop := 56320 ≤ u ∧ u ≤ 57343

instance (u : Nat) : Decidable (IsHigh u) := inferInstanceAs (Decidable (_ ∧ _))

instance (u : Nat) : Decidable (IsLow u) := inferInstanceAs (Decidable (_ ∧ _))

/-- The code point of a surrogate pair. -/
def pairPoint (high low : Nat) : Nat :=
  65536 + (high - 55296) * 1024 + (low - 56320)

/-- The UTF-8 encoding of a code point. -/
def utf8 (cp : Nat) : Text :=
  if cp ≤ 127 then [UInt8.ofNat cp]
  else if cp ≤ 2047 then [UInt8.ofNat (192 + cp / 64), UInt8.ofNat (128 + cp % 64)]
  else if cp ≤ 65535 then
    [UInt8.ofNat (224 + cp / 4096), UInt8.ofNat (128 + cp / 64 % 64), UInt8.ofNat (128 + cp % 64)]
  else
    [UInt8.ofNat (240 + cp / 262144), UInt8.ofNat (128 + cp / 4096 % 64),
      UInt8.ofNat (128 + cp / 64 % 64), UInt8.ofNat (128 + cp % 64)]

/-- The two-character escapes. -/
def shortEscape? (b : UInt8) : Option UInt8 :=
  if b = 34 then some 34
  else if b = 92 then some 92
  else if b = 47 then some 47
  else if b = 98 then some 8
  else if b = 102 then some 12
  else if b = 110 then some 10
  else if b = 114 then some 13
  else if b = 116 then some 9
  else none

/-- The rest of a string after its opening quote, its value, and what follows it. -/
inductive StringBody : Text → Text → Text → Prop where
  | close (rest : Text) : StringBody (34 :: rest) [] rest
  | plain {b : UInt8} {s v rest : Text} (hb : isPlain b = true) (h : StringBody s v rest) :
      StringBody (b :: s) (b :: v) rest
  | short {b c : UInt8} {s v rest : Text} (hb : shortEscape? b = some c) (h : StringBody s v rest) :
      StringBody (92 :: b :: s) (c :: v) rest
  | unit {a b c d : UInt8} {u : Nat} {s v rest : Text} (hu : codeUnit? a b c d = some u)
      (hhigh : ¬ IsHigh u) (hlow : ¬ IsLow u) (h : StringBody s v rest) :
      StringBody (92 :: 117 :: a :: b :: c :: d :: s) (utf8 u ++ v) rest
  | pair {a b c d a' b' c' d' : UInt8} {u u' : Nat} {s v rest : Text}
      (hu : codeUnit? a b c d = some u) (hhigh : IsHigh u) (hu' : codeUnit? a' b' c' d' = some u')
      (hlow : IsLow u') (h : StringBody s v rest) :
      StringBody (92 :: 117 :: a :: b :: c :: d :: 92 :: 117 :: a' :: b' :: c' :: d' :: s)
        (utf8 (pairPoint u u') ++ v) rest

/-! ## Numbers -/

/-- One or more digits. -/
def Digits (s : Text) : Prop := s ≠ [] ∧ ∀ b ∈ s, Decimal.isDigit b = true

/-- Digits without a superfluous leading zero. -/
def Integer (s : Text) : Prop := Digits s ∧ (s.head? = some 48 → s = [48])

def Sign (s : Text) : Prop := s = [] ∨ s = [45]

def Fraction (s : Text) : Prop := s = [] ∨ ∃ d, s = 46 :: d ∧ Digits d

def Exponent (s : Text) : Prop :=
  s = [] ∨ ∃ e sign d, s = e :: (sign ++ d) ∧ (e = 101 ∨ e = 69) ∧
    (sign = [] ∨ sign = [43] ∨ sign = [45]) ∧ Digits d

/-- A number whose integer part satisfies `I`. -/
def Number (I : Text → Prop) (s : Text) : Prop :=
  ∃ sign int frac exp, s = sign ++ (int ++ (frac ++ exp)) ∧ Sign sign ∧ I int ∧ Fraction frac ∧
    Exponent exp

/-- The numbers of RFC 8259. -/
abbrev RfcNumber : Text → Prop := Number Integer

/-- The numbers of RFC 8259 with superfluous leading zeros allowed. -/
abbrev LaxNumber : Text → Prop := Number Digits

theorem RfcNumber.lax {s : Text} (h : RfcNumber s) : LaxNumber s := by
  obtain ⟨sign, int, frac, exp, hs, hsign, hint, hfrac, hexp⟩ := h
  exact ⟨sign, int, frac, exp, hs, hsign, hint.1, hfrac, hexp⟩

/-- A number is not empty. -/
theorem LaxNumber.ne_nil {s : Text} (h : LaxNumber s) : s ≠ [] := by
  obtain ⟨sign, int, frac, exp, rfl, -, hint, -, -⟩ := h
  simp [hint.1]

/-! ## Values -/

/-- What a text means: the begin, end and value events in order; members carry their key. -/
inductive Event where
  | beginObj (key : Text)
  | endObj
  | beginArr (key : Text)
  | endArr
  | num (key text : Text)
  | bool (key : Text) (v : Bool)
  | null (key : Text)
  | str (key value : Text)
  deriving Repr, DecidableEq

/--
The pieces a text is made of.  A member's key is known from its `colon` on; elements
and the root have the empty key.
-/
inductive Kind where
  | value (key : Text)
  | objBody
  | member
  | colon (key : Text)
  | memberValue (key : Text)
  | objTail
  | arrBody
  | element
  | arrTail
  deriving Repr, DecidableEq

/-- White space may stand before any piece but the first byte of a value. -/
def Kind.skipsWs : Kind → Bool
  | .value _ => false
  | _ => true

/-- `s` starts with a piece of the given kind that means `evs`; `rest` follows. -/
inductive Reads (N : Text → Prop) : Kind → Text → List Event → Text → Prop where
  | ws {kind : Kind} {b : UInt8} {s : Text} {evs : List Event} {rest : Text}
      (hkind : kind.skipsWs = true) (hb : isWs b = true) (h : Reads N kind s evs rest) :
      Reads N kind (b :: s) evs rest
  | str {key s v rest : Text} (h : StringBody s v rest) :
      Reads N (.value key) (34 :: s) [.str key v] rest
  | num {key n : Text} (rest : Text) (h : N n) : Reads N (.value key) (n ++ rest) [.num key n] rest
  | litTrue (key rest : Text) :
      Reads N (.value key) (116 :: 114 :: 117 :: 101 :: rest) [.bool key true] rest
  | litFalse (key rest : Text) :
      Reads N (.value key) (102 :: 97 :: 108 :: 115 :: 101 :: rest) [.bool key false] rest
  | litNull (key rest : Text) :
      Reads N (.value key) (110 :: 117 :: 108 :: 108 :: rest) [.null key] rest
  | obj {key s : Text} {evs : List Event} {rest : Text} (h : Reads N .objBody s evs rest) :
      Reads N (.value key) (123 :: s) (.beginObj key :: evs) rest
  | arr {key s : Text} {evs : List Event} {rest : Text} (h : Reads N .arrBody s evs rest) :
      Reads N (.value key) (91 :: s) (.beginArr key :: evs) rest
  | objEmpty (rest : Text) : Reads N .objBody (125 :: rest) [.endObj] rest
  | objFirst {s key s' : Text} {evs : List Event} {rest : Text} (hkey : StringBody s key s')
      (h : Reads N (.colon key) s' evs rest) : Reads N .objBody (34 :: s) evs rest
  | key {s key s' : Text} {evs : List Event} {rest : Text} (hkey : StringBody s key s')
      (h : Reads N (.colon key) s' evs rest) : Reads N .member (34 :: s) evs rest
  | colon {key s : Text} {evs : List Event} {rest : Text}
      (h : Reads N (.memberValue key) s evs rest) : Reads N (.colon key) (58 :: s) evs rest
  | memberValue {key s : Text} {evs : List Event} {s' : Text} {evs' : List Event} {rest : Text}
      (hvalue : Reads N (.value key) s evs s') (h : Reads N .objTail s' evs' rest) :
      Reads N (.memberValue key) s (evs ++ evs') rest
  | objEnd (rest : Text) : Reads N .objTail (125 :: rest) [.endObj] rest
  | objNext {s : Text} {evs : List Event} {rest : Text} (h : Reads N .member s evs rest) :
      Reads N .objTail (44 :: s) evs rest
  | arrEmpty (rest : Text) : Reads N .arrBody (93 :: rest) [.endArr] rest
  | arrFirst {s : Text} {evs : List Event} {s' : Text} {evs' : List Event} {rest : Text}
      (hvalue : Reads N (.value []) s evs s') (h : Reads N .arrTail s' evs' rest) :
      Reads N .arrBody s (evs ++ evs') rest
  | element {s : Text} {evs : List Event} {s' : Text} {evs' : List Event} {rest : Text}
      (hvalue : Reads N (.value []) s evs s') (h : Reads N .arrTail s' evs' rest) :
      Reads N .element s (evs ++ evs') rest
  | arrEnd (rest : Text) : Reads N .arrTail (93 :: rest) [.endArr] rest
  | arrNext {s : Text} {evs : List Event} {rest : Text} (h : Reads N .element s evs rest) :
      Reads N .arrTail (44 :: s) evs rest

/-- A JSON text: one value with white space around it. -/
def IsText (N : Text → Prop) (s : Text) (evs : List Event) : Prop :=
  ∃ w s' w', s = w ++ s' ∧ (∀ b ∈ w, isWs b = true) ∧ Reads N (.value []) s' evs w' ∧
    ∀ b ∈ w', isWs b = true

/-! ## Changing the number grammar -/

/-- A reading under one number grammar, all of whose numbers are in another, is one under that. -/
theorem Reads.change {N N' : Text → Prop} {kind : Kind} {s : Text} {evs : List Event} {rest : Text}
    (h : Reads N kind s evs rest) (hnum : ∀ key n, Event.num key n ∈ evs → N n → N' n) :
    Reads N' kind s evs rest := by
  induction h with
  | ws hkind hb _ ih => exact .ws hkind hb (ih hnum)
  | str h => exact .str h
  | @num key n rest h => exact .num rest (hnum key n (List.mem_singleton_self _) h)
  | litTrue => exact .litTrue _ _
  | litFalse => exact .litFalse _ _
  | litNull => exact .litNull _ _
  | obj _ ih => exact .obj (ih fun key n hmem => hnum key n (List.mem_cons_of_mem _ hmem))
  | arr _ ih => exact .arr (ih fun key n hmem => hnum key n (List.mem_cons_of_mem _ hmem))
  | objEmpty => exact .objEmpty _
  | objFirst hkey _ ih => exact .objFirst hkey (ih hnum)
  | key hkey _ ih => exact .key hkey (ih hnum)
  | colon _ ih => exact .colon (ih hnum)
  | memberValue _ _ ihv ih =>
    exact .memberValue (ihv fun key n hmem => hnum key n (List.mem_append_left _ hmem))
      (ih fun key n hmem => hnum key n (List.mem_append_right _ hmem))
  | objEnd => exact .objEnd _
  | objNext _ ih => exact .objNext (ih hnum)
  | arrEmpty => exact .arrEmpty _
  | arrFirst _ _ ihv ih =>
    exact .arrFirst (ihv fun key n hmem => hnum key n (List.mem_append_left _ hmem))
      (ih fun key n hmem => hnum key n (List.mem_append_right _ hmem))
  | element _ _ ihv ih =>
    exact .element (ihv fun key n hmem => hnum key n (List.mem_append_left _ hmem))
      (ih fun key n hmem => hnum key n (List.mem_append_right _ hmem))
  | arrEnd => exact .arrEnd _
  | arrNext _ ih => exact .arrNext (ih hnum)

theorem Reads.lax {kind : Kind} {s : Text} {evs : List Event} {rest : Text}
    (h : Reads RfcNumber kind s evs rest) : Reads LaxNumber kind s evs rest :=
  h.change fun _ _ _ hn => hn.lax

theorem IsText.lax {s : Text} {evs : List Event} (h : IsText RfcNumber s evs) :
    IsText LaxNumber s evs := by
  obtain ⟨w, s', w', hs, hw, hreads, hw'⟩ := h
  exact ⟨w, s', w', hs, hw, hreads.lax, hw'⟩

/-- Every number a reading yields is one of its grammar. -/
theorem Reads.num_mem {N : Text → Prop} {kind : Kind} {s : Text} {evs : List Event} {rest : Text}
    (h : Reads N kind s evs rest) {key n : Text} (hmem : Event.num key n ∈ evs) : N n := by
  induction h with
  | ws _ _ _ ih => exact ih hmem
  | num rest h =>
    cases List.mem_singleton.mp hmem
    exact h
  | obj _ ih =>
    rcases List.mem_cons.mp hmem with heq | hmem
    · cases heq
    · exact ih hmem
  | arr _ ih =>
    rcases List.mem_cons.mp hmem with heq | hmem
    · cases heq
    · exact ih hmem
  | objFirst _ _ ih => exact ih hmem
  | key _ _ ih => exact ih hmem
  | colon _ ih => exact ih hmem
  | memberValue _ _ ihv ih => exact (List.mem_append.mp hmem).elim ihv ih
  | objNext _ ih => exact ih hmem
  | arrFirst _ _ ihv ih => exact (List.mem_append.mp hmem).elim ihv ih
  | element _ _ ihv ih => exact (List.mem_append.mp hmem).elim ihv ih
  | arrNext _ ih => exact ih hmem
  | _ => cases List.mem_singleton.mp hmem

/-! ## Limits -/

/-- The key of an event; an end event has none. -/
def Event.key : Event → Text
  | .beginObj key => key
  | .endObj => []
  | .beginArr key => key
  | .endArr => []
  | .num key _ => key
  | .bool key _ => key
  | .null key => key
  | .str key _ => key

/-- The length of an event's key, and of the number text after it. -/
def Event.size : Event → Nat
  | .num key text => key.length + text.length
  | e => e.key.length

/-- Every event fits. -/
def Fit (limit : Nat) (evs : List Event) : Prop := ∀ e ∈ evs, e.size ≤ limit

/-- The nesting depth after some events, from depth `d` on. -/
def depthAfter (d : Nat) : List Event → Nat
  | [] => d
  | .beginObj _ :: evs => depthAfter (d + 1) evs
  | .beginArr _ :: evs => depthAfter (d + 1) evs
  | .endObj :: evs => depthAfter (d - 1) evs
  | .endArr :: evs => depthAfter (d - 1) evs
  | _ :: evs => depthAfter d evs

theorem depthAfter_append (d : Nat) (evs evs' : List Event) :
    depthAfter d (evs ++ evs') = depthAfter (depthAfter d evs) evs' := by
  induction evs generalizing d with
  | nil => rfl
  | cons e evs ih => cases e <;> exact ih _

/-- From depth `d` on, at most `limit` containers are ever open. -/
def Nests (limit d : Nat) : List Event → Prop
  | [] => True
  | .beginObj _ :: evs => d < limit ∧ Nests limit (d + 1) evs
  | .beginArr _ :: evs => d < limit ∧ Nests limit (d + 1) evs
  | .endObj :: evs => Nests limit (d - 1) evs
  | .endArr :: evs => Nests limit (d - 1) evs
  | _ :: evs => Nests limit d evs

instance decidableNests (limit : Nat) : ∀ (d : Nat) (evs : List Event), Decidable (Nests limit d evs)
  | _, [] => isTrue trivial
  | d, .beginObj _ :: evs =>
    have := decidableNests limit (d + 1) evs
    inferInstanceAs (Decidable (_ ∧ _))
  | d, .beginArr _ :: evs =>
    have := decidableNests limit (d + 1) evs
    inferInstanceAs (Decidable (_ ∧ _))
  | d, .endObj :: evs => decidableNests limit (d - 1) evs
  | d, .endArr :: evs => decidableNests limit (d - 1) evs
  | d, .num _ _ :: evs => decidableNests limit d evs
  | d, .bool _ _ :: evs => decidableNests limit d evs
  | d, .null _ :: evs => decidableNests limit d evs
  | d, .str _ _ :: evs => decidableNests limit d evs

/-- Nesting is checked piece by piece. -/
theorem nests_append (limit d : Nat) (evs evs' : List Event) :
    Nests limit d (evs ++ evs') ↔ Nests limit d evs ∧ Nests limit (depthAfter d evs) evs' := by
  induction evs generalizing d with
  | nil => simp [Nests, depthAfter]
  | cons e evs ih => cases e <;> simp [Nests, depthAfter, ih, and_assoc]

theorem fit_append (limit : Nat) (evs evs' : List Event) :
    Fit limit (evs ++ evs') ↔ Fit limit evs ∧ Fit limit evs' := by
  simp [Fit, or_imp, forall_and]

end JsonText
end Foundations
end Breadboard
