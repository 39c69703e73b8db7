import Mathlib.Data.List.GetD
import Breadboard.Serialize.Populate
import Breadboard.Serialize.Walk

/-!
# bb_serialize - populate writes where the descriptor says

A descriptor, a base address and a memory describe fields at addresses: through
objects, and through the elements of object arrays.  Each described field has data
bytes, with the element shape the walker reads, and an array has the bytes of its
pointers besides.  As long as no data byte is part of a pointer, the pointers stay
what they were and the scatter stays within what is described, except that an array
whose elements are neither strings nor objects passes the check and is scattered as
an array of strings.

Main result:

- Theorem `populate_confined_iff`: the exact descriptors for which populate keeps
  to the description and rejects what it cannot scatter.
-/

namespace Breadboard
namespace Serialize

/-! ## What a descriptor describes -/

section Description

variable (P : Program) (m : Mem)

/-- A field that a table describes, from a base address, and the address it has. -/
inductive Described : List Field → Nat → Field → Nat → Prop where
  | here {fields : List Field} {base : Nat} {f : Field} (hf : f ∈ fields) :
      Described fields base f (base + f.offset)
  | obj {fields : List Field} {base : Nat} {f g : Field} {q : Nat} (hf : f ∈ fields)
      (htype : f.type = .obj)
      (hg : Described (P.tables f.children) (base + f.offset) g q) : Described fields base g q
  | elem {fields : List Field} {base : Nat} {f g : Field} {q j : Nat} (hf : f ∈ fields)
      (htype : f.type = .arr) (helem : f.elemType = .obj)
      (hitems : load m (base + f.offset) P.wordBytes ≠ 0) (hj : j < f.maxItems)
      (hg : Described (P.tables f.children)
        (load m (base + f.offset) P.wordBytes + j * f.elemSize) g q) : Described fields base g q

/-- The bytes of an array element that is no object, as `walk_fields` reads it. -/
def elemByte (f : Field) (items j a : Nat) : Prop :=
  match f.elemType with
  | .i64 => items + j * 8 ≤ a ∧ a < items + j * 8 + 8
  | .u64 => items + j * 8 ≤ a ∧ a < items + j * 8 + 8
  | .f64 => items + j * 8 ≤ a ∧ a < items + j * 8 + 8
  | .bool => a = items + j
  | .str =>
    load m (items + j * P.wordBytes) P.wordBytes ≤ a ∧
      a < load m (items + j * P.wordBytes) P.wordBytes + f.maxLen
  | _ => False

/-- The data bytes of a field: its value, or the count and the elements of an array. -/
def dataByte (f : Field) (p a : Nat) : Prop :=
  match f.type with
  | .i64 => p ≤ a ∧ a < p + 8
  | .u64 => p ≤ a ∧ a < p + 8
  | .f64 => p ≤ a ∧ a < p + 8
  | .bool => a = p
  | .str => p ≤ a ∧ a < p + f.maxLen
  | .arr =>
    p + P.wordBytes ≤ a ∧ a < p + 2 * P.wordBytes ∨
      load m p P.wordBytes ≠ 0 ∧ ∃ j, j < f.maxItems ∧ elemByte P m f (load m p P.wordBytes) j a
  | _ => False

/-- The bytes of the `items` pointer of an array carrier. -/
def carrierByte (f : Field) (p a : Nat) : Prop :=
  f.type = .arr ∧ p ≤ a ∧ a < p + P.wordBytes

/-- The bytes of the pointers that populate follows. -/
def pointerByte (f : Field) (p a : Nat) : Prop :=
  carrierByte P f p a ∨
    f.type = .arr ∧ f.elemType = .str ∧ load m p P.wordBytes ≠ 0 ∧
      ∃ j, j < f.maxItems ∧ load m p P.wordBytes + j * P.wordBytes ≤ a ∧
        a < load m p P.wordBytes + j * P.wordBytes + P.wordBytes

variable (fields : List Field) (dst : Nat)

/-- A described data byte. -/
def DataByte (a : Nat) : Prop :=
  ∃ f p, Described P m fields dst f p ∧ dataByte P m f p a

/-- A described byte: data, or the pointer of a carrier. -/
def DescribedByte (a : Nat) : Prop :=
  ∃ f p, Described P m fields dst f p ∧ (dataByte P m f p a ∨ carrierByte P f p a)

/-- The storage is pre-wired: no data byte is part of a pointer. -/
def Wired : Prop :=
  ∀ a, DataByte P m fields dst a →
    ∀ f p, Described P m fields dst f p → ¬ pointerByte P m f p a

/-- An array whose elements populate has no scatter for. -/
def Unscatterable : Prop :=
  ∃ f, HasField P fields f ∧ f.type = .arr ∧ f.elemType ≠ .str ∧ f.elemType ≠ .obj

end Description

/-! ## The scatter keeps to the description -/

section Confined

variable {σ : Type} {P : Program} {src : Source σ} {m₀ : Mem} {root : List Field} {dst : Nat}

/--
The state of a scatter that keeps to the description: memory differs from the initial
one in data bytes only, and every store made lies in described bytes.
-/
structure Good (P : Program) (m₀ : Mem) (root : List Field) (dst : Nat) (s : Scatter σ) : Prop where
  unchanged : ∀ a, ¬ DataByte P m₀ root dst a → s.mem a = m₀ a
  stores : ∀ st ∈ s.stores, ∀ i, i < st.2.length → DescribedByte P m₀ root dst (st.1 + i)

/-- A table at a base address lies within the description. -/
def Within (P : Program) (m₀ : Mem) (root : List Field) (dst : Nat) (fields : List Field)
    (base : Nat) : Prop :=
  ∀ f p, Described P m₀ fields base f p → Described P m₀ root dst f p

theorem Good.withSrc {s : Scatter σ} (h : Good P m₀ root dst s) (src' : σ) :
    Good P m₀ root dst { s with src := src' } :=
  ⟨h.unchanged, h.stores⟩

/-- A store of data bytes. -/
theorem Good.store {s : Scatter σ} (h : Good P m₀ root dst s) {a : Nat} {bytes : Bytes}
    (hdata : ∀ x, a ≤ x → x < a + bytes.length → DataByte P m₀ root dst x) :
    Good P m₀ root dst (s.store a bytes) where
  unchanged := fun x hx => by
    show storeBytes s.mem a bytes x = m₀ x
    rw [storeBytes_of_not_mem fun h => hx (hdata x h.1 h.2)]
    exact h.unchanged x hx
  stores := fun st hst i hi => by
    rcases List.mem_cons.mp hst with rfl | hold
    · obtain ⟨f, p, hf, hbyte⟩ := hdata (a + i) (Nat.le_add_right _ _) (Nat.add_lt_add_left hi a)
      exact ⟨f, p, hf, .inl hbyte⟩
    · exact h.stores st hold i hi

/-- A pointer is still what it was. -/
theorem Good.load_eq {s : Scatter σ} (h : Good P m₀ root dst s) (hwired : Wired P m₀ root dst)
    {f : Field} {p a n : Nat} (hf : Described P m₀ root dst f p)
    (hpointer : ∀ i, i < n → pointerByte P m₀ f p (a + i)) : load s.mem a n = load m₀ a n :=
  load_congr fun i hi => h.unchanged _ fun hdata => hwired _ hdata f p hf (hpointer i hi)

/-- The carrier is written back with its pointer as it was. -/
theorem Good.storeCarrier {s : Scatter σ} (h : Good P m₀ root dst s)
    {f : Field} {p count : Nat}
    (hf : Described P m₀ root dst f p) (htype : f.type = .arr) :
    Good P m₀ root dst
      (s.store p (leBytes P.wordBytes (load m₀ p P.wordBytes) ++ leBytes P.wordBytes count)) := by
  have hlen : (leBytes P.wordBytes (load m₀ p P.wordBytes) ++
      leBytes P.wordBytes count).length = 2 * P.wordBytes := by
    rw [List.length_append, length_leBytes, length_leBytes]
    omega
  have hcount {x : Nat} (hlo : p + P.wordBytes ≤ x) (hhi : x < p + 2 * P.wordBytes) :
      DataByte P m₀ root dst x := by
    refine ⟨f, p, hf, ?_⟩
    unfold dataByte
    rw [htype]
    exact .inl ⟨hlo, hhi⟩
  refine ⟨fun x hx => ?_, fun st hst i hi => ?_⟩
  · show storeBytes s.mem p _ x = m₀ x
    by_cases hmem : p ≤ x ∧ x < p + 2 * P.wordBytes
    · have hlt : x < p + P.wordBytes := by
        by_contra hge
        exact hx (hcount (Nat.le_of_not_lt hge) hmem.2)
      unfold storeBytes
      rw [if_pos (by rw [hlen]; exact hmem), List.getD_append _ _ _ _ (by
        rw [length_leBytes]; omega), leBytes_load, loadBytes_getD _ _ (by omega)]
      congr 1
      omega
    · rw [storeBytes_of_not_mem (by rwa [hlen])]
      exact h.unchanged x hx
  · rcases List.mem_cons.mp hst with rfl | hold
    · dsimp only at hi ⊢
      rw [hlen] at hi
      rcases Nat.lt_or_ge i P.wordBytes with hlt | hge
      · exact ⟨f, p, hf, .inr ⟨htype, Nat.le_add_right _ _, by omega⟩⟩
      · obtain ⟨g, q, hg, hbyte⟩ := hcount (x := p + i) (by omega) (by omega)
        exact ⟨g, q, hg, .inl hbyte⟩
    · exact h.stores st hold i hi

/-- A scalar keeps to its own bytes. -/
theorem Good.scalar {s : Scatter σ} (h : Good P m₀ root dst s) {f : Field} {p : Nat}
    (hf : Described P m₀ root dst f p) {got : Option Bytes × σ}
    (hbytes : ∀ bytes, got.1 = some bytes → ∀ x, p ≤ x → x < p + bytes.length →
      dataByte P m₀ f p x) : Good P m₀ root dst (scatterScalar s p got) := by
  unfold scatterScalar
  split
  · exact h.withSrc got.2
  · rename_i bytes hgot
    exact (h.withSrc got.2).store fun x hlo hhi => ⟨f, p, hf, hbytes bytes hgot x hlo hhi⟩

/-- The strings of an array go to the buffers its pointers name. -/
theorem scatterStrs_good (hwired : Wired P m₀ root dst) {f : Field} {p : Nat}
    (hf : Described P m₀ root dst f p) (htype : f.type = .arr) (helem : f.elemType = .str)
    (hitems : load m₀ p P.wordBytes ≠ 0) (n written : Nat) {s : Scatter σ}
    (h : Good P m₀ root dst s) (hn : written + n ≤ f.maxItems) :
    Good P m₀ root dst (scatterStrs P src f (load m₀ p P.wordBytes) n written s).2 := by
  induction n generalizing written s with
  | zero => exact h
  | succ n ih =>
    have hitem : load s.mem (load m₀ p P.wordBytes + written * P.wordBytes) P.wordBytes =
        load m₀ (load m₀ p P.wordBytes + written * P.wordBytes) P.wordBytes :=
      h.load_eq hwired hf fun i hi =>
        .inr ⟨htype, helem, hitems, written, by omega, by omega, by omega⟩
    unfold scatterStrs
    dsimp only
    rw [hitem]
    split
    · exact h.withSrc _
    · rename_i str src' _
      refine ih (written + 1) ((h.withSrc src').store fun x hlo hhi => ⟨f, p, hf, ?_⟩) (by omega)
      have hbound := str.2
      unfold dataByte
      rw [htype]
      refine .inr ⟨hitems, written, by omega, ?_⟩
      unfold elemByte
      rw [helem]
      exact ⟨hlo, by omega⟩

/-- What every element keeps, the object array keeps, and none of them stops it. -/
theorem scatterObjs_keeps {I : Scatter σ → Prop} (hsrc : ∀ s src', I s → I { s with src := src' })
    {scatter : Nat → Scatter σ → BbErr × Scatter σ} {f : Field} {items : Nat}
    (hscatter : ∀ j, j < f.maxItems → ∀ s, I s →
      (scatter (items + j * f.elemSize) s).1 = .ok ∧ I (scatter (items + j * f.elemSize) s).2)
    (n written : Nat) {s : Scatter σ} (h : I s) (hn : written + n ≤ f.maxItems) :
    (scatterObjs src scatter f items n written s).1 = .ok ∧
      I (scatterObjs src scatter f items n written s).2.2 := by
  induction n generalizing written s with
  | zero => exact ⟨rfl, h⟩
  | succ n ih =>
    unfold scatterObjs
    split
    · exact ⟨rfl, hsrc _ _ h⟩
    · rename_i src' _
      obtain ⟨hok, hkept⟩ := hscatter written (by omega) _ (hsrc _ src' h)
      dsimp only
      rw [if_neg (not_not.mpr hok)]
      exact ih (written + 1) (hsrc _ _ hkept) (by omega)

/-- What every field keeps, the table keeps, and none of them stops it. -/
theorem scatterEach_keeps {I : Scatter σ → Prop} {scatter : Field → Scatter σ → BbErr × Scatter σ}
    {fields : List Field}
    (hscatter : ∀ f ∈ fields, ∀ s, I s → (scatter f s).1 = .ok ∧ I (scatter f s).2)
    {s : Scatter σ} (h : I s) :
    (scatterEach scatter fields s).1 = .ok ∧ I (scatterEach scatter fields s).2 := by
  induction fields generalizing s with
  | nil => exact ⟨rfl, h⟩
  | cons f fields ih =>
    obtain ⟨hok, hkept⟩ := hscatter f List.mem_cons_self s h
    unfold scatterEach
    dsimp only
    rw [if_neg (not_not.mpr hok)]
    exact ih (fun g hg => hscatter g (List.mem_cons_of_mem f hg)) hkept

/-- An array keeps to its carrier and its elements. -/
theorem scatterArr_good (hwired : Wired P m₀ root dst)
    {scatter : List Field → Nat → Scatter σ → BbErr × Scatter σ} {f : Field} {p : Nat}
    (hf : Described P m₀ root dst f p) (htype : f.type = .arr)
    (hshape : f.elemType = .str ∨ f.elemType = .obj)
    (hscatter : f.elemType = .obj → load m₀ p P.wordBytes ≠ 0 → ∀ j, j < f.maxItems →
      ∀ s, Good P m₀ root dst s →
        (scatter (P.tables f.children) (load m₀ p P.wordBytes + j * f.elemSize) s).1 = .ok ∧
          Good P m₀ root dst
            (scatter (P.tables f.children) (load m₀ p P.wordBytes + j * f.elemSize) s).2)
    (count : Nat) {s : Scatter σ} (h : Good P m₀ root dst s) :
    (scatterArr P src scatter f p count s).1 = .ok ∧
      Good P m₀ root dst (scatterArr P src scatter f p count s).2 := by
  have hitems : load s.mem p P.wordBytes = load m₀ p P.wordBytes :=
    h.load_eq hwired hf fun i hi => .inl ⟨htype, by omega, by omega⟩
  have hn : 0 + (if count < f.maxItems then count else f.maxItems) ≤ f.maxItems := by
    split <;> omega
  have helements : ∀ r : BbErr × Nat × Scatter σ,
      r = (if load m₀ p P.wordBytes = 0 then (.ok, 0, s)
        else if f.elemType = .obj then
          scatterObjs src (scatter (P.tables f.children)) f (load m₀ p P.wordBytes)
            (if count < f.maxItems then count else f.maxItems) 0 s
        else (.ok, scatterStrs P src f (load m₀ p P.wordBytes)
          (if count < f.maxItems then count else f.maxItems) 0 s)) →
      r.1 = .ok ∧ Good P m₀ root dst r.2.2 := by
    rintro r rfl
    split
    · exact ⟨rfl, h⟩
    rename_i hnonnull
    split
    · rename_i helem
      exact scatterObjs_keeps (fun s src' h => h.withSrc src') (hscatter helem hnonnull) _ 0 h hn
    · rename_i helem
      exact ⟨rfl, scatterStrs_good hwired hf htype (hshape.resolve_right helem) hnonnull _ 0 h hn⟩
  unfold scatterArr
  dsimp only
  rw [hitems]
  obtain ⟨hok, hgood⟩ := helements _ rfl
  rw [if_neg (not_not.mpr hok)]
  exact ⟨rfl, (hgood.storeCarrier hf htype).withSrc _⟩

/-- One field that passes the check and that populate can scatter. -/
theorem populateField_good (hwired : Wired P m₀ root dst)
    {nested : Option (List Field → Nat → Scatter σ → BbErr × Scatter σ)} {fields : List Field}
    {base : Nat} (hwithin : Within P m₀ root dst fields base) {f : Field} (hf : f ∈ fields)
    (hnested : f.type = .obj ∨ f.type = .arr → ∃ scatter, nested = some scatter ∧
      (f.nests = true → ∀ base s, Within P m₀ root dst (P.tables f.children) base →
        Good P m₀ root dst s → (scatter (P.tables f.children) base s).1 = .ok ∧
          Good P m₀ root dst (scatter (P.tables f.children) base s).2))
    (hshape : f.type = .arr → f.elemType = .str ∨ f.elemType = .obj) {s : Scatter σ}
    (h : Good P m₀ root dst s) :
    (populateField P src nested base f s).1 = .ok ∧
      Good P m₀ root dst (populateField P src nested base f s).2 := by
  have hdescribed := hwithin f _ (.here hf)
  have hscalar {got : Option Bytes × σ}
      (hbytes : ∀ bytes, got.1 = some bytes → ∀ x, base + f.offset ≤ x →
        x < base + f.offset + bytes.length → dataByte P m₀ f (base + f.offset) x) :
      Good P m₀ root dst (scatterScalar s (base + f.offset) got) :=
    h.scalar hdescribed hbytes
  have hword {got : Option (BitVec 64)} {bytes : Bytes}
      (hgot : (got.map fun v => leBytes 8 v.toNat) = some bytes) : bytes.length = 8 := by
    cases got with
    | none => cases hgot
    | some v =>
      rw [← Option.some.inj hgot]
      exact length_leBytes 8 _
  unfold populateField dataByte at *
  cases htype : f.type <;> simp only [htype] at hscalar ⊢
  case i64 | u64 | f64 =>
    refine ⟨trivial, hscalar fun bytes hgot x hlo hhi => ?_⟩
    rw [hword hgot] at hhi
    exact ⟨hlo, hhi⟩
  case bool =>
    refine ⟨trivial, hscalar fun bytes hgot x hlo hhi => ?_⟩
    cases hv : (src.getBool s.src f.key).1 with
    | none =>
      rw [hv] at hgot
      cases hgot
    | some v =>
      rw [hv] at hgot
      rw [← Option.some.inj hgot, List.length_singleton] at hhi
      omega
  case str =>
    refine ⟨trivial, hscalar fun bytes hgot x hlo hhi => ?_⟩
    cases hv : (src.getStr s.src (some f.key) f.maxLen).1 with
    | none =>
      rw [hv] at hgot
      cases hgot
    | some str =>
      have hbound := str.2
      rw [hv] at hgot
      rw [← Option.some.inj hgot] at hhi
      exact ⟨hlo, by omega⟩
  case strN | ref => exact ⟨trivial, h⟩
  case obj =>
    obtain ⟨scatter, hsome, hscatter⟩ := hnested (.inl htype)
    rw [hsome]
    dsimp only
    split
    · exact ⟨rfl, h.withSrc _⟩
    · rename_i src' _
      obtain ⟨hok, hgood⟩ := hscatter (by simp [Field.nests, htype]) (base + f.offset) _
        (fun g q hg => hwithin g q (.obj hf htype hg)) (h.withSrc src')
      exact ⟨hok, hgood.withSrc _⟩
  case arr =>
    obtain ⟨scatter, hsome, hscatter⟩ := hnested (.inr htype)
    rw [hsome]
    dsimp only
    split
    · exact ⟨rfl, h.withSrc _⟩
    · rename_i count src' _
      refine scatterArr_good hwired hdescribed htype (hshape htype) ?_ count (h.withSrc src')
      intro helem hitems j hj s hs
      exact hscatter (by simp [Field.nests, htype, helem]) _ s
        (fun g q hg => hwithin g q (.elem hf htype helem hitems hj hg)) hs

/-- What a field needs of the levels below it, when it passes the check. -/
theorem populateCheckField_ok {nested : Option (List Field → BbErr)} {f : Field}
    (h : populateCheckField P nested f = .ok) (hcontainer : f.type = .obj ∨ f.type = .arr) :
    ∃ check, nested = some check ∧ (f.nests = true → check (P.tables f.children) = .ok) := by
  unfold populateCheckField at h
  rcases hcontainer with htype | htype <;> simp only [htype] at h
  · cases hnested : nested with
    | none =>
      rw [hnested] at h
      cases h
    | some check =>
      rw [hnested] at h
      exact ⟨check, rfl, fun _ => h⟩
  · cases hnested : nested with
    | none =>
      rw [hnested] at h
      cases h
    | some check =>
      rw [hnested] at h
      dsimp only at h
      refine ⟨check, rfl, fun hnests => ?_⟩
      split at h
      · cases h
      rename_i hstream
      split at h
      · cases h
      split at h
      · exact h
      · rename_i helem
        simp [Field.nests, htype, helem, hstream] at hnests

/-- The scatter of a table that passes the check stays within the description. -/
theorem populateFields_good (hwired : Wired P m₀ root dst) (n : Nat) {fields : List Field}
    {base : Nat} (hcheck : populateCheckFields P n fields = .ok)
    (hscatterable : ¬ Unscatterable P fields) (hwithin : Within P m₀ root dst fields base)
    {s : Scatter σ} (h : Good P m₀ root dst s) :
    (populateFields P src n fields base s).1 = .ok ∧
      Good P m₀ root dst (populateFields P src n fields base s).2 := by
  have hshape {fields : List Field} (hscatterable : ¬ Unscatterable P fields) {f : Field}
      (hf : HasField P fields f) (htype : f.type = .arr) :
      f.elemType = .str ∨ f.elemType = .obj := by
    by_contra hnone
    rw [not_or] at hnone
    exact hscatterable ⟨f, hf, htype, hnone⟩
  induction n generalizing fields base s with
  | zero =>
    refine scatterEach_keeps (fun f hf s hs => ?_) h
    refine populateField_good hwired hwithin hf (fun hcontainer => ?_)
      (hshape hscatterable (.here hf)) hs
    obtain ⟨check, hnone, -⟩ := populateCheckField_ok (firstError_ok_iff.mp hcheck f hf) hcontainer
    cases hnone
  | succ n ih =>
    refine scatterEach_keeps (fun f hf s hs => ?_) h
    refine populateField_good hwired hwithin hf (fun hcontainer => ?_)
      (hshape hscatterable (.here hf)) hs
    obtain ⟨check, hsome, hchildren⟩ :=
      populateCheckField_ok (firstError_ok_iff.mp hcheck f hf) hcontainer
    cases hsome
    refine ⟨populateFields P src n, rfl, fun hnests base s hbase hs => ?_⟩
    refine ih (hchildren hnests) ?_ hbase hs
    rintro ⟨g, hg, hshapes⟩
    exact hscatterable ⟨g, .child hf hnests hg, hshapes⟩

end Confined

/-! ## Populate -/

section Populate

variable {σ : Type} (P : Program) (src : Source σ)

/-- Every store lies in described bytes, and what is not described is what it was. -/
structure Confined (m : Mem) (fields : List Field) (dst : Nat) (s : Scatter σ) : Prop where
  stores : ∀ st ∈ s.stores, ∀ i, i < st.2.length → DescribedByte P m fields dst (st.1 + i)
  unchanged : ∀ a, ¬ DescribedByte P m fields dst a → s.mem a = m a

/-- Before the first store. -/
def Scatter.start (m : Mem) (x : σ) : Scatter σ where
  mem := m
  src := x
  stores := []

theorem confined_start (m : Mem) (fields : List Field) (dst : Nat) (x : σ) :
    Confined P m fields dst (.start m x) where
  stores := fun _ h => nomatch h
  unchanged := fun _ _ => rfl

theorem populate_of_rejected {fields : List Field} {dst : Nat} {s : Scatter σ}
    (h : populateCheckFields P maxDepth fields ≠ .ok) :
    populate P src fields dst s = (populateCheckFields P maxDepth fields, s) := by
  unfold populate
  dsimp only
  rw [if_pos h]

/-- A descriptor that passes the check and that populate can scatter. -/
theorem populate_good {m : Mem} {fields : List Field} {dst : Nat}
    (hwired : Wired P m fields dst) (hcheck : populateCheckFields P maxDepth fields = .ok)
    (hscatterable : ¬ Unscatterable P fields) (x : σ) :
    (populate P src fields dst (.start m x)).1 = .ok ∧
      Good P m fields dst (populate P src fields dst (.start m x)).2 := by
  unfold populate
  dsimp only
  rw [if_neg (not_not.mpr hcheck)]
  exact populateFields_good hwired maxDepth hcheck hscatterable (fun _ _ h => h)
    ⟨fun _ _ => rfl, fun _ h => nomatch h⟩

/-- A field that passes the check does not stop the scatter. -/
theorem populateField_ok
    {nested : Option (List Field → Nat → Scatter σ → BbErr × Scatter σ)} {f : Field} (base : Nat)
    (hnested : f.type = .obj ∨ f.type = .arr → ∃ scatter, nested = some scatter ∧
      (f.nests = true → ∀ base s, (scatter (P.tables f.children) base s).1 = .ok))
    (s : Scatter σ) : (populateField P src nested base f s).1 = .ok := by
  unfold populateField
  cases htype : f.type <;> simp only
  case obj =>
    obtain ⟨scatter, hsome, hscatter⟩ := hnested (.inl htype)
    rw [hsome]
    dsimp only
    split
    · rfl
    · exact hscatter (by simp [Field.nests, htype]) _ _
  case arr =>
    obtain ⟨scatter, hsome, hscatter⟩ := hnested (.inr htype)
    rw [hsome]
    dsimp only
    split
    · rfl
    rename_i count src' _
    unfold scatterArr
    dsimp only
    have helements : ∀ (items n : Nat) (s : Scatter σ), n ≤ f.maxItems →
        (if items = 0 then (.ok, 0, s)
          else if f.elemType = .obj then
            scatterObjs src (scatter (P.tables f.children)) f items n 0 s
          else (.ok, scatterStrs P src f items n 0 s) : BbErr × Nat × Scatter σ).1 = .ok := by
      intro items n s hn
      split
      · rfl
      split
      · rename_i helem
        refine (@scatterObjs_keeps σ src (fun _ => True) (fun _ _ _ => trivial) _ f items
          (fun j _ s _ => ⟨hscatter ?_ _ s, trivial⟩) n 0 s trivial (by omega)).1
        simp [Field.nests, htype, helem]
      · rfl
    rw [if_neg (not_not.mpr (helements _ _ _ (by split <;> omega)))]

/-- What the check passes is scattered to the end, whatever its arrays hold. -/
theorem populateFields_ok (n : Nat) {fields : List Field}
    (hcheck : populateCheckFields P n fields = .ok) (base : Nat) (s : Scatter σ) :
    (populateFields P src n fields base s).1 = .ok := by
  induction n generalizing fields base s with
  | zero =>
    refine (@scatterEach_keeps σ (fun _ => True) _ _ (fun f hf s _ => ⟨?_, trivial⟩) s trivial).1
    refine populateField_ok P src base (fun hcontainer => ?_) s
    obtain ⟨check, hnone, -⟩ := populateCheckField_ok (firstError_ok_iff.mp hcheck f hf) hcontainer
    cases hnone
  | succ n ih =>
    refine (@scatterEach_keeps σ (fun _ => True) _ _ (fun f hf s _ => ⟨?_, trivial⟩) s trivial).1
    refine populateField_ok P src base (fun hcontainer => ?_) s
    obtain ⟨check, hsome, hchildren⟩ :=
      populateCheckField_ok (firstError_ok_iff.mp hcheck f hf) hcontainer
    cases hsome
    exact ⟨populateFields P src n, rfl, fun hnests base s => ih (hchildren hnests) base s⟩

/--
Populate keeps to the description, leaves everything alone when it answers an error,
and rejects an array it has no scatter for, exactly when the check rejects the
descriptor or every array it describes holds strings or objects.
-/
theorem populate_confined_iff (m : Mem) (fields : List Field) (dst : Nat) (x : σ)
    (hwired : Wired P m fields dst) :
    (((populate P src fields dst (.start m x)).1 ≠ .ok →
        (populate P src fields dst (.start m x)).2 = .start m x) ∧
      Confined P m fields dst (populate P src fields dst (.start m x)).2 ∧
      (Unscatterable P fields → (populate P src fields dst (.start m x)).1 ≠ .ok)) ↔
    (populateCheckFields P maxDepth fields = .ok → ¬ Unscatterable P fields) := by
  constructor
  · rintro ⟨-, -, hrejects⟩ hcheck hunscatterable
    refine hrejects hunscatterable ?_
    unfold populate
    dsimp only
    rw [if_neg (not_not.mpr hcheck)]
    exact populateFields_ok P src maxDepth hcheck dst (.start m x)
  · intro hcondition
    by_cases hcheck : populateCheckFields P maxDepth fields = .ok
    · obtain ⟨hok, hgood⟩ := populate_good P src hwired hcheck (hcondition hcheck) x
      refine ⟨fun h => absurd hok h, ⟨hgood.stores, fun a ha => ?_⟩,
        fun h => absurd h (hcondition hcheck)⟩
      refine hgood.unchanged a fun hdata => ha ?_
      obtain ⟨f, p, hf, hbyte⟩ := hdata
      exact ⟨f, p, hf, .inl hbyte⟩
    · rw [populate_of_rejected P src hcheck]
      exact ⟨fun _ => rfl, confined_start P m fields dst x, fun _ => hcheck⟩

/-! ## Two one-field descriptors -/

/-- A lone field without children describes itself only. -/
theorem described_singleton {m : Mem} {f g : Field} {base q : Nat} (hflat : f.nests = false)
    (h : Described P m [f] base g q) : g = f ∧ q = base + f.offset := by
  cases h with
  | here hf =>
    rw [List.mem_singleton.mp hf]
    exact ⟨rfl, rfl⟩
  | obj hf htype =>
    rw [List.mem_singleton.mp hf] at htype
    simp [Field.nests, htype] at hflat
  | elem hf htype helem =>
    rw [List.mem_singleton.mp hf] at htype helem
    simp [Field.nests, htype, helem] at hflat

theorem hasField_singleton {f g : Field} (hflat : f.nests = false) (h : HasField P [f] g) :
    g = f := by
  cases h with
  | here hf => exact List.mem_singleton.mp hf
  | child hf hnests =>
    rw [List.mem_singleton.mp hf, hflat] at hnests
    cases hnests

/-- An array of one element, with elements of some type, at offset 0. -/
def oneItem (elemType : Ty) : Field where
  key := [97]
  type := .arr
  offset := 0
  present := none
  children := 0
  maxLen := 4
  maxItems := 1
  elemType := elemType
  elemSize := 0
  cardinality := .fixed
  refKey := []

/-- Four-byte pointers, and no tables. -/
def wordProgram : Program where
  wordBytes := 4
  tables := fun _ => []
  present := fun _ _ _ => true
  rows := fun _ _ _ => []

/-- A carrier at 0 with its element at 32, which holds the number 100. -/
def wiredMem : Mem := fun a => if a = 0 then 32 else if a = 32 then 100 else 0

/-- A source of one string. -/
def stringSource : Source Unit where
  getI64 := fun x _ => (none, x)
  getU64 := fun x _ => (none, x)
  getF64 := fun x _ => (none, x)
  getBool := fun x _ => (none, x)
  getStr := fun x _ cap => (if h : 1 ≤ cap then some ⟨[65], h⟩ else none, x)
  beginObj := fun x _ => (false, x)
  endObj := id
  beginArr := fun x _ => (some 1, x)
  endArr := id

theorem populate_confined_iff_strs :
    Confined wordProgram wiredMem [oneItem .str] 0
      (populate wordProgram stringSource [oneItem .str] 0 (.start wiredMem ())).2 := by
  have hflat : (oneItem .str).nests = false := rfl
  have hitems : load wiredMem 0 4 = 32 := by decide
  have hbuffer : load wiredMem 32 4 = 100 := by decide
  have hwired : Wired wordProgram wiredMem [oneItem .str] 0 := by
    rintro a ⟨f, p, hf, hdata⟩ g q hg hpointer
    obtain ⟨rfl, rfl⟩ := described_singleton wordProgram hflat hf
    obtain ⟨rfl, rfl⟩ := described_singleton wordProgram hflat hg
    simp only [dataByte, pointerByte, carrierByte, elemByte, oneItem, wordProgram, hitems] at *
    rcases hdata with hcount | ⟨-, j, hj, helem⟩
    · rcases hpointer with hcarrier | ⟨-, -, -, k, hk, hword⟩ <;> omega
    · obtain rfl : j = 0 := by omega
      simp only [Nat.zero_mul, Nat.add_zero, hbuffer] at helem
      rcases hpointer with hcarrier | ⟨-, -, -, k, hk, hword⟩ <;> omega
  refine ((populate_confined_iff wordProgram stringSource wiredMem [oneItem .str] 0 () hwired).mpr
    fun _ => ?_).2.1
  rintro ⟨f, hf, -, hstr, -⟩
  rw [hasField_singleton wordProgram hflat hf] at hstr
  exact hstr rfl

/-- The number an `I64` element holds is taken for the address of a string buffer. -/
theorem populate_writes_outside :
    ¬ ∀ (P : Program) (src : Source Unit) (m : Mem) (fields : List Field) (dst : Nat),
      Wired P m fields dst → populateCheckFields P maxDepth fields = .ok →
      Confined P m fields dst (populate P src fields dst (.start m ())).2 := by
  intro hclaim
  have hflat : (oneItem .i64).nests = false := rfl
  have hitems : load wiredMem 0 4 = 32 := by decide
  have hwired : Wired wordProgram wiredMem [oneItem .i64] 0 := by
    rintro a ⟨f, p, hf, hdata⟩ g q hg hpointer
    obtain ⟨rfl, rfl⟩ := described_singleton wordProgram hflat hf
    obtain ⟨rfl, rfl⟩ := described_singleton wordProgram hflat hg
    simp only [dataByte, pointerByte, carrierByte, elemByte, oneItem, wordProgram, hitems] at *
    rcases hdata with hcount | ⟨-, j, hj, helem⟩ <;>
      rcases hpointer with hcarrier | ⟨-, hstr, -⟩ <;> first | omega | cases hstr
  have hconfined := hclaim wordProgram stringSource wiredMem [oneItem .i64] 0 hwired (by decide)
  have houtside : ¬ DescribedByte wordProgram wiredMem [oneItem .i64] 0 100 := by
    rintro ⟨f, p, hf, hbyte⟩
    obtain ⟨rfl, rfl⟩ := described_singleton wordProgram hflat hf
    simp only [dataByte, carrierByte, elemByte, oneItem, wordProgram, hitems] at hbyte
    rcases hbyte with (hcount | ⟨-, j, hj, helem⟩) | hcarrier <;> omega
  have hchanged := hconfined.unchanged 100 houtside
  exact absurd hchanged (by decide)

end Populate

end Serialize
end Breadboard
