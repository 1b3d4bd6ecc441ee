import Mathlib.Data.List.Forall2

/-!
# Lib — structures on a message bus

A value on the bus is a number, a truth value, a text, an array or a structure; a structure is the
sequence of its fields.  A `Codec` writes a type as a value and reads it back.  Fields are read in the
order they were written: `field` reads the next one, `trailing` the next one if there is one, which is
how a reader accepts the structures of writers that knew fewer fields.

`bind_trailing_take`: on a structure cut after some field, `trailing` reads what was written up to the
cut and keeps the default behind it.  `ReadsPrefixes` says this of a whole reader.
-/

namespace Qiftop.Lib

/-- A value on the bus. -/
inductive Value where
  | byte (n : UInt8)
  | uint16 (n : UInt16)
  | uint32 (n : UInt32)
  | uint64 (n : UInt64)
  | boolean (b : Bool)
  | string (s : List Char)
  | array (items : List Value)
  | struct (fields : List Value)
  deriving Repr

/-- A way to write a type on the bus. -/
structure Codec (α : Type) where
  write : α → Value
  read : Value → Option α
  read_write : ∀ a, read (write a) = some a

namespace Codec

def byte : Codec UInt8 where
  write := .byte
  read | .byte n => some n | _ => none
  read_write _ := rfl

def uint16 : Codec UInt16 where
  write := .uint16
  read | .uint16 n => some n | _ => none
  read_write _ := rfl

def uint32 : Codec UInt32 where
  write := .uint32
  read | .uint32 n => some n | _ => none
  read_write _ := rfl

def uint64 : Codec UInt64 where
  write := .uint64
  read | .uint64 n => some n | _ => none
  read_write _ := rfl

def boolean : Codec Bool where
  write := .boolean
  read | .boolean b => some b | _ => none
  read_write _ := rfl

def string : Codec (List Char) where
  write := .string
  read | .string s => some s | _ => none
  read_write _ := rfl

end Codec

/-! ### Arrays -/

/-- The elements of an array, each read by `read`. -/
def readArray {α : Type} (read : Value → Option α) : Value → Option (List α)
  | .array items => items.mapM read
  | _ => none

/-- An array is read element by element. -/
theorem readArray_of_forall₂ {α : Type} {read : Value → Option α} {items : List Value} {l : List α}
    (h : List.Forall₂ (fun v a => read v = some a) items l) :
    readArray read (.array items) = some l := by
  rw [readArray]
  induction h with
  | nil => rfl
  | cons hv _ ih => simp [List.mapM_cons, hv, ih]

/-- Arrays of a type. -/
def Codec.array {α : Type} (c : Codec α) : Codec (List α) where
  write l := .array (l.map c.write)
  read := readArray c.read
  read_write l := by
    refine readArray_of_forall₂ ?_
    rw [List.forall₂_map_left_iff, List.forall₂_same]
    exact fun a _ => c.read_write a

/-! ### Fields -/

/-- Reading fields one after the other: what was read and the fields left; nothing past the end and
at a field of another type. -/
abbrev Reader := StateT (List Value) Option

/-- The next field. -/
def field {α : Type} (c : Codec α) : Reader α := fun
  | [] => none
  | v :: rest => (c.read v).map (·, rest)

/-- The next field, `d` when none is left. -/
def trailing {α : Type} (c : Codec α) (d : α) : Reader α := fun
  | [] => some (d, [])
  | v :: rest => (c.read v).map (·, rest)

/-- A structure, read by `r`. -/
def readStruct {α : Type} (r : Reader α) : Value → Option α
  | .struct fields => (r fields).map Prod.fst
  | _ => none

section
variable {α β : Type} (c : Codec α)

@[simp] theorem bind_field (a : α) (rest : List Value) (f : α → Reader β) :
    (field c >>= f) (c.write a :: rest) = f a rest := by
  change ((c.read (c.write a)).map (·, rest)).bind _ = _
  rw [c.read_write]
  rfl

/-- A trailing field of a structure of which `k` more fields are left. -/
@[simp] theorem bind_trailing_take (d a : α) (rest : List Value) (k : ℕ) (f : α → Reader β) :
    (trailing c d >>= f) ((c.write a :: rest).take k) =
      f (if 0 < k then a else d) (rest.take (k - 1)) := by
  cases k with
  | zero => rfl
  | succ k =>
      change ((c.read (c.write a)).map (·, rest.take k)).bind _ = _
      rw [c.read_write]
      rfl

/-- Fields taken from one structure up to the cut and from another behind it. -/
theorem take_append_drop_write (a b : α) (l m : List Value) (k : ℕ) :
    (c.write a :: l).take k ++ (c.write b :: m).drop k =
      c.write (if 0 < k then a else b) :: (l.take (k - 1) ++ m.drop (k - 1)) := by
  cases k with
  | zero => rfl
  | succ k => rfl

end

/-! ### Structures of older writers -/

/-- A reader accepts what writers with fewer fields wrote.  Of a structure cut anywhere behind its
first `base` fields it reads the fields before the cut and leaves those of `d₀` behind it; a whole
structure is read back as it was; an array of cut structures is read element by element. -/
structure ReadsPrefixes {D : Type} (fields : D → List Value) (read : Value → Option D) (d₀ : D)
    (base : ℕ) (P : D → Prop) : Prop where
  cut : ∀ d, P d → ∀ pre, pre <+: fields d → base ≤ pre.length →
    ∃ d', read (.struct pre) = some d' ∧ fields d' = pre ++ (fields d₀).drop pre.length
  whole : ∀ d, P d → read (.struct (fields d)) = some d
  array : ∀ l : List (D × List Value),
    (∀ e ∈ l, P e.1 ∧ e.2 <+: fields e.1 ∧ base ≤ e.2.length) →
    ∃ ds, readArray read (.array (l.map fun e => .struct e.2)) = some ds ∧
      List.Forall₂ (fun e d' => fields d' = e.2 ++ (fields d₀).drop e.2.length) l ds

/-- It is enough to know the value read of each prefix. -/
theorem ReadsPrefixes.of_upTo {D : Type} {fields : D → List Value} {read : Value → Option D} {d₀ : D}
    {base : ℕ} {P : D → Prop} (upTo : ℕ → D → D)
    (hread : ∀ d, P d → ∀ pre, pre <+: fields d → base ≤ pre.length →
      read (.struct pre) = some (upTo pre.length d) ∧
        fields (upTo pre.length d) = pre ++ (fields d₀).drop pre.length)
    (hwhole : ∀ d, upTo (fields d).length d = d) (hbase : ∀ d, base ≤ (fields d).length) :
    ReadsPrefixes fields read d₀ base P where
  cut d hd pre hpre hlen := ⟨_, hread d hd pre hpre hlen⟩
  whole d hd := by
    have h := (hread d hd (fields d) List.prefix_rfl (hbase d)).1
    rwa [hwhole] at h
  array l hl := by
    refine ⟨l.map fun e => upTo e.2.length e.1, readArray_of_forall₂ ?_, ?_⟩
    · rw [List.forall₂_map_left_iff, List.forall₂_map_right_iff, List.forall₂_same]
      intro e he
      obtain ⟨hd, hpre, hlen⟩ := hl e he
      exact (hread e.1 hd e.2 hpre hlen).1
    · rw [List.forall₂_map_right_iff, List.forall₂_same]
      intro e he
      obtain ⟨hd, hpre, hlen⟩ := hl e he
      exact (hread e.1 hd e.2 hpre hlen).2

end Qiftop.Lib
