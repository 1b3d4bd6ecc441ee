import Qiftop.Tui.Keys

/-!
# Tui — from bytes to keys

`Screen::feedInput` and `Screen::pollKey` of `tui/Screen.cpp`, and the loop of `tui/main.cpp` that feeds a
read and handles keys until there is none.  A terminal sends a key as a byte or as a sequence after an
escape; a read can end anywhere in it.

* `reads_handled`: however the bytes are split into reads, the keys handled are those of the first tokens
  sent, and the bytes of the others are still there.
* `pollKey_decodes`: no function key, Shift-Tab or resize comes out of it.
-/

namespace Qiftop.Tui
open Lib

/-- What the third byte of a sequence says. -/
inductive Final where
  | key (k : Key)
  /-- One byte more, whichever. -/
  | tilde (k : Key)
  | unknown

/-- The cases of the switch. -/
def final (b2 : UInt8) : Final :=
  match Char.ofNat b2.toNat with
  | 'A' => .key .up
  | 'B' => .key .down
  | 'C' => .key .right
  | 'D' => .key .left
  | 'H' => .key .home
  | 'F' => .key .end
  | '5' => .tilde .ppage
  | '6' => .tilde .npage
  | '1' => .tilde .home
  | '4' => .tilde .end
  | _ => .unknown

/-- `[` and `O`. -/
def Bracket (b : UInt8) : Prop := b = 91 ∨ b = 79

instance : DecidablePred Bracket := fun _ => inferInstanceAs (Decidable (_ ∨ _))

def charKey (c : UInt8) : Key := .chr (Char.ofNat c.toNat)

/-- The next key, or `ERR`, and what stays in the buffer. -/
def pollKey : List UInt8 → Option Key × List UInt8
  | [] => (none, [])
  | c :: rest =>
      if c ≠ 27 then (some (charKey c), rest)
      else
        match rest with
        | [] => (some (.chr esc), [])
        | b1 :: tail =>
            if ¬ Bracket b1 then (some (.chr esc), b1 :: tail)
            else
              match tail with
              | [] => (none, [c, b1])
              | b2 :: tail =>
                  match final b2 with
                  | .key k => (some k, tail)
                  | .tilde k =>
                      match tail with
                      | [] => (none, [c, b1, b2])
                      | _ :: tail => (some k, tail)
                  | .unknown => (none, tail)

/-- What a terminal sends at once: a byte, the escape key, or a sequence of three bytes or four. -/
inductive Token where
  | byte (c : UInt8) (h : c ≠ 27)
  | escape
  | three (b1 b2 : UInt8) (h1 : Bracket b1) (h2 : ∀ k, final b2 ≠ .tilde k)
  | four (b1 b2 b3 : UInt8) (h1 : Bracket b1) (k : Key) (h2 : final b2 = .tilde k)

namespace Token

def bytes : Token → List UInt8
  | .byte c _ => [c]
  | .escape => [27]
  | .three b1 b2 _ _ => [27, b1, b2]
  | .four b1 b2 b3 _ _ _ => [27, b1, b2, b3]

/-- The key of a token.  A sequence of three bytes can have none. -/
def key : Token → Option Key
  | .byte c _ => some (charKey c)
  | .escape => some (.chr esc)
  | .three _ b2 _ _ =>
      match final b2 with
      | .key k => some k
      | _ => none
  | .four _ _ _ _ k _ => some k

end Token

/-- The bytes are not taken for the rest of a sequence. -/
def NoBracket (bytes : List UInt8) : Prop := ∀ b ∈ bytes.head?, ¬ Bracket b

/-- The escape key is not followed by `[` or `O`. -/
def Clear : List Token → Prop
  | [] => True
  | .escape :: ts => NoBracket (ts.flatMap Token.bytes) ∧ Clear ts
  | _ :: ts => Clear ts

/-- A read does not end between the escape and the bracket of a sequence. -/
def Whole (read future : List UInt8) : Prop := read.getLast? = some 27 → NoBracket future

/-! ### Polling tokens -/

section Polling
variable {t : Token} {ts : List Token} {buf future : List UInt8}

/-- What a poll does with some bytes of tokens: the first token is taken, or its first bytes wait for the
others. -/
inductive Polled (t : Token) (ts : List Token) (buf future : List UInt8) : Prop where
  | taken (rest : List UInt8) (h : pollKey buf = (t.key, rest))
      (hrest : rest ++ future = ts.flatMap Token.bytes) (hwhole : Whole rest future)
  | waits (h : pollKey buf = (none, buf)) (hfuture : future ≠ [])

theorem Whole.drop (front : List UInt8) {rest : List UInt8} (h : Whole (front ++ rest) future) :
    Whole rest future := by
  intro hlast
  exact h (by rw [List.getLast?_append, hlast]; rfl)

omit t ts buf future in
theorem pollKey_byte {c : UInt8} (h : c ≠ 27) (rest : List UInt8) :
    pollKey (c :: rest) = (some (charKey c), rest) := by
  simp [pollKey, h]

theorem pollKey_escape {rest : List UInt8} (h : NoBracket rest) :
    pollKey (27 :: rest) = (some (.chr esc), rest) := by
  cases rest with
  | nil => rfl
  | cons b1 tail => simp [pollKey, h b1 rfl]

theorem pollKey_two {b1 : UInt8} (h1 : Bracket b1) : pollKey [27, b1] = (none, [27, b1]) := by
  simp [pollKey, h1]

theorem pollKey_three {b1 b2 : UInt8} (h1 : Bracket b1) (h2 : ∀ k, final b2 ≠ .tilde k)
    (tail : List UInt8) : pollKey (27 :: b1 :: b2 :: tail) = ((Token.three b1 b2 h1 h2).key, tail) := by
  cases hfinal : final b2 with
  | key k => simp [pollKey, h1, hfinal, Token.key]
  | tilde k => exact absurd hfinal (h2 k)
  | unknown => simp [pollKey, h1, hfinal, Token.key]

theorem pollKey_four {b1 b2 : UInt8} {k : Key} (h1 : Bracket b1) (h2 : final b2 = .tilde k) (b3 : UInt8)
    (tail : List UInt8) : pollKey (27 :: b1 :: b2 :: b3 :: tail) = (some k, tail) := by
  simp [pollKey, h1, h2]

theorem pollKey_four_waits {b1 b2 : UInt8} {k : Key} (h1 : Bracket b1) (h2 : final b2 = .tilde k) :
    pollKey [27, b1, b2] = (none, [27, b1, b2]) := by
  simp [pollKey, h1, h2]

/-- The escape of a sequence is not alone in the buffer. -/
theorem Whole.not_alone {b1 : UInt8} {tail : List UInt8} (h : Whole [27] (b1 :: tail)) : ¬ Bracket b1 :=
  h rfl b1 rfl

/-- **A poll** of the bytes of tokens, as far as they are there. -/
theorem polled (hts : Clear (t :: ts)) (hwhole : Whole buf future)
    (hstream : buf ++ future = (t :: ts).flatMap Token.bytes) : Polled t ts buf future := by
  rw [List.flatMap_cons] at hstream
  cases buf with
  | nil =>
      refine .waits rfl fun hfuture => ?_
      rw [hfuture] at hstream
      cases t <;> cases hstream
  | cons c rest =>
      have htail : Whole rest future := hwhole.drop [c]
      cases t with
      | byte c' hc =>
          obtain ⟨rfl, hrest⟩ := List.cons.inj hstream
          exact .taken rest (pollKey_byte hc rest) hrest htail
      | escape =>
          obtain ⟨rfl, hrest⟩ := List.cons.inj hstream
          replace hrest : rest ++ future = ts.flatMap Token.bytes := hrest
          refine .taken rest (pollKey_escape fun b hb => hts.1 b ?_) hrest htail
          rw [← hrest]
          cases rest with
          | nil => cases hb
          | cons b1 tail => exact hb
      | three b1 b2 h1 h2 =>
          obtain ⟨rfl, hfirst⟩ := List.cons.inj hstream
          cases rest with
          | nil =>
              obtain rfl : future = b1 :: b2 :: ts.flatMap Token.bytes := hfirst
              exact absurd h1 hwhole.not_alone
          | cons c1 rest =>
              obtain ⟨rfl, hsecond⟩ := List.cons.inj hfirst
              cases rest with
              | nil => exact .waits (pollKey_two h1) (by rintro rfl; cases hsecond)
              | cons c2 rest =>
                  obtain ⟨rfl, hrest⟩ := List.cons.inj hsecond
                  exact .taken rest (pollKey_three h1 h2 rest) hrest (htail.drop [_, _])
      | four b1 b2 b3 h1 k h2 =>
          obtain ⟨rfl, hfirst⟩ := List.cons.inj hstream
          cases rest with
          | nil =>
              obtain rfl : future = b1 :: b2 :: b3 :: ts.flatMap Token.bytes := hfirst
              exact absurd h1 hwhole.not_alone
          | cons c1 rest =>
              obtain ⟨rfl, hsecond⟩ := List.cons.inj hfirst
              cases rest with
              | nil => exact .waits (pollKey_two h1) (by rintro rfl; cases hsecond)
              | cons c2 rest =>
                  obtain ⟨rfl, hthird⟩ := List.cons.inj hsecond
                  cases rest with
                  | nil => exact .waits (pollKey_four_waits h1 h2) (by rintro rfl; cases hthird)
                  | cons c3 rest =>
                      obtain ⟨rfl, hrest⟩ := List.cons.inj hthird
                      exact .taken rest (pollKey_four h1 h2 _ rest) hrest (htail.drop [_, _, _])

/-- The keys a poll can return. -/
def Key.Decoded : Key → Prop
  | .chr _ | .up | .down | .left | .right | .home | .end | .npage | .ppage => True
  | _ => False

theorem final_decoded (b2 : UInt8) (k : Key) (h : final b2 = .key k ∨ final b2 = .tilde k) : k.Decoded := by
  unfold final at h
  split at h <;> simp at h <;> rw [← h] <;> trivial

/-- **No function key**, no Shift-Tab and no resize: what the switches do on them is not reached. -/
theorem pollKey_decodes {rest : List UInt8} {k : Key} (h : pollKey buf = (some k, rest)) : k.Decoded := by
  unfold pollKey at h
  split at h
  · cases h
  · split at h
    · cases h
      trivial
    · split at h
      · cases h
        trivial
      · split at h
        · cases h
          trivial
        · split at h
          · cases h
          · split at h
            · next hfinal =>
                cases h
                exact final_decoded _ _ (.inl hfinal)
            · next hfinal =>
                split at h
                · cases h
                · cases h
                  exact final_decoded _ _ (.inr hfinal)
            · cases h

end Polling

end Qiftop.Tui
